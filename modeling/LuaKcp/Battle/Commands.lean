import LuaKcp.Battle.Loop

/-!
# The commands of a battle

A command is filed in the player's entry under the current frame, and the next pass of the loop
packs what it finds there. Nothing is lost or packed twice as long as no player with commands in the
current frame joins again and nobody commits to a battle whose loop is over (`commands_kept_iff`).
-/

namespace LuaKcp

namespace Center

variable {κ : Type*}

/-! ## Commands of a frame -/

/-- The commands of a player filed for a frame, in the order of the calls. -/
def filedAt (filed : List (Filed κ)) (battleId : LuaKey) (frame : BitVec 64) (uid : LuaKey) :
    List κ :=
  (filed.filter fun c => decide (c.battleId = battleId ∧ c.frame = frame ∧ c.uid = uid)).map
    Filed.cmd

/-- The commands of a player packed for a frame, one list for each time. -/
def packedAt (packed : List (Packed κ)) (battleId : LuaKey) (frame : BitVec 64) (uid : LuaKey) :
    List (List κ) :=
  (packed.filter fun p => decide (p.battleId = battleId ∧ p.frame = frame ∧ p.uid = uid)).map
    Packed.cmds

/-- What should be packed for the commands of a frame: nothing when there are none, and otherwise
all of them, once. -/
def batch (cmds : List κ) : List (List κ) := if cmds.isEmpty then [] else [cmds]

/-- The loop of the battle is over: it has played its last frame, or its coroutine has ended. -/
def Over (s : Center κ) (battleId : LuaKey) (b : Battle κ) : Prop :=
  b.plays = false ∨ ∃ c ∈ s.starters, c.stage = .ended ∧ c.battleId = battleId

instance (s : Center κ) (battleId : LuaKey) (b : Battle κ) : Decidable (s.Over battleId b) :=
  inferInstanceAs (Decidable (_ ∨ _))

/-- The commands that a player's entry holds for the current frame. -/
def slot (b : Battle κ) (uid : LuaKey) : Option (List κ) :=
  (b.info.get uid).bind fun v => v.cmds.get b.curFrame

/-- No command of a battle is lost or repeated: what was filed for a frame played is packed, once
and in order; what was filed for the current frame is where the next pass reads it, unless nothing
is and the loop is over; nothing is filed or packed ahead. -/
structure KeptAt (filed : List (Filed κ)) (packed : List (Packed κ)) (isOver : Prop)
    (battleId : LuaKey) (b : Battle κ) : Prop where
  played : ∀ frame uid, frame.toNat < b.curFrame.toNat →
    packedAt packed battleId frame uid = batch (filedAt filed battleId frame uid)
  ahead : ∀ frame uid, b.curFrame.toNat ≤ frame.toNat → packedAt packed battleId frame uid = []
  pending : ∀ uid, (slot b uid).getD [] = filedAt filed battleId b.curFrame uid
  later : ∀ frame uid, b.curFrame.toNat < frame.toNat → filedAt filed battleId frame uid = []
  ended : isOver → ∀ uid, filedAt filed battleId b.curFrame uid = []

/-- No command accepted is lost or repeated. -/
def Kept (s : Center κ) : Prop :=
  ∀ battleId b, s.battleRef.get battleId = some b →
    KeptAt s.filed s.packed (s.Over battleId b) battleId b

/-- A commit to a battle whose loop is over is refused. -/
def Refused (s : Center κ) (e : CenterEvent κ) (a : Answer) : Prop :=
  ∀ battleId uid frame cmd b, e = .commitFrameCmd (.key battleId) uid frame cmd →
    s.battleRef.get battleId = some b → s.Over battleId b → a = .returned false

/-- A joined player commits to a battle whose loop is over only with a frame more than 60 behind; no
player joins again with commands in the current frame; a frame counter comes around to 0 only in a
battle without commands. -/
structure Careful (s : Center κ) (e : CenterEvent κ) : Prop where
  commit : ∀ battleId uid frame cmd b v, e = .commitFrameCmd (.key battleId) (.key uid) frame cmd →
    s.battleRef.get battleId = some b → b.info.get uid = some v → s.Over battleId b →
      ∃ f, frame = some f ∧ LuaNum.lt (.ofNat 60) (LuaNum.sub (.integer b.curFrame) f) = true
  join : ∀ battleId uid b, s.joined e = some (battleId, uid, b) → slot b uid = none
  pass : ∀ i c b, s.passing e = some (i, c) → s.battleRef.get c.battleId = some b →
    b.plays = true → b.curFrame = BitVec.allOnes 64 → ∀ f ∈ s.filed, f.battleId ≠ c.battleId

/-- What the entries hold and where the records come from. -/
structure Slots (s : Center κ) : Prop where
  held : ∀ battleId b uid v frame cmds, s.battleRef.get battleId = some b →
    b.info.get uid = some v → v.cmds.get frame = some cmds →
      cmds ≠ [] ∧ cmds = filedAt s.filed battleId frame uid
  filed : ∀ c ∈ s.filed, s.battleRef.get c.battleId ≠ none
  packed : ∀ p ∈ s.packed, s.battleRef.get p.battleId ≠ none

/-! ## Filing and packing -/

theorem filedAt_append (l l' : List (Filed κ)) (battleId : LuaKey) (frame : BitVec 64)
    (uid : LuaKey) : filedAt (l ++ l') battleId frame uid =
      filedAt l battleId frame uid ++ filedAt l' battleId frame uid := by
  simp [filedAt]

theorem packedAt_append (l l' : List (Packed κ)) (battleId : LuaKey) (frame : BitVec 64)
    (uid : LuaKey) : packedAt (l ++ l') battleId frame uid =
      packedAt l battleId frame uid ++ packedAt l' battleId frame uid := by
  simp [packedAt]

theorem filedAt_singleton (c : Filed κ) (battleId : LuaKey) (frame : BitVec 64) (uid : LuaKey) :
    filedAt [c] battleId frame uid =
      if c.battleId = battleId ∧ c.frame = frame ∧ c.uid = uid then [c.cmd] else [] := by
  unfold filedAt
  split_ifs with h
  · simp [h]
  · simp [h]

theorem filedAt_eq_nil_of_unknown {l : List (Filed κ)} {battleId : LuaKey}
    (h : ∀ c ∈ l, c.battleId ≠ battleId) (frame : BitVec 64) (uid : LuaKey) :
    filedAt l battleId frame uid = [] := by
  unfold filedAt
  rw [List.map_eq_nil_iff, List.filter_eq_nil_iff]
  intro c hc
  simp [h c hc]

theorem packedAt_eq_nil_of_unknown {l : List (Packed κ)} {battleId : LuaKey}
    (h : ∀ p ∈ l, p.battleId ≠ battleId) (frame : BitVec 64) (uid : LuaKey) :
    packedAt l battleId frame uid = [] := by
  unfold packedAt
  rw [List.map_eq_nil_iff, List.filter_eq_nil_iff]
  intro p hp
  simp [h p hp]

theorem filedAt_ne_nil_of_mem {l : List (Filed κ)} {c : Filed κ} (h : c ∈ l) :
    filedAt l c.battleId c.frame c.uid ≠ [] := by
  unfold filedAt
  rw [ne_eq, List.map_eq_nil_iff, List.filter_eq_nil_iff]
  intro hnone
  exact hnone c h (by simp)

/-- What a pass packs for a player is the player's slot. -/
theorem packedAt_sendMsg (battleId id : LuaKey) (b : Battle κ) (frame : BitVec 64) (uid : LuaKey) :
    packedAt (sendMsg battleId b) id frame uid =
      if battleId = id ∧ b.curFrame = frame then (slot b uid).toList else [] := by
  unfold packedAt sendMsg
  rw [List.filter_filterMap, List.map_filterMap]
  split_ifs with h
  · obtain ⟨rfl, rfl⟩ := h
    rw [slot, ← LuaTable.filterMap_entries]
    congr 1
    funext e
    cases hslot : e.2.cmds.get b.curFrame with
    | none => simp
    | some cmds =>
      by_cases huid : e.1 = uid
      · simp [huid, Option.filter]
      · simp [huid, Option.filter]
  · rw [List.filterMap_eq_nil_iff]
    intro e _
    cases hslot : e.2.cmds.get b.curFrame with
    | none => simp
    | some cmds =>
      have : ¬ (battleId = id ∧ b.curFrame = frame ∧ e.1 = uid) := fun hall =>
        h ⟨hall.1, hall.2.1⟩
      simp [Option.filter, this]

/-! ## A battle whose records stay -/

variable {s t : Center κ}

/-- The records of the battle, its current frame and its players' commands for it are as before. -/
theorem KeptAt.congr {filed filed' : List (Filed κ)} {packed packed' : List (Packed κ)}
    {isOver isOver' : Prop} {battleId : LuaKey} {b b' : Battle κ}
    (h : KeptAt filed packed isOver battleId b)
    (hfiled : ∀ frame uid, filedAt filed' battleId frame uid = filedAt filed battleId frame uid)
    (hpacked : ∀ frame uid,
      packedAt packed' battleId frame uid = packedAt packed battleId frame uid)
    (hframe : b'.curFrame = b.curFrame)
    (hslot : ∀ uid, (slot b' uid).getD [] = (slot b uid).getD [])
    (hover : isOver' → isOver) : KeptAt filed' packed' isOver' battleId b' := by
  refine ⟨fun frame uid hlt => ?_, fun frame uid hle => ?_, fun uid => ?_, fun frame uid hlt => ?_,
    fun hisOver uid => ?_⟩
  · rw [hframe] at hlt
    rw [hpacked, hfiled]
    exact h.played frame uid hlt
  · rw [hframe] at hle
    rw [hpacked]
    exact h.ahead frame uid hle
  · rw [hslot, hframe, hfiled]
    exact h.pending uid
  · rw [hframe] at hlt
    rw [hfiled]
    exact h.later frame uid hlt
  · rw [hframe, hfiled]
    exact h.ended (hover hisOver) uid

theorem KeptAt.of_over {filed : List (Filed κ)} {packed : List (Packed κ)} {isOver isOver' : Prop}
    {battleId : LuaKey} {b : Battle κ} (h : KeptAt filed packed isOver battleId b)
    (hover : isOver' → isOver) : KeptAt filed packed isOver' battleId b :=
  h.congr (fun _ _ => rfl) (fun _ _ => rfl) rfl (fun _ => rfl) hover

/-- A battle with no records at all. -/
theorem KeptAt.fresh {filed : List (Filed κ)} {packed : List (Packed κ)} {isOver : Prop}
    {battleId : LuaKey} {b : Battle κ} (hfiled : ∀ c ∈ filed, c.battleId ≠ battleId)
    (hpacked : ∀ p ∈ packed, p.battleId ≠ battleId) (hslot : ∀ uid, slot b uid = none) :
    KeptAt filed packed isOver battleId b := by
  refine ⟨fun frame uid _ => ?_, fun frame uid _ => ?_, fun uid => ?_, fun frame uid _ => ?_,
    fun _ uid => ?_⟩
  · rw [packedAt_eq_nil_of_unknown hpacked, filedAt_eq_nil_of_unknown hfiled]
    rfl
  · exact packedAt_eq_nil_of_unknown hpacked frame uid
  · rw [hslot, filedAt_eq_nil_of_unknown hfiled]
    rfl
  all_goals exact filedAt_eq_nil_of_unknown hfiled _ uid

theorem over_of_starters {battleId : LuaKey} {b b' : Battle κ} (hplays : b'.plays = b.plays)
    (hstarters : ∀ c ∈ t.starters, c.stage = .ended → c.battleId = battleId →
      c ∈ s.starters ∨ b.plays = false) : t.Over battleId b' → s.Over battleId b := by
  rintro (hover | ⟨c, hc, hended, hid⟩)
  · exact Or.inl (hplays ▸ hover)
  · rcases hstarters c hc hended hid with hc | hover
    · exact Or.inr ⟨c, hc, hended, hid⟩
    · exact Or.inl hover

/-- The commands of the current frame, in the battle's entry. -/
theorem Slots.slot_eq (hslots : s.Slots) {battleId : LuaKey} {b : Battle κ}
    (hb : s.battleRef.get battleId = some b) (h : KeptAt s.filed s.packed (s.Over battleId b)
      battleId b) (uid : LuaKey) :
    (slot b uid).toList = batch (filedAt s.filed battleId b.curFrame uid) := by
  rw [← h.pending uid]
  cases hslot : slot b uid with
  | none => rfl
  | some cmds =>
    obtain ⟨v, hv, hcmds⟩ := Option.bind_eq_some_iff.mp hslot
    obtain ⟨hne, -⟩ := hslots.held battleId b uid v _ cmds hb hv hcmds
    simp [batch, List.isEmpty_iff, hne]

theorem slot_join (b : Battle κ) (uid uid' : LuaKey) :
    slot (b.join uid) uid' = if uid' = uid then none else slot b uid' := by
  unfold slot Battle.join
  dsimp only
  rw [LuaTable.get_set]
  split_ifs
  · simp [newInfo]
  · rfl

theorem slot_file (b : Battle κ) (uid uid' : LuaKey) {v : PlayerInfo κ} (cmd : κ)
    (hv : b.info.get uid = some v) : (slot (b.file uid v cmd) uid').getD [] =
      (slot b uid').getD [] ++ if uid = uid' then [cmd] else [] := by
  unfold slot Battle.file
  dsimp only
  rw [LuaTable.get_set]
  by_cases huid : uid' = uid
  · subst huid
    simp [hv]
  · simp [huid, Ne.symm huid]

/-! ## One step -/

/-- A command filed in a battle whose loop is not over. -/
theorem Kept.commit (h : s.Kept) {battleId uid : LuaKey} {b : Battle κ} {v : PlayerInfo κ}
    (cmd : κ) (hb : s.battleRef.get battleId = some b) (hv : b.info.get uid = some v)
    (hnot : ¬ s.Over battleId b) :
    Kept { s with
      battleRef := s.battleRef.set battleId (some (b.file uid v cmd))
      filed := s.filed ++ [⟨battleId, b.curFrame, uid, cmd⟩] } := by
  intro id x hx
  rcases LuaTable.get_set_cases hx with ⟨rfl, rfl⟩ | ⟨hid, hx⟩
  · have hold := h id b hb
    refine ⟨fun frame uid' hlt => ?_, fun frame uid' hle => hold.ahead frame uid' hle,
      fun uid' => ?_, fun frame uid' hlt => ?_, fun hover => absurd hover hnot⟩
    · change frame.toNat < b.curFrame.toNat at hlt
      have hframe : b.curFrame ≠ frame := by
        rintro rfl
        exact lt_irrefl _ hlt
      rw [filedAt_append, filedAt_singleton, if_neg (fun hall => hframe hall.2.1), List.append_nil]
      exact hold.played frame uid' hlt
    · change _ = filedAt (s.filed ++ _) id b.curFrame uid'
      rw [filedAt_append, filedAt_singleton, slot_file b uid uid' cmd hv, hold.pending uid']
      simp
    · change b.curFrame.toNat < frame.toNat at hlt
      have hframe : b.curFrame ≠ frame := by
        rintro rfl
        exact lt_irrefl _ hlt
      rw [filedAt_append, filedAt_singleton, if_neg (fun hall => hframe hall.2.1), List.append_nil]
      exact hold.later frame uid' hlt
  · refine (h id x hx).congr (fun frame uid' => ?_) (fun _ _ => rfl) rfl (fun _ => rfl)
      fun hover => hover
    rw [filedAt_append, filedAt_singleton, if_neg (fun hall => hid hall.1.symm), List.append_nil]

/-- A player joins: the commands stay exactly when the player's old entry has none of the current
frame. -/
theorem Kept.join_iff (h : s.Kept) (hslots : s.Slots) {battleId : LuaKey} {b : Battle κ}
    (hb : s.battleRef.get battleId = some b) (uid : LuaKey) (starters : List Starter)
    (hstarters : ∀ c ∈ starters, c.stage = .ended → c ∈ s.starters) :
    Kept { s with
      battleRef := s.battleRef.set battleId (some (b.join uid))
      starters := starters } ↔ slot b uid = none := by
  constructor
  · intro ht
    have hpending := (ht battleId (b.join uid) (LuaTable.get_set_self ..)).pending uid
    rw [slot_join, if_pos rfl] at hpending
    have hempty : filedAt s.filed battleId b.curFrame uid = [] := hpending.symm
    have hslot := hslots.slot_eq hb (h battleId b hb) uid
    rw [hempty] at hslot
    exact Option.toList_eq_nil_iff.mp hslot
  · intro hnone id x hx
    rcases LuaTable.get_set_cases hx with ⟨rfl, rfl⟩ | ⟨-, hx⟩
    · refine (h id b hb).congr (fun _ _ => rfl) (fun _ _ => rfl) rfl (fun uid' => ?_)
        (over_of_starters rfl fun c hc hended _ => Or.inl (hstarters c hc hended))
      rw [slot_join]
      split_ifs with huid
      · rw [huid, hnone]
      · rfl
    · exact (h id x hx).of_over
        (over_of_starters rfl fun c hc hended _ => Or.inl (hstarters c hc hended))

/-- The frames up to the current one, after a pass. -/
theorem Slots.packedAt_pass (hslots : s.Slots) {battleId : LuaKey} {b : Battle κ}
    (hb : s.battleRef.get battleId = some b)
    (h : KeptAt s.filed s.packed (s.Over battleId b) battleId b) {frame : BitVec 64}
    (hle : frame.toNat ≤ b.curFrame.toNat) (uid : LuaKey) :
    packedAt (s.packed ++ sendMsg battleId b) battleId frame uid =
      batch (filedAt s.filed battleId frame uid) := by
  rw [packedAt_append, packedAt_sendMsg]
  by_cases hframe : b.curFrame = frame
  · subst hframe
    rw [if_pos ⟨rfl, rfl⟩, h.ahead b.curFrame uid le_rfl, hslots.slot_eq hb h uid, List.nil_append]
  · have hne : b.curFrame.toNat ≠ frame.toNat := fun heq => hframe (BitVec.eq_of_toNat_eq heq)
    rw [if_neg (fun hall => hframe hall.2), List.append_nil]
    exact h.played frame uid (by omega)

theorem toNat_add_one {n : BitVec 64} (h : n ≠ BitVec.allOnes 64) :
    (n + 1).toNat = n.toNat + 1 := by
  have hne : n.toNat ≠ 2 ^ 64 - 1 := by
    intro heq
    refine h (BitVec.eq_of_toNat_eq ?_)
    rw [heq, BitVec.toNat_allOnes]
  have hlt : n.toNat < 2 ^ 64 := n.isLt
  rw [BitVec.toNat_add, Nat.mod_eq_of_lt]
  · rfl
  · change n.toNat + 1 < 2 ^ 64
    omega

/-- A frame that nothing is filed for has no commands in the players' entries. -/
theorem Slots.slot_next (hslots : s.Slots) {battleId : LuaKey} {b : Battle κ}
    (hb : s.battleRef.get battleId = some b) {uid : LuaKey}
    (hempty : filedAt s.filed battleId b.next.curFrame uid = []) : slot b.next uid = none := by
  by_contra hslot
  obtain ⟨cmds, hslot⟩ := Option.ne_none_iff_exists'.mp hslot
  obtain ⟨v, hv, hcmds⟩ := Option.bind_eq_some_iff.mp hslot
  obtain ⟨hne, heq⟩ := hslots.held battleId b uid v _ cmds hb hv hcmds
  exact hne (heq.trans hempty)

/-- A battle goes on by one frame. -/
theorem KeptAt.next (hslots : s.Slots) {battleId : LuaKey} {b : Battle κ}
    (hb : s.battleRef.get battleId = some b)
    (h : KeptAt s.filed s.packed (s.Over battleId b) battleId b) (isOver : Prop)
    (hmax : b.curFrame ≠ BitVec.allOnes 64) :
    KeptAt s.filed (s.packed ++ sendMsg battleId b) isOver battleId b.next := by
  have hnext : b.next.curFrame.toNat = b.curFrame.toNat + 1 := toNat_add_one hmax
  have hempty (uid : LuaKey) : filedAt s.filed battleId b.next.curFrame uid = [] :=
    h.later _ uid (by omega)
  refine ⟨fun frame uid hlt => ?_, fun frame uid hle => ?_, fun uid => ?_, fun frame uid hlt => ?_,
    fun _ uid => hempty uid⟩
  · exact hslots.packedAt_pass hb h (by omega) uid
  · have hframe : b.curFrame ≠ frame := by
      rintro rfl
      omega
    rw [packedAt_append, packedAt_sendMsg, if_neg (fun hall => hframe hall.2), List.append_nil]
    exact h.ahead frame uid (by omega)
  · -- the slot of a frame to come holds nothing
    rw [hempty, hslots.slot_next hb (hempty uid)]
    rfl
  · exact h.later frame uid (by omega)

/-- A battle whose frame counter comes around to 0 without a command ever filed. -/
theorem KeptAt.around (hslots : s.Slots) {battleId : LuaKey} {b : Battle κ}
    (hb : s.battleRef.get battleId = some b)
    (h : KeptAt s.filed s.packed (s.Over battleId b) battleId b) (isOver : Prop)
    (hmax : b.curFrame = BitVec.allOnes 64) (hnone : ∀ c ∈ s.filed, c.battleId ≠ battleId) :
    KeptAt s.filed (s.packed ++ sendMsg battleId b) isOver battleId b.next := by
  have hempty := filedAt_eq_nil_of_unknown hnone
  have hle (frame : BitVec 64) : frame.toNat ≤ b.curFrame.toNat := by
    have : frame.toNat < 2 ^ 64 := frame.isLt
    rw [hmax, BitVec.toNat_allOnes]
    omega
  have hpacked (frame : BitVec 64) (uid : LuaKey) :
      packedAt (s.packed ++ sendMsg battleId b) battleId frame uid = [] := by
    rw [hslots.packedAt_pass hb h (hle frame) uid, hempty]
    rfl
  refine ⟨fun frame uid _ => ?_, fun frame uid _ => hpacked frame uid, fun uid => ?_,
    fun frame uid _ => hempty frame uid, fun _ uid => hempty _ uid⟩
  · rw [hpacked, hempty]
    rfl
  · rw [hempty, hslots.slot_next hb (hempty _ uid)]
    rfl

/-- What a pass packs belongs to its battle. -/
theorem battleId_of_mem_sendMsg {battleId : LuaKey} {b : Battle κ} {p : Packed κ}
    (h : p ∈ sendMsg battleId b) : p.battleId = battleId := by
  obtain ⟨e, -, he⟩ := List.mem_filterMap.mp h
  obtain ⟨cmds, -, rfl⟩ := Option.map_eq_some_iff.mp he
  rfl

/-- A pass of the loop: the commands stay exactly when the frame counter does not come around with
commands filed. -/
theorem Kept.passes_iff (h : s.Kept) (hslots : s.Slots) {i : ℕ} {c : Starter}
    (hpass : Passes s i c t) :
    t.Kept ↔ ∀ b, s.battleRef.get c.battleId = some b → b.plays = true →
      b.curFrame = BitVec.allOnes 64 → ∀ f ∈ s.filed, f.battleId ≠ c.battleId := by
  cases hpass with
  | ends timerRef timers htimers hover =>
    refine iff_of_true (fun id x hx => ?_) fun b hb hplays => ?_
    · refine (h id x hx).of_over (over_of_starters rfl fun c' hc' _ hid => ?_)
      rcases List.mem_or_eq_of_mem_set hc' with hc' | rfl
      · exact Or.inl hc'
      · exact Or.inr (hover x (hid ▸ hx))
    · exact absurd hplays (by simp [hover b hb])
  | plays timerRef timers htimers b hb hplays =>
    have hold := h c.battleId b hb
    constructor
    · intro ht b' hb' _ hmax f hf hid
      obtain rfl : b = b' := Option.some.inj (hb.symm.trans hb')
      -- after the counter has come around nothing may be packed ahead of frame 0
      have hzero : b.next.curFrame.toNat = 0 := by
        change (b.curFrame + 1).toNat = 0
        rw [hmax]
        rfl
      have hahead := (ht c.battleId b.next (LuaTable.get_set_self ..)).ahead f.frame f.uid
        (by omega)
      have hle : f.frame.toNat ≤ b.curFrame.toNat := by
        have : f.frame.toNat < 2 ^ 64 := f.frame.isLt
        rw [hmax, BitVec.toNat_allOnes]
        omega
      have hpacked := hslots.packedAt_pass hb hold hle f.uid
      have hne : filedAt s.filed c.battleId f.frame f.uid ≠ [] := by
        rw [← hid]
        exact filedAt_ne_nil_of_mem hf
      have hbatch : batch (filedAt s.filed c.battleId f.frame f.uid) = [] :=
        hpacked.symm.trans hahead
      simp [batch, List.isEmpty_iff, hne] at hbatch
    · intro hok id x hx
      rcases LuaTable.get_set_cases hx with ⟨rfl, rfl⟩ | ⟨hid, hx⟩
      · by_cases hmax : b.curFrame = BitVec.allOnes 64
        · exact hold.around hslots hb _ hmax (hok b hb hplays hmax)
        · exact hold.next hslots hb _ hmax
      · refine (h id x hx).congr (fun _ _ => rfl) (fun frame uid => ?_) rfl (fun _ => rfl)
          (over_of_starters rfl fun c' hc' _ hid' => ?_)
        · rw [packedAt_append, packedAt_sendMsg, if_neg (fun hall => hid hall.1.symm),
            List.append_nil]
        · rcases List.mem_or_eq_of_mem_set hc' with hc' | rfl
          · exact Or.inl hc'
          · exact absurd hid'.symm hid

/-- The answer to a commit. -/
theorem refused_iff {e : CenterEvent κ} {a : Answer} (hstep : s.step e = some (t, a)) :
    s.Refused e a ↔ ∀ battleId uid frame cmd b v,
      e = .commitFrameCmd (.key battleId) (.key uid) frame cmd →
      s.battleRef.get battleId = some b → b.info.get uid = some v → s.Over battleId b →
        ∃ f, frame = some f ∧
          LuaNum.lt (.ofNat 60) (LuaNum.sub (.integer b.curFrame) f) = true := by
  constructor
  · rintro hrefused battleId uid frame cmd b v rfl hb hv hover
    have ha := hrefused battleId _ frame cmd b rfl hb hover
    subst ha
    have hanswer : (s.commitFrameCmd (.key battleId) (.key uid) frame cmd).2 = .returned false :=
      congrArg Prod.snd (Option.some.inj hstep)
    simp only [commitFrameCmd, hb, hv] at hanswer
    cases frame with
    | none => simp at hanswer
    | some f =>
      refine ⟨f, rfl, ?_⟩
      by_contra hlate
      simp [hlate] at hanswer
  · rintro hlate battleId uid frame cmd b rfl hb hover
    have ha : (s.commitFrameCmd (.key battleId) uid frame cmd).2 = a :=
      congrArg Prod.snd (Option.some.inj hstep)
    rw [← ha]
    cases uid with
    | nil | nan => rfl
    | key uid =>
      cases hv : b.info.get uid with
      | none => simp [commitFrameCmd, hb, hv]
      | some v =>
        obtain ⟨f, rfl, hf⟩ := hlate battleId uid frame cmd b v rfl hb hv hover
        simp [commitFrameCmd, hb, hv, hf]

theorem committed_event {e : CenterEvent κ} {battleId uid : LuaKey} {b : Battle κ}
    {v : PlayerInfo κ} {cmd : κ} (h : s.committed e = some (battleId, uid, b, v, cmd)) :
    ∃ frame, e = .commitFrameCmd (.key battleId) (.key uid) (some frame) cmd ∧
      LuaNum.lt (.ofNat 60) (LuaNum.sub (.integer b.curFrame) frame) = false := by
  unfold committed at h
  split at h
  · obtain ⟨b', hb', h⟩ := Option.bind_eq_some_iff.mp h
    obtain ⟨v', hv', h⟩ := Option.bind_eq_some_iff.mp h
    split_ifs at h with hlate
    simp only [Option.some.injEq, Prod.mk.injEq] at h
    obtain ⟨rfl, rfl, rfl, rfl, rfl⟩ := h
    exact ⟨_, rfl, (Bool.not_eq_true _).mp hlate⟩
  · simp at h

/-- A battle set to one whose entries hold filed commands. -/
theorem Slots.set (hslots : s.Slots) {battleId : LuaKey} {b' : Battle κ}
    (hbattle : t.battleRef = s.battleRef.set battleId (some b')) (hfiled : t.filed = s.filed)
    (hpacked : ∀ p ∈ t.packed, p ∈ s.packed ∨ p.battleId = battleId)
    (hheld : ∀ uid v frame cmds, b'.info.get uid = some v → v.cmds.get frame = some cmds →
      cmds ≠ [] ∧ cmds = filedAt s.filed battleId frame uid) : t.Slots := by
  refine ⟨fun id x uid v frame cmds hx hv hcmds => ?_, fun c hc => ?_, fun p hp => ?_⟩
  · rw [hbattle] at hx
    rw [hfiled]
    rcases LuaTable.get_set_cases hx with ⟨rfl, rfl⟩ | ⟨-, hx⟩
    · exact hheld uid v frame cmds hv hcmds
    · exact hslots.held id x uid v frame cmds hx hv hcmds
  · rw [hbattle]
    rw [hfiled] at hc
    exact LuaTable.get_set_ne_none _ _ _ (hslots.filed c hc)
  · rw [hbattle]
    rcases hpacked p hp with hp | hid
    · exact LuaTable.get_set_ne_none _ _ _ (hslots.packed p hp)
    · rw [hid]
      simp

theorem Slots.commit (hslots : s.Slots) (h : s.Kept) {battleId uid : LuaKey} {b : Battle κ}
    {v : PlayerInfo κ} (cmd : κ) (hb : s.battleRef.get battleId = some b)
    (hv : b.info.get uid = some v) :
    Slots { s with
      battleRef := s.battleRef.set battleId (some (b.file uid v cmd))
      filed := s.filed ++ [⟨battleId, b.curFrame, uid, cmd⟩] } := by
  have hpending : (v.cmds.get b.curFrame).getD [] = filedAt s.filed battleId b.curFrame uid := by
    rw [← (h battleId b hb).pending uid, slot, hv]
    rfl
  refine ⟨fun id x uid' v' frame cmds hx hv' hcmds => ?_, fun c hc => ?_,
    fun p hp => LuaTable.get_set_ne_none _ _ _ (hslots.packed p hp)⟩
  · rw [filedAt_append, filedAt_singleton]
    rcases LuaTable.get_set_cases hx with ⟨rfl, rfl⟩ | ⟨hid, hx⟩
    · change (b.info.set uid _).get uid' = some v' at hv'
      rw [LuaTable.get_set] at hv'
      split_ifs at hv' with huid
      · obtain rfl := Option.some.inj hv'
        subst huid
        dsimp only at hcmds
        rw [LuaTable.get_set] at hcmds
        split_ifs at hcmds with hframe
        · obtain rfl := Option.some.inj hcmds
          rw [if_pos ⟨rfl, hframe.symm, rfl⟩, hpending, hframe]
          exact ⟨by simp, rfl⟩
        · rw [if_neg (fun hall => hframe hall.2.1.symm), List.append_nil]
          exact hslots.held id b uid' v frame cmds hb hv hcmds
      · rw [if_neg (fun hall => huid hall.2.2.symm), List.append_nil]
        exact hslots.held id b uid' v' frame cmds hb hv' hcmds
    · rw [if_neg (fun hall => hid hall.1.symm), List.append_nil]
      exact hslots.held id x uid' v' frame cmds hx hv' hcmds
  · rcases List.mem_append.mp hc with hc | hc
    · exact LuaTable.get_set_ne_none _ _ _ (hslots.filed c hc)
    · rw [List.mem_singleton.mp hc]
      simp

theorem Slots.passes (hslots : s.Slots) {i : ℕ} {c : Starter} (hpass : Passes s i c t) :
    t.Slots := by
  cases hpass with
  | ends timerRef timers htimers hover => exact ⟨hslots.held, hslots.filed, hslots.packed⟩
  | plays timerRef timers htimers b hb hplays =>
    refine hslots.set rfl rfl (fun p hp => ?_) fun uid v frame cmds hv hcmds => ?_
    · rcases List.mem_append.mp hp with hp | hp
      · exact Or.inl hp
      · exact Or.inr (battleId_of_mem_sendMsg hp)
    · exact hslots.held c.battleId b uid v frame cmds hb hv hcmds

/-- Every step keeps the records. -/
theorem Slots.step (hslots : s.Slots) (h : s.Kept) (hs : s.Untyped) {e : CenterEvent κ}
    {a : Answer} (hstep : s.step e = some (t, a)) : t.Slots := by
  cases step_cases s hs hstep with
  | quiet _ _ hcreated hjoined hcommitted hpassing hsame huntyped =>
    refine ⟨fun id b uid v frame cmds hb hv hcmds => ?_, fun c hc => ?_, fun p hp => ?_⟩
    · rw [hsame.battleRef] at hb
      rw [hsame.filed]
      exact hslots.held id b uid v frame cmds hb hv hcmds
    · rw [hsame.filed] at hc
      rw [hsame.battleRef]
      exact hslots.filed c hc
    · rw [hsame.packed] at hp
      rw [hsame.battleRef]
      exact hslots.packed p hp
  | create battleId b r hcreated hjoined hcommitted hpassing =>
    obtain ⟨-, uids, frameRate, maxTime, rfl⟩ := created_get hcreated
    refine hslots.set rfl rfl (fun p hp => Or.inl hp) fun uid v frame cmds hv hcmds => ?_
    exact absurd ((LuaTable.get_empty uid).symm.trans hv) (by simp)
  | join battleId uid b hcreated hjoined hcommitted hpassing =>
    obtain ⟨hb, -⟩ := joined_get hjoined
    refine hslots.set rfl rfl (fun p hp => Or.inl hp) fun uid' v frame cmds hv hcmds => ?_
    change (b.info.set uid (some newInfo)).get uid' = some v at hv
    rw [LuaTable.get_set] at hv
    split_ifs at hv
    · obtain rfl := Option.some.inj hv
      exact absurd ((LuaTable.get_empty frame).symm.trans hcmds) (by simp)
    · exact hslots.held battleId b uid' v frame cmds hb hv hcmds
  | commit battleId uid b v cmd hcreated hjoined hcommitted hpassing =>
    obtain ⟨hb, hv⟩ := committed_get hcommitted
    exact hslots.commit h cmd hb hv
  | refuse i c hcreated hjoined hcommitted hpassing hc hstage =>
    exact ⟨hslots.held, hslots.filed, hslots.packed⟩
  | start i c b _ hcreated hjoined hcommitted hc hstage hb htimer hpassing hpass htimerRef =>
    exact hslots.passes hpass
  | wake i c _ hcreated hjoined hcommitted hc hstage hpassing hpass htimerRef =>
    exact hslots.passes hpass

/-- What a step that files nothing, lets nobody join and runs no loop has to care about. -/
theorem careful_iff {e : CenterEvent κ} {a : Answer} (hstep : s.step e = some (t, a)) :
    s.Careful e ↔ s.Refused e a ∧
      (∀ battleId uid b, s.joined e = some (battleId, uid, b) → slot b uid = none) ∧
      (∀ i c b, s.passing e = some (i, c) → s.battleRef.get c.battleId = some b →
        b.plays = true → b.curFrame = BitVec.allOnes 64 →
          ∀ f ∈ s.filed, f.battleId ≠ c.battleId) := by
  rw [refused_iff hstep]
  constructor
  · intro h
    exact ⟨h.commit, h.join, h.pass⟩
  · rintro ⟨hcommit, hjoin, hpass⟩
    exact ⟨hcommit, hjoin, hpass⟩

/-- **One step**: no command is lost or repeated exactly when the step meets the condition. -/
theorem Kept.step_iff (h : s.Kept) (hslots : s.Slots) (hs : s.Untyped) {e : CenterEvent κ}
    {a : Answer} (hstep : s.step e = some (t, a)) : t.Kept ∧ s.Refused e a ↔ s.Careful e := by
  rw [careful_iff hstep, and_comm]
  refine and_congr_right fun hrefused => ?_
  have hjoin (hjoined : s.joined e = none) (battleId uid : LuaKey) (b : Battle κ)
      (hb : s.joined e = some (battleId, uid, b)) : slot b uid = none :=
    absurd (hjoined.symm.trans hb) (by simp)
  have hpass₀ (hpassing : s.passing e = none) (i : ℕ) (c : Starter) (b : Battle κ)
      (hc : s.passing e = some (i, c)) (_ : s.battleRef.get c.battleId = some b)
      (_ : b.plays = true) (_ : b.curFrame = BitVec.allOnes 64) :
      ∀ f ∈ s.filed, f.battleId ≠ c.battleId := absurd (hpassing.symm.trans hc) (by simp)
  have hpass₁ {i : ℕ} {c : Starter} (hpassing : s.passing e = some (i, c)) :
      (∀ j c' b, s.passing e = some (j, c') → s.battleRef.get c'.battleId = some b →
        b.plays = true → b.curFrame = BitVec.allOnes 64 →
          ∀ f ∈ s.filed, f.battleId ≠ c'.battleId) ↔
      ∀ b, s.battleRef.get c.battleId = some b → b.plays = true →
        b.curFrame = BitVec.allOnes 64 → ∀ f ∈ s.filed, f.battleId ≠ c.battleId := by
    refine ⟨fun hall b => hall i c b hpassing, fun hall j c' b hc' => ?_⟩
    obtain ⟨-, rfl⟩ := Prod.mk.inj (Option.some.inj (hpassing.symm.trans hc'))
    exact hall b
  cases step_cases s hs hstep with
  | quiet _ _ hcreated hjoined hcommitted hpassing hsame huntyped =>
    refine iff_of_true (fun id b hb => ?_) ⟨hjoin hjoined, hpass₀ hpassing⟩
    rw [hsame.battleRef] at hb
    rw [hsame.filed, hsame.packed]
    refine (h id b hb).of_over (over_of_starters rfl fun c hc _ _ => ?_)
    rw [hsame.starters] at hc
    exact Or.inl hc
  | create battleId b r hcreated hjoined hcommitted hpassing =>
    obtain ⟨hnone, uids, frameRate, maxTime, rfl⟩ := created_get hcreated
    refine iff_of_true (fun id x hx => ?_) ⟨hjoin hjoined, hpass₀ hpassing⟩
    rcases LuaTable.get_set_cases hx with ⟨rfl, rfl⟩ | ⟨-, hx⟩
    · refine .fresh (fun c hc hid => ?_) (fun p hp hid => ?_) fun uid => ?_
      · exact hslots.filed c hc (hid ▸ hnone)
      · exact hslots.packed p hp (hid ▸ hnone)
      · exact congrArg (Option.bind · _) (LuaTable.get_empty uid)
    · exact h id x hx
  | join battleId uid b hcreated hjoined hcommitted hpassing =>
    obtain ⟨hb, -⟩ := joined_get hjoined
    have hkept := h.join_iff hslots hb uid
      (if b.uids.size ≤ (b.join uid).info.size
        then s.starters ++ [⟨battleId, .forked, .ofNat 0, 0⟩] else s.starters)
      fun c hc hended => by
        split_ifs at hc
        · rcases List.mem_append.mp hc with hc | hc
          · exact hc
          · rw [List.mem_singleton.mp hc] at hended
            exact absurd hended (by simp)
        · exact hc
    refine hkept.trans ⟨fun hnone => ⟨fun battleId' uid' b' hb' => ?_, hpass₀ hpassing⟩,
      fun hall => hall.1 battleId uid b hjoined⟩
    obtain ⟨rfl, rfl, rfl⟩ : battleId = battleId' ∧ uid = uid' ∧ b = b' := by
      simpa using hjoined.symm.trans hb'
    exact hnone
  | commit battleId uid b v cmd hcreated hjoined hcommitted hpassing =>
    obtain ⟨hb, hv⟩ := committed_get hcommitted
    obtain ⟨frame, rfl, -⟩ := committed_event hcommitted
    refine iff_of_true (h.commit cmd hb hv fun hover => ?_) ⟨hjoin hjoined, hpass₀ hpassing⟩
    -- the answer is `true`, so the loop is not over
    exact absurd (hrefused battleId _ _ cmd b rfl hb hover) (by simp)
  | refuse i c hcreated hjoined hcommitted hpassing hc hstage =>
    refine iff_of_true (fun id b hb => ?_) ⟨hjoin hjoined, hpass₀ hpassing⟩
    refine (h id b hb).of_over (over_of_starters rfl fun c' hc' hended _ => ?_)
    rcases List.mem_or_eq_of_mem_set hc' with hc' | rfl
    · exact Or.inl hc'
    · exact absurd hended (by simp)
  | start i c b _ hcreated hjoined hcommitted hc hstage hb htimer hpassing hpass htimerRef =>
    rw [h.passes_iff hslots hpass, hpass₁ hpassing]
    exact ⟨fun hall => ⟨hjoin hjoined, hall⟩, fun hall => hall.2⟩
  | wake i c _ hcreated hjoined hcommitted hc hstage hpassing hpass htimerRef =>
    rw [h.passes_iff hslots hpass, hpass₁ hpassing]
    exact ⟨fun hall => ⟨hjoin hjoined, hall⟩, fun hall => hall.2⟩

end Center

/-- **The commands of a battle**: in every run whose steps meet the condition no command accepted is
lost or repeated, and in each state of such a run a step keeps this, and refuses a command that can
no longer be packed, exactly when it meets the condition. -/
theorem commands_kept_iff {κ : Type*} {s : Center κ}
    (h : (centerMachine κ).Reaches Center.Careful s) :
    s.Kept ∧ ∀ e t a, s.step e = some (t, a) → (t.Kept ∧ s.Refused e a ↔ s.Careful e) := by
  have hinv : s.Kept ∧ s.Slots ∧ s.Untyped := by
    refine h.invariant (I := fun s : Center κ => s.Kept ∧ s.Slots ∧ s.Untyped)
      ⟨fun id b hb => ?_, ⟨fun id b uid v frame cmds hb => ?_, ?_, ?_⟩,
        Center.Timed.ctor.untyped⟩ fun s e t hs hok hstep => ?_
    · exact absurd ((Center.ctor_battleRef id).symm.trans hb) (by simp)
    · exact absurd ((Center.ctor_battleRef id).symm.trans hb) (by simp)
    · intro c hc
      exact absurd hc List.not_mem_nil
    · intro p hp
      exact absurd hp List.not_mem_nil
    · obtain ⟨⟨t', a⟩, ha, rfl⟩ := Option.map_eq_some_iff.mp hstep
      obtain ⟨hkept, hslots, huntyped⟩ := hs
      exact ⟨((hkept.step_iff hslots huntyped ha).mpr hok).1, hslots.step hkept huntyped ha,
        huntyped.step _ ha⟩
  obtain ⟨hkept, hslots, huntyped⟩ := hinv
  exact ⟨hkept, fun e t a hstep => hkept.step_iff hslots huntyped hstep⟩

/-- Enough for the condition, decidably. -/
def Center.careful {κ : Type*} (s : Center κ) (e : CenterEvent κ) : Bool :=
  ((s.committed e).all fun r => !decide (s.Over r.1 r.2.2.1)) &&
    ((s.joined e).all fun r => (Center.slot r.2.2 r.2.1).isNone) &&
    ((s.passing e).all fun r => (s.battleRef.get r.2.battleId).all fun b =>
      decide (b.curFrame ≠ BitVec.allOnes 64)) &&
    match e with
    | .commitFrameCmd _ _ none _ => false
    | _ => true

theorem Center.careful_of {κ : Type*} (s : Center κ) (e : CenterEvent κ) (h : s.careful e = true) :
    s.Careful e := by
  unfold careful at h
  simp only [Bool.and_eq_true] at h
  obtain ⟨⟨⟨hcommit, hjoin⟩, hpass⟩, hframe⟩ := h
  refine ⟨?_, fun battleId uid b hb => ?_, fun i c b hc hb _ hmax => ?_⟩
  · rintro battleId uid frame cmd b v rfl hb hv hover
    cases frame with
    | none => exact absurd hframe (by simp)
    | some f =>
      refine ⟨f, rfl, ?_⟩
      by_contra hlate
      simp [committed, hb, hv, hlate, hover] at hcommit
  · rw [hb, Option.all_some] at hjoin
    exact Option.isNone_iff_eq_none.mp hjoin
  · rw [hc, Option.all_some, hb, Option.all_some] at hpass
    exact absurd hmax (of_decide_eq_true hpass)

/-- A player commits before the first frame and twice in the second. -/
theorem commands_kept_iff_two : ∃ s : Center ℕ, (centerMachine ℕ).Reaches Center.Careful s ∧
    s.packed = [⟨.index 5, 0, .index 1, [3]⟩, ⟨.index 5, 1, .index 1, [4, 2]⟩] ∧ s.Kept := by
  have h : ((centerMachine ℕ).run Center.careful .ctor
      [.createBattle (.key (.index 5)) (some (listTable [.index 7])) (some (.ofNat 16))
        (some (.ofNat 300)), .joinBattle (.key (.index 5)) (.key (.index 1)),
        .commitFrameCmd (.key (.index 5)) (.key (.index 1)) (some (.ofNat 0)) 3, .startBattle 0,
        .commitFrameCmd (.key (.index 5)) (.key (.index 1)) (some (.ofNat 1)) 4,
        .commitFrameCmd (.key (.index 5)) (.key (.index 1)) (some (.ofNat 1)) 2, .wake 0]).any
      (fun s => decide (s.packed =
        [⟨.index 5, 0, .index 1, [3]⟩, ⟨.index 5, 1, .index 1, [4, 2]⟩])) = true := by
    decide +kernel
  obtain ⟨s, hrun, hs⟩ := Option.any_eq_true _ _ |>.mp h
  have hreach := Machine.path_of_run Center.careful_of _ hrun
  exact ⟨s, hreach, of_decide_eq_true hs, (commands_kept_iff hreach).1⟩

/-- A player commits, joins again and the frame is played without the command. -/
theorem not_kept_rejoined :
    ¬ ∀ s, (centerMachine ℕ).Reaches Machine.anyStep s → s.Kept := by
  intro hall
  have h : ((centerMachine ℕ).run (fun _ _ => true) .ctor
      [.createBattle (.key (.index 5)) (some (listTable [.index 7])) (some (.ofNat 16))
        (some (.ofNat 300)), .joinBattle (.key (.index 5)) (.key (.index 1)),
        .commitFrameCmd (.key (.index 5)) (.key (.index 1)) (some (.ofNat 0)) 3,
        .joinBattle (.key (.index 5)) (.key (.index 1)), .startBattle 0]).any
      (fun s => (s.battleRef.get (.index 5)).any fun b =>
        decide (b.curFrame = 1 ∧ s.filed = [⟨.index 5, 0, .index 1, 3⟩] ∧ s.packed = [])) =
      true := by
    decide +kernel
  obtain ⟨s, hrun, hs⟩ := Option.any_eq_true _ _ |>.mp h
  obtain ⟨b, hb, hs⟩ := Option.any_eq_true _ _ |>.mp hs
  obtain ⟨hframe, hfiled, hpacked⟩ := of_decide_eq_true hs
  have hplayed := (hall s (Machine.path_of_run (fun _ _ _ => trivial) _ hrun) _ b hb).played
    0 (.index 1) (by rw [hframe]; decide)
  rw [hpacked, hfiled] at hplayed
  exact absurd hplayed (by decide)

end LuaKcp
