import LuaKcp.Battle.Loop

/-!
# Joining a battle

`joinBattle` looks the caller up in the list of players as if the list were indexed by players. It
does what it should exactly for the callers whose id is an index of the list when it is in the list,
and not otherwise (`joins_iff`); then the players who have joined are listed ones, and the count of
them says whether all have.
-/

namespace LuaKcp

/-! ## Lists as tables -/

theorem LuaKey.index_injective : Function.Injective LuaKey.index := by
  intro m n h
  simpa [LuaKey.index, LuaNumber.ofInt] using h

/-- The entries of `{u1, u2, ...}`. -/
theorem get_listFrom (i : ℕ) (us : List LuaKey) (k v : LuaKey) :
    (listFrom i us).get k = some v ↔ ∃ j, us[j]? = some v ∧ k = .index (i + j) := by
  induction us generalizing i with
  | nil => simp [listFrom]
  | cons u us ih =>
    unfold listFrom
    rw [LuaTable.get_set]
    split_ifs with hk
    · subst hk
      constructor
      · intro h
        exact ⟨0, h, rfl⟩
      · rintro ⟨j, hj, heq⟩
        have hzero : i = i + j := LuaKey.index_injective heq
        obtain rfl : j = 0 := by omega
        exact hj
    · rw [ih (i + 1)]
      constructor
      · rintro ⟨j, hj, rfl⟩
        exact ⟨j + 1, hj, by rw [Nat.add_assoc, Nat.add_comm 1 j]⟩
      · rintro ⟨j, hj, rfl⟩
        cases j with
        | zero => exact absurd rfl hk
        | succ j => exact ⟨j, hj, by rw [Nat.add_assoc, Nat.add_comm 1 j]⟩

theorem size_listFrom (i : ℕ) (us : List LuaKey) : (listFrom i us).size = us.length := by
  induction us generalizing i with
  | nil => rfl
  | cons u us ih =>
    unfold listFrom
    rw [LuaTable.size_set_some_of_none, ih (i + 1), List.length_cons]
    -- the index `i` is before those of the rest
    refine Option.eq_none_iff_forall_ne_some.mpr fun v hv => ?_
    obtain ⟨j, -, heq⟩ := (get_listFrom (i + 1) us _ v).mp hv
    have := LuaKey.index_injective heq
    omega

theorem size_listTable (us : List LuaKey) : (listTable us).size = us.length := size_listFrom 1 us

theorem exists_get_listTable (us : List LuaKey) (v : LuaKey) :
    (∃ k, (listTable us).get k = some v) ↔ v ∈ us := by
  constructor
  · rintro ⟨k, hk⟩
    obtain ⟨j, hj, -⟩ := (get_listFrom 1 us k v).mp hk
    exact List.mem_of_getElem? hj
  · intro hv
    obtain ⟨j, hj⟩ := List.mem_iff_getElem?.mp hv
    exact ⟨_, (get_listFrom 1 us _ v).mpr ⟨j, hj, rfl⟩⟩

/-- **Counting distinct players**: when only listed players are present, the table has as many
entries as the list exactly when all of them are present. -/
theorem length_le_size_iff {υ : Type*} {us : List LuaKey} (hnodup : us.Nodup)
    {T : LuaTable LuaKey υ} (hsub : ∀ v, T.get v ≠ none → v ∈ us) :
    us.length ≤ T.size ↔ ∀ v ∈ us, T.get v ≠ none := by
  have hkeys : ∀ v ∈ T.keys, v ∈ us := fun v hv => hsub v ((LuaTable.mem_keys_iff T v).mp hv)
  constructor
  · intro hle v hv
    have hperm : T.keys.Perm us := (T.keys_nodup.subperm hkeys).perm_of_length_le hle
    exact (LuaTable.mem_keys_iff T v).mp (hperm.mem_iff.mpr hv)
  · intro hall
    exact (hnodup.subperm fun v hv => (LuaTable.mem_keys_iff T v).mpr (hall v hv)).length_le

/-! ## Calls of `joinBattle` -/

/-- The player is in the list of the battle. -/
def Battle.Lists {κ : Type*} (b : Battle κ) (uid : LuaKey) : Prop := ∃ k, b.uids.get k = some uid

namespace Center

variable {κ : Type*}

/-- What a call of `joinBattle` should do, for a battle with the list `us` of players: only listed
players join, a call of anybody else changes nothing, and a call of a listed player forks
`startBattle` when all listed players have joined. -/
structure JoinsRight (s : Center κ) (battleId : LuaKey) (us : List LuaKey) (uid : LuaValue) :
    Prop where
  returned : (s.joinBattle (.key battleId) uid).2 = .returned true ↔ ∃ v ∈ us, uid = .key v
  stranger : (∀ v ∈ us, uid ≠ .key v) → (s.joinBattle (.key battleId) uid).1 = s
  forks : (∃ v ∈ us, uid = .key v) →
    ((s.joinBattle (.key battleId) uid).1.starters =
        s.starters ++ [⟨battleId, .forked, .ofNat 0, 0⟩] ↔
      ∀ v ∈ us, ∃ b, (s.joinBattle (.key battleId) uid).1.battleRef.get battleId = some b ∧
        b.info.get v ≠ none)

/-- In a call of `joinBattle` for the battle, the id is an index of its list of players, with a true
value, if and only if it is in the list. -/
def ByIndex (battleId : LuaKey) (s : Center κ) (e : CenterEvent κ) : Prop :=
  ∀ uid b, e = .joinBattle (.key battleId) (.key uid) → s.battleRef.get battleId = some b →
    ((b.uids.get uid).any LuaKey.truthy = true ↔ b.Lists uid)

/-- Only listed players have joined the battle. -/
def OnlyListed (s : Center κ) (battleId : LuaKey) : Prop :=
  ∀ b, s.battleRef.get battleId = some b → ∀ uid, b.info.get uid ≠ none → b.Lists uid

variable {s t : Center κ} {battleId : LuaKey}

/-- A battle set to one with the same list and no player outside it. -/
theorem OnlyListed.set (h : s.OnlyListed battleId)
    {id : LuaKey} {b' : Battle κ} (ht : t.battleRef = s.battleRef.set id (some b'))
    (hb' : id = battleId → ∀ uid, b'.info.get uid ≠ none → b'.Lists uid) :
    t.OnlyListed battleId := by
  intro b hb uid hjoined
  rw [ht, LuaTable.get_set] at hb
  split_ifs at hb with hid
  · obtain rfl := Option.some.inj hb
    exact hb' hid.symm uid hjoined
  · exact h b hb uid hjoined

theorem OnlyListed.passes (h : s.OnlyListed battleId) {i : ℕ} {c : Starter}
    (hpass : Passes s i c t) : t.OnlyListed battleId := by
  intro b hb uid hjoined
  rcases hpass.battleRef battleId with heq | ⟨b', hb', -, -, heq⟩
  · exact h b (heq.symm.trans hb) uid hjoined
  · obtain rfl := Option.some.inj (heq.symm.trans hb)
    exact h b' hb' uid hjoined

theorem joined_event {e : CenterEvent κ} {uid : LuaKey} {b : Battle κ}
    (h : s.joined e = some (battleId, uid, b)) : e = .joinBattle (.key battleId) (.key uid) := by
  unfold joined at h
  split at h
  · obtain ⟨b', hb', h⟩ := Option.bind_eq_some_iff.mp h
    split_ifs at h
    simp only [Option.some.injEq, Prod.mk.injEq] at h
    obtain ⟨rfl, rfl, -⟩ := h
    rfl
  · simp at h

/-- A step that meets the condition lets listed players join only. -/
theorem OnlyListed.step (h : s.OnlyListed battleId) (hs : s.Untyped) {e : CenterEvent κ}
    {a : Answer} (hok : s.ByIndex battleId e) (hstep : s.step e = some (t, a)) :
    t.OnlyListed battleId := by
  cases step_cases s hs hstep with
  | quiet _ _ hcreated hjoined hcommitted hpassing hsame huntyped =>
    intro b hb
    rw [hsame.battleRef] at hb
    exact h b hb
  | create id b r hcreated hjoined hcommitted hpassing =>
    obtain ⟨-, uids, frameRate, maxTime, rfl⟩ := created_get hcreated
    refine h.set rfl fun _ uid hinfo => ?_
    exact absurd (LuaTable.get_empty uid) hinfo
  | join id uid b hcreated hjoined hcommitted hpassing =>
    obtain ⟨hb, huid⟩ := joined_get hjoined
    refine h.set rfl fun hid uid' hinfo => ?_
    subst hid
    change (b.info.set uid (some newInfo)).get uid' ≠ none at hinfo
    rw [LuaTable.get_set] at hinfo
    split_ifs at hinfo with heq
    · rw [heq]
      exact (hok uid b (joined_event hjoined) hb).mp huid
    · exact h b hb uid' hinfo
  | commit id uid b v cmd hcreated hjoined hcommitted hpassing =>
    obtain ⟨hb, hv⟩ := committed_get hcommitted
    refine h.set rfl fun hid uid' hinfo => ?_
    subst hid
    change (b.info.set uid _).get uid' ≠ none at hinfo
    rw [LuaTable.get_set] at hinfo
    split_ifs at hinfo with heq
    · rw [heq]
      exact h b hb uid (by simp [hv])
    · exact h b hb uid' hinfo
  | refuse i c hcreated hjoined hcommitted hpassing hc hstage => exact h
  | start i c b _ hcreated hjoined hcommitted hc hstage hb htimer hpassing hpass htimerRef =>
    exact h.passes hpass
  | wake i c _ hcreated hjoined hcommitted hc hstage hpassing hpass htimerRef =>
    exact h.passes hpass

/-- A call by an id that is not a key, or one that the list does not have as an index. -/
theorem joinBattle_stranger (uid : LuaKey) {b : Battle κ} (hb : s.battleRef.get battleId = some b)
    (huid : (b.uids.get uid).any LuaKey.truthy = false) :
    s.joinBattle (.key battleId) (.key uid) = (s, .returned false) := by
  simp [joinBattle, hb, huid]

theorem joinBattle_listed (uid : LuaKey) {b : Battle κ} (hb : s.battleRef.get battleId = some b)
    (huid : (b.uids.get uid).any LuaKey.truthy = true) :
    s.joinBattle (.key battleId) (.key uid) =
      ({ s with
        battleRef := s.battleRef.set battleId (some (b.join uid))
        starters := if b.uids.size ≤ (b.join uid).info.size
          then s.starters ++ [⟨battleId, .forked, .ofNat 0, 0⟩] else s.starters },
        .returned true) := by
  unfold joinBattle
  by_cases hfull : b.uids.size ≤ (b.info.set uid (some newInfo)).size
  · simp only [hb, huid, hfull, if_true, Battle.join, setBattle]
  · simp only [hb, huid, hfull, if_true, if_false, Battle.join, setBattle]

/-- A joining call forks when the list has as many players as have joined after it. -/
theorem starters_fork_iff {l : List Starter} {c : Starter} {p : Prop} [Decidable p] :
    (if p then l ++ [c] else l) = l ++ [c] ↔ p := by
  split_ifs with hp
  · exact iff_of_true rfl hp
  · exact iff_of_false (by simp) hp

/-- **One call**, in a state where only listed players have joined. -/
theorem joinsRight_iff (h : s.OnlyListed battleId) {b : Battle κ} {us : List LuaKey}
    (hb : s.battleRef.get battleId = some b) (huids : b.uids = listTable us) (hnodup : us.Nodup)
    (uid : LuaValue) :
    s.JoinsRight battleId us uid ↔ s.ByIndex battleId (.joinBattle (.key battleId) uid) := by
  have hlists (v : LuaKey) : b.Lists v ↔ v ∈ us := by
    unfold Battle.Lists
    rw [huids, exists_get_listTable]
  cases uid with
  | nil | nan =>
    refine iff_of_true ⟨?_, fun _ => rfl, ?_⟩ ?_
    · exact iff_of_false (by simp [joinBattle]) (by simp)
    · rintro ⟨v, -, hv⟩
      exact absurd hv (by simp)
    · intro uid b' he
      exact absurd he (by simp)
  | key uid =>
    have hby : s.ByIndex battleId (.joinBattle (.key battleId) (.key uid)) ↔
        ((b.uids.get uid).any LuaKey.truthy = true ↔ uid ∈ us) := by
      rw [← hlists]
      constructor
      · intro hok
        exact hok uid b rfl hb
      · intro hok uid' b' he hb'
        simp only [CenterEvent.joinBattle.injEq, LuaValue.key.injEq, true_and] at he
        obtain rfl := he
        obtain rfl : b = b' := Option.some.inj (hb.symm.trans hb')
        exact hok
    have hmem : (∃ v ∈ us, LuaValue.key uid = .key v) ↔ uid ∈ us := by simp
    rw [hby]
    by_cases huid : (b.uids.get uid).any LuaKey.truthy = true
    · have hcall := s.joinBattle_listed uid hb huid
      constructor
      · intro hright
        have hreturned := hright.returned
        rw [hcall, hmem] at hreturned
        exact iff_of_true huid (hreturned.mp rfl)
      · intro hok
        have huid' : uid ∈ us := hok.mp huid
        refine ⟨?_, fun hno => absurd rfl (hno uid huid'), fun _ => ?_⟩
        · rw [hcall, hmem]
          exact iff_of_true rfl huid'
        · have hsub : ∀ v, (b.join uid).info.get v ≠ none → v ∈ us := by
            intro v hv
            change (b.info.set uid (some newInfo)).get v ≠ none at hv
            rw [LuaTable.get_set] at hv
            split_ifs at hv with heq
            · rwa [heq]
            · exact (hlists v).mp (h b hb v hv)
          have hsize : b.uids.size ≤ (b.join uid).info.size ↔
              ∀ v ∈ us, (b.join uid).info.get v ≠ none := by
            rw [huids, size_listTable, length_le_size_iff hnodup hsub]
          rw [hcall]
          refine starters_fork_iff.trans (hsize.trans ?_)
          simp
    · have hfalse : (b.uids.get uid).any LuaKey.truthy = false := (Bool.not_eq_true _).mp huid
      have hcall := s.joinBattle_stranger uid hb hfalse
      constructor
      · intro hright
        have hreturned := hright.returned
        rw [hcall, hmem] at hreturned
        refine iff_of_false huid fun hin => ?_
        exact absurd (hreturned.mpr hin) (by simp)
      · intro hok
        have hout : uid ∉ us := fun hin => huid (hok.mpr hin)
        refine ⟨?_, fun _ => by rw [hcall], fun hin => absurd (hmem.mp hin) hout⟩
        rw [hcall, hmem]
        exact iff_of_false (by simp) hout

end Center

/-- **Joining a battle**: in every run in which the ids of the calls for a battle are indexes of its
list exactly when they are in the list, a call does what it should if and only if the same is true
of its own id. -/
theorem joins_iff {κ : Type*} {battleId : LuaKey} {s : Center κ}
    (h : (centerMachine κ).Reaches (Center.ByIndex battleId) s) {b : Battle κ} {us : List LuaKey}
    (hb : s.battleRef.get battleId = some b) (huids : b.uids = listTable us) (hnodup : us.Nodup)
    (uid : LuaValue) :
    s.JoinsRight battleId us uid ↔ s.ByIndex battleId (.joinBattle (.key battleId) uid) := by
  have hinv : s.Untyped ∧ s.OnlyListed battleId := by
    refine h.invariant (I := fun s : Center κ => s.Untyped ∧ s.OnlyListed battleId)
      ⟨Center.Timed.ctor.untyped, fun b hb => ?_⟩ fun s e t hs hok hstep => ?_
    · exact absurd ((Center.ctor_battleRef battleId).symm.trans hb) (by simp)
    · obtain ⟨⟨t', a⟩, ha, rfl⟩ := Option.map_eq_some_iff.mp hstep
      exact ⟨hs.1.step s ha, hs.2.step hs.1 hok ha⟩
  exact Center.joinsRight_iff hinv.2 hb huids hnodup uid

/-- The condition, decidably, for a battle whose list is given. -/
def Center.byIndex {κ : Type*} (battleId : LuaKey) (us : List LuaKey) (s : Center κ)
    (e : CenterEvent κ) : Bool :=
  match e with
  | .joinBattle (.key battleId') (.key uid) =>
    decide (battleId' ≠ battleId) || (s.battleRef.get battleId).all fun b =>
      decide (b.uids.entries = (listTable us).entries) &&
        ((b.uids.get uid).any LuaKey.truthy == decide (uid ∈ us))
  | _ => true

theorem Center.byIndex_of {κ : Type*} (battleId : LuaKey) (us : List LuaKey) (s : Center κ)
    (e : CenterEvent κ) (h : Center.byIndex battleId us s e = true) : s.ByIndex battleId e := by
  rintro uid b rfl hb
  simp only [byIndex, ne_eq, decide_not, decide_true, Bool.not_true, Bool.false_or, hb,
    Option.all_some, Bool.and_eq_true, decide_eq_true_eq, beq_iff_eq] at h
  obtain ⟨huids, hiff⟩ := h
  unfold Battle.Lists
  rw [hiff, decide_eq_true_eq, AList.ext huids, exists_get_listTable]

/-- Players 2 and 1, in this order, whose ids are the indexes of the list. -/
theorem joins_iff_small : ∃ s : Center ℕ,
    (centerMachine ℕ).Reaches (Center.ByIndex (.index 5)) s ∧
      s.JoinsRight (.index 5) [.index 2, .index 1] (.key (.index 1)) ∧
      (s.joinBattle (.key (.index 5)) (.key (.index 1))).1.starters.length = 1 := by
  have h : ((centerMachine ℕ).run (Center.byIndex (.index 5) [.index 2, .index 1]) .ctor
      [.createBattle (.key (.index 5)) (some (listTable [.index 2, .index 1])) (some (.ofNat 16))
        (some (.ofNat 300)), .joinBattle (.key (.index 5)) (.key (.index 9)),
        .joinBattle (.key (.index 5)) (.key (.index 2))]).any
      (fun s => ((s.battleRef.get (.index 5)).any fun b =>
          decide (b.uids.entries = (listTable [.index 2, .index 1]).entries)) &&
        s.byIndex (.index 5) [.index 2, .index 1] (.joinBattle (.key (.index 5)) (.key (.index 1)))
        && decide ((s.joinBattle (.key (.index 5)) (.key (.index 1))).1.starters.length = 1))
      = true := by
    decide +kernel
  obtain ⟨s, hrun, hs⟩ := Option.any_eq_true _ _ |>.mp h
  simp only [Bool.and_eq_true] at hs
  obtain ⟨⟨hbattle, hby⟩, hfork⟩ := hs
  obtain ⟨b, hb, huids⟩ := Option.any_eq_true _ _ |>.mp hbattle
  have hreach := Machine.path_of_run (Center.byIndex_of _ _) _ hrun
  refine ⟨s, hreach, ?_, of_decide_eq_true hfork⟩
  exact (joins_iff hreach hb (AList.ext (of_decide_eq_true huids)) (by decide) _).mpr
    (Center.byIndex_of _ _ s _ hby)

/-- Player 101 of the list `{101, 102}` is refused. -/
theorem not_joins_listed :
    ¬ ∀ (s : Center ℕ) battleId b us uid, (centerMachine ℕ).Reaches Machine.anyStep s →
      s.battleRef.get battleId = some b → b.uids = listTable us → us.Nodup →
        s.JoinsRight battleId us uid := by
  intro hall
  have h : ((centerMachine ℕ).run (fun _ _ => true) .ctor
      [.createBattle (.key (.index 300011)) (some (listTable [.index 101, .index 102]))
        (some (.ofNat 16)) (some (.ofNat 300))]).any
      (fun s => ((s.battleRef.get (.index 300011)).any fun b =>
          decide (b.uids.entries = (listTable [.index 101, .index 102]).entries)) &&
        decide ((s.joinBattle (.key (.index 300011)) (.key (.index 101))).2 = .returned false))
      = true := by
    decide +kernel
  obtain ⟨s, hrun, hs⟩ := Option.any_eq_true _ _ |>.mp h
  obtain ⟨hbattle, hrefused⟩ := (Bool.and_eq_true _ _).mp hs
  obtain ⟨b, hb, huids⟩ := Option.any_eq_true _ _ |>.mp hbattle
  have hright := hall s _ b _ (.key (.index 101))
    (Machine.path_of_run (fun _ _ _ => trivial) _ hrun) hb (AList.ext (of_decide_eq_true huids))
    (by decide)
  have hreturned := hright.returned.mpr ⟨_, List.mem_cons_self, rfl⟩
  rw [of_decide_eq_true hrefused] at hreturned
  exact absurd hreturned (by simp)

end LuaKcp
