import LuaKcp.Battle.Center

/-!
# What a step of the centre changes

A step creates a battle, lets a player join, files a command, runs a coroutine of `startBattle` to
its next switch, or changes nothing but a timer (`step_cases`). The data of every cancel timer lacks
its type, because `eBattleStatus` has no field `eCancelBattle`, so that the callback never gets past
its first test.
-/

namespace LuaKcp

namespace Battle

variable {κ : Type*} (b : Battle κ)

/-- The loop has not reached one of its two breaks: the next pass plays a frame. -/
def plays : Bool := !(LuaNum.le b.maxFrame (.integer b.curFrame)) && !b.isEnd

/-- The battle after a player has joined. -/
def join (uid : LuaKey) : Battle κ := { b with info := b.info.set uid (some Center.newInfo) }

/-- The battle after a command has been filed. -/
def file (uid : LuaKey) (v : PlayerInfo κ) (cmd : κ) : Battle κ :=
  let cmds := (v.cmds.get b.curFrame).getD [] ++ [cmd]
  { b with info := b.info.set uid (some { v with cmds := v.cmds.set b.curFrame (some cmds) }) }

/-- The battle after a frame has been played. -/
def next : Battle κ := { b with curFrame := b.curFrame + 1 }

end Battle

/-- The coroutine is past its timer check. -/
def Starter.passed (c : Starter) : Prop := c.stage = .sleeping ∨ c.stage = .ended

instance (c : Starter) : Decidable c.passed := inferInstanceAs (Decidable (_ ∨ _))

namespace Center

variable {κ : Type*} (s : Center κ)

/-! ## What an event does -/

/-- The battle that a step creates. -/
def created : CenterEvent κ → Option (LuaKey × Battle κ)
  | .createBattle battleId uids frameRate maxTime =>
    match legalParams battleId uids frameRate maxTime, battleId with
    | some (uids, frameRate, maxTime), .key battleId =>
      if s.battleRef.get battleId = none then some (battleId, newBattle uids frameRate maxTime)
      else none
    | _, _ => none
  | _ => none

/-- The battle that a step lets a player join. -/
def joined : CenterEvent κ → Option (LuaKey × LuaKey × Battle κ)
  | .joinBattle (.key battleId) (.key uid) =>
    (s.battleRef.get battleId).bind fun b =>
      if (b.uids.get uid).any LuaKey.truthy then some (battleId, uid, b) else none
  | _ => none

/-- The battle and the player's entry that a step files a command in. -/
def committed : CenterEvent κ → Option (LuaKey × LuaKey × Battle κ × PlayerInfo κ × κ)
  | .commitFrameCmd (.key battleId) (.key uid) (some frame) cmd =>
    (s.battleRef.get battleId).bind fun b =>
      (b.info.get uid).bind fun v =>
        if LuaNum.lt (.ofNat 60) (LuaNum.sub (.integer b.curFrame) frame) then none
        else some (battleId, uid, b, v, cmd)
  | _ => none

/-- The coroutine that a step runs a pass of, as it enters the loop. -/
def passing : CenterEvent κ → Option (ℕ × Starter)
  | .startBattle i =>
    (s.starters[i]?).bind fun c =>
      match s.battleRef.get c.battleId, s.timerRef.get c.battleId with
      | some b, some _ =>
        if c.stage = .forked then some (i, { c with tick := tickOf b.frameRate }) else none
      | _, _ => none
  | .wake i => (s.starters[i]?).bind fun c => if c.stage = .sleeping then some (i, c) else none
  | _ => none

/-! ## All steps -/

/-- What a step that none of the above happens in leaves alone. -/
structure Same (s t : Center κ) : Prop where
  timerRef : t.timerRef = s.timerRef
  battleRef : t.battleRef = s.battleRef
  starters : t.starters = s.starters
  filed : t.filed = s.filed
  packed : t.packed = s.packed

theorem Same.refl (s : Center κ) : Same s s := ⟨rfl, rfl, rfl, rfl, rfl⟩

/-- No timer has a type. -/
def Untyped (s : Center κ) : Prop := ∀ timer ∈ s.timers, timer.timerType = none

theorem untyped_stopTimer (h : s.Untyped) (t : ℕ) : (s.stopTimer t).Untyped := by
  intro timer htimer
  obtain ⟨i, hi⟩ := List.mem_iff_getElem?.mp htimer
  change (s.timers.modify t _)[i]? = some timer at hi
  rw [List.getElem?_modify] at hi
  obtain ⟨old, hold, rfl⟩ := Option.map_eq_some_iff.mp hi
  have := h old (List.mem_of_getElem? hold)
  split_ifs
  · exact this
  · exact this

/-- What a pass of the loop does. -/
inductive Passes (s : Center κ) (i : ℕ) (c : Starter) : Center κ → Prop
  | ends (timerRef : LuaTable LuaKey ℕ) (timers : List Timer)
      (htimers : ∀ timer ∈ timers, timer.timerType = none)
      (hover : ∀ b, s.battleRef.get c.battleId = some b → b.plays = false) :
      Passes s i c { s with
        timerRef := timerRef
        timers := timers
        starters := s.starters.set i { c with stage := .ended } }
  | plays (timerRef : LuaTable LuaKey ℕ) (timers : List Timer)
      (htimers : ∀ timer ∈ timers, timer.timerType = none) (b : Battle κ)
      (hb : s.battleRef.get c.battleId = some b) (hplays : b.plays = true) :
      Passes s i c { s with
        timerRef := timerRef
        timers := timers
        battleRef := s.battleRef.set c.battleId (some b.next)
        packed := s.packed ++ sendMsg c.battleId b
        starters := s.starters.set i { c with
          stage := if canSleep c.tick then .sleeping else .ended
          rounds := c.rounds + 1 } }

theorem pass_of_over {battleId : LuaKey} (tick : LuaNum)
    (h : ∀ b, s.battleRef.get battleId = some b → b.plays = false) :
    s.pass battleId tick = (s, .ended, false) := by
  unfold pass
  cases hb : s.battleRef.get battleId with
  | none => rfl
  | some b =>
    have hover := h b hb
    dsimp only
    by_cases hmax : LuaNum.le b.maxFrame (.integer b.curFrame) = true
    · rw [if_pos hmax]
    · have hend : b.isEnd = true := by simpa [Battle.plays, hmax] using hover
      rw [if_neg hmax, if_pos hend]

theorem pass_of_plays {battleId : LuaKey} (tick : LuaNum) {b : Battle κ}
    (hb : s.battleRef.get battleId = some b) (h : b.plays = true) :
    s.pass battleId tick = ({ s with
        packed := s.packed ++ sendMsg battleId b
        battleRef := s.battleRef.set battleId (some b.next) },
      if canSleep tick then .sleeping else .ended, true) := by
  have hplays := h
  rw [Battle.plays, Bool.and_eq_true, Bool.not_eq_true', Bool.not_eq_true'] at hplays
  unfold pass
  rw [hb]
  dsimp only
  rw [if_neg (by simp [hplays.1]), if_neg (by simp [hplays.2])]
  rfl

theorem Passes.untyped {i : ℕ} {c : Starter} {t : Center κ} (h : Passes s i c t) : t.Untyped := by
  cases h with
  | ends timerRef timers htimers => exact htimers
  | plays timerRef timers htimers => exact htimers

theorem passes_runPass (i : ℕ) (c : Starter) (timerRef : LuaTable LuaKey ℕ) {timers : List Timer}
    (htimers : ∀ timer ∈ timers, timer.timerType = none) :
    Passes s i c (({ s with timerRef := timerRef, timers := timers } : Center κ).runPass i c) := by
  unfold runPass
  by_cases hover : ∀ b, s.battleRef.get c.battleId = some b → b.plays = false
  · rw [pass_of_over { s with timerRef := timerRef, timers := timers } c.tick hover]
    exact .ends timerRef timers htimers hover
  · obtain ⟨b, hover⟩ := not_forall.mp hover
    obtain ⟨hb, hplays⟩ := Classical.not_imp.mp hover
    have hplays : b.plays = true := (Bool.not_eq_false _).mp hplays
    rw [pass_of_plays ({ s with timerRef := timerRef, timers := timers }) c.tick hb hplays]
    exact .plays timerRef timers htimers b hb hplays

@[simp] theorem timerRef_runPass (i : ℕ) (c : Starter) :
    (s.runPass i c).timerRef = s.timerRef := by
  unfold runPass pass
  dsimp only
  split
  · rfl
  · split_ifs <;> rfl

/-- **What a step does.** -/
inductive Steps (s : Center κ) (e : CenterEvent κ) : Center κ → Answer → Prop
  | quiet (t : Center κ) (a : Answer) (hcreated : s.created e = none) (hjoined : s.joined e = none)
      (hcommitted : s.committed e = none) (hpassing : s.passing e = none) (hsame : Same s t)
      (huntyped : t.Untyped) : Steps s e t a
  | create (battleId : LuaKey) (b : Battle κ) (t : ℕ)
      (hcreated : s.created e = some (battleId, b)) (hjoined : s.joined e = none)
      (hcommitted : s.committed e = none) (hpassing : s.passing e = none) :
      Steps s e { s with
        timers := s.timers ++ [⟨battleId, none, true⟩]
        timerRef := s.timerRef.set battleId (some t)
        battleRef := s.battleRef.set battleId (some b) } (.returned true)
  | join (battleId uid : LuaKey) (b : Battle κ) (hcreated : s.created e = none)
      (hjoined : s.joined e = some (battleId, uid, b)) (hcommitted : s.committed e = none)
      (hpassing : s.passing e = none) :
      Steps s e { s with
        battleRef := s.battleRef.set battleId (some (b.join uid))
        starters := if b.uids.size ≤ (b.join uid).info.size
          then s.starters ++ [⟨battleId, .forked, .ofNat 0, 0⟩] else s.starters } (.returned true)
  | commit (battleId uid : LuaKey) (b : Battle κ) (v : PlayerInfo κ) (cmd : κ)
      (hcreated : s.created e = none) (hjoined : s.joined e = none)
      (hcommitted : s.committed e = some (battleId, uid, b, v, cmd))
      (hpassing : s.passing e = none) :
      Steps s e { s with
        battleRef := s.battleRef.set battleId (some (b.file uid v cmd))
        filed := s.filed ++ [⟨battleId, b.curFrame, uid, cmd⟩] } (.returned true)
  | refuse (i : ℕ) (c : Starter) (hcreated : s.created e = none) (hjoined : s.joined e = none)
      (hcommitted : s.committed e = none) (hpassing : s.passing e = none)
      (hc : s.starters[i]? = some c) (hstage : c.stage = .forked) :
      Steps s e { s with starters := s.starters.set i { c with stage := .refused } }
        (.returned false)
  | start (i : ℕ) (c : Starter) (b : Battle κ) (t : Center κ) (hcreated : s.created e = none)
      (hjoined : s.joined e = none) (hcommitted : s.committed e = none)
      (hc : s.starters[i]? = some c) (hstage : c.stage = .forked)
      (hb : s.battleRef.get c.battleId = some b) (htimer : s.timerRef.get c.battleId ≠ none)
      (hpassing : s.passing e = some (i, { c with tick := tickOf b.frameRate }))
      (hpass : Passes s i { c with tick := tickOf b.frameRate } t)
      (htimerRef : t.timerRef = s.timerRef.set c.battleId none) : Steps s e t (.returned true)
  | wake (i : ℕ) (c : Starter) (t : Center κ) (hcreated : s.created e = none)
      (hjoined : s.joined e = none) (hcommitted : s.committed e = none)
      (hc : s.starters[i]? = some c) (hstage : c.stage = .sleeping)
      (hpassing : s.passing e = some (i, c)) (hpass : Passes s i c t)
      (htimerRef : t.timerRef = s.timerRef) : Steps s e t (.returned true)

theorem createBattle_cases (hs : s.Untyped) (battleId : LuaValue)
    (uids : Option (LuaTable LuaKey LuaKey)) (frameRate maxTime : Option LuaNum) :
    Steps s (.createBattle battleId uids frameRate maxTime)
      (s.createBattle battleId uids frameRate maxTime).1
      (s.createBattle battleId uids frameRate maxTime).2 := by
  unfold createBattle
  cases hlegal : legalParams battleId uids frameRate maxTime with
  | none => exact .quiet s _ (by simp [created, hlegal]) rfl rfl rfl (.refl s) hs
  | some p =>
    obtain ⟨uids', frameRate', maxTime'⟩ := p
    cases battleId with
    | nil | nan => exact .quiet s _ (by simp [created, hlegal]) rfl rfl rfl (.refl s) hs
    | key battleId =>
      dsimp only
      split_ifs with hnone
      · exact .quiet s _ (by simp [created, hlegal, hnone]) rfl rfl rfl (.refl s) hs
      · rw [not_not] at hnone
        exact .create battleId (newBattle uids' frameRate' maxTime') _
          (by simp [created, hlegal, hnone]) rfl rfl rfl

theorem joinBattle_cases (hs : s.Untyped) (battleId uid : LuaValue) :
    Steps s (.joinBattle battleId uid) (s.joinBattle battleId uid).1
      (s.joinBattle battleId uid).2 := by
  cases battleId with
  | nil | nan => exact .quiet s _ rfl rfl rfl rfl (.refl s) hs
  | key battleId =>
    cases uid with
    | nil | nan => exact .quiet s _ rfl rfl rfl rfl (.refl s) hs
    | key uid =>
      unfold joinBattle
      dsimp only
      cases hb : s.battleRef.get battleId with
      | none => exact .quiet s _ rfl (by simp [joined, hb]) rfl rfl (.refl s) hs
      | some b =>
        dsimp only
        split_ifs with huid hfull
        · have := Steps.join (s := s) (e := .joinBattle (.key battleId) (.key uid)) battleId uid b
            rfl (by simp [joined, hb, huid]) rfl rfl
          rwa [if_pos (show b.uids.size ≤ (b.join uid).info.size from hfull)] at this
        · have := Steps.join (s := s) (e := .joinBattle (.key battleId) (.key uid)) battleId uid b
            rfl (by simp [joined, hb, huid]) rfl rfl
          rwa [if_neg (show ¬ b.uids.size ≤ (b.join uid).info.size from hfull)] at this
        · exact .quiet s _ rfl (by simp [joined, hb, huid]) rfl rfl (.refl s) hs

theorem commitFrameCmd_cases (hs : s.Untyped) (battleId uid : LuaValue) (frame : Option LuaNum)
    (cmd : κ) :
    Steps s (.commitFrameCmd battleId uid frame cmd) (s.commitFrameCmd battleId uid frame cmd).1
      (s.commitFrameCmd battleId uid frame cmd).2 := by
  cases battleId with
  | nil | nan => exact .quiet s _ rfl rfl rfl rfl (.refl s) hs
  | key battleId =>
    cases uid with
    | nil | nan => exact .quiet s _ rfl rfl rfl rfl (.refl s) hs
    | key uid =>
      unfold commitFrameCmd
      dsimp only
      cases hb : s.battleRef.get battleId with
      | none =>
        refine .quiet s _ rfl rfl ?_ rfl (.refl s) hs
        cases frame <;> simp [committed, hb]
      | some b =>
        dsimp only
        cases hv : b.info.get uid with
        | none =>
          refine .quiet s _ rfl rfl ?_ rfl (.refl s) hs
          cases frame <;> simp [committed, hb, hv]
        | some v =>
          cases frame with
          | none => exact .quiet s _ rfl rfl rfl rfl (.refl s) hs
          | some frame =>
            dsimp only
            split_ifs with hlate
            · exact .quiet s _ rfl rfl (by simp [committed, hb, hv, hlate]) rfl (.refl s) hs
            · exact .commit battleId uid b v cmd rfl rfl (by simp [committed, hb, hv, hlate]) rfl

theorem startBattle_cases (hs : s.Untyped) {i : ℕ} {t : Center κ} {a : Answer}
    (h : s.startBattle i = some (t, a)) : Steps s (.startBattle i) t a := by
  obtain ⟨c, hc, h⟩ := Option.bind_eq_some_iff.mp h
  split_ifs at h with hstage
  cases hb : s.battleRef.get c.battleId with
  | none =>
    rw [hb] at h
    obtain ⟨rfl, rfl⟩ := Prod.mk.inj (Option.some.inj h)
    exact .refuse i c rfl rfl rfl (by simp [passing, hc, hb]) hc hstage
  | some b =>
    cases ht : s.timerRef.get c.battleId with
    | none =>
      rw [hb, ht] at h
      obtain ⟨rfl, rfl⟩ := Prod.mk.inj (Option.some.inj h)
      exact .refuse i c rfl rfl rfl (by simp [passing, hc, hb, ht]) hc hstage
    | some r =>
      rw [hb, ht] at h
      obtain ⟨rfl, rfl⟩ := Prod.mk.inj (Option.some.inj h)
      exact .start i c b _ rfl rfl rfl hc hstage hb (by simp [ht])
        (by simp [passing, hc, hb, ht, hstage])
        (s.passes_runPass i { c with tick := tickOf b.frameRate } _ (s.untyped_stopTimer hs r))
        (timerRef_runPass _ i _)

/-- **The steps of a centre.** -/
theorem step_cases (hs : s.Untyped) {e : CenterEvent κ} {t : Center κ} {a : Answer}
    (h : s.step e = some (t, a)) : Steps s e t a := by
  cases e with
  | createBattle battleId uids frameRate maxTime =>
    obtain ⟨rfl, rfl⟩ := Prod.mk.inj (Option.some.inj h)
    exact s.createBattle_cases hs battleId uids frameRate maxTime
  | callBack i =>
    obtain ⟨timer, htimer, h⟩ := Option.bind_eq_some_iff.mp h
    split_ifs at h with harmed
    rw [hs timer (List.mem_of_getElem? htimer)] at h
    obtain ⟨rfl, rfl⟩ := Prod.mk.inj (Option.some.inj h)
    exact .quiet _ _ rfl rfl rfl rfl ⟨rfl, rfl, rfl, rfl, rfl⟩ (s.untyped_stopTimer hs i)
  | cancelBattle battleId =>
    obtain h := Option.some.inj h
    unfold cancelBattle at h
    split_ifs at h
    all_goals
      obtain ⟨rfl, rfl⟩ := Prod.mk.inj h
      exact .quiet s _ rfl rfl rfl rfl (.refl s) hs
  | joinBattle battleId uid =>
    obtain ⟨rfl, rfl⟩ := Prod.mk.inj (Option.some.inj h)
    exact s.joinBattle_cases hs battleId uid
  | leaveBattle battleId uid =>
    obtain h := Option.some.inj h
    unfold leaveBattle at h
    split at h
    all_goals
      obtain ⟨rfl, rfl⟩ := Prod.mk.inj h
      exact .quiet s _ rfl rfl rfl rfl (.refl s) hs
  | commitFrameCmd battleId uid frame cmd =>
    obtain ⟨rfl, rfl⟩ := Prod.mk.inj (Option.some.inj h)
    exact s.commitFrameCmd_cases hs battleId uid frame cmd
  | startBattle i => exact s.startBattle_cases hs h
  | wake i =>
    obtain ⟨c, hc, h⟩ := Option.bind_eq_some_iff.mp h
    split_ifs at h with hstage
    obtain ⟨rfl, rfl⟩ := Prod.mk.inj (Option.some.inj h)
    exact .wake i c _ rfl rfl rfl hc hstage (by simp [passing, hc, hstage])
      (s.passes_runPass i c s.timerRef hs) (timerRef_runPass s i c)

/-- No step gives a timer a type. -/
theorem Untyped.step (hs : s.Untyped) {e : CenterEvent κ} {t : Center κ} {a : Answer}
    (h : s.step e = some (t, a)) : t.Untyped := by
  cases step_cases s hs h with
  | quiet _ _ hcreated hjoined hcommitted hpassing hsame huntyped => exact huntyped
  | create battleId b r hcreated hjoined hcommitted hpassing =>
    intro timer htimer
    rcases List.mem_append.mp htimer with htimer | htimer
    · exact hs timer htimer
    · rw [List.mem_singleton.mp htimer]
  | join | commit | refuse => exact hs
  | start i c b _ hcreated hjoined hcommitted hc hstage hb htimer hpassing hpass htimerRef =>
    exact hpass.untyped
  | wake i c _ hcreated hjoined hcommitted hc hstage hpassing hpass htimerRef =>
    exact hpass.untyped

end Center

end LuaKcp
