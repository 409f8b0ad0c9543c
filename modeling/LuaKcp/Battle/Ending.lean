import LuaKcp.Battle.Loop

/-!
# Cancelling and leaving a battle

`eBattleStatus` has no field `eCancelBattle`, so the callback of a cancel timer stops at its first
test and a battle that never starts stays for ever; `cancelBattle` tests its battle the wrong way
around (`cancels_iff`). `leaveBattle` reads a table that does not exist as soon as the player has
joined (`leaves_iff`).
-/

namespace LuaKcp

namespace Center

variable {κ : Type*}

/-! ## Cancelling -/

/-- The battle has been started: a coroutine of it is past the timer check. -/
def Started (s : Center κ) (battleId : LuaKey) : Prop := ∃ i c, s.Runs i c ∧ c.battleId = battleId

/-- What the callback of a cancel timer should do: remove the battle and its timer when the battle
has not been started, so that it can be created again, and nothing otherwise. -/
structure CallsBackRight (s : Center κ) (timer : Timer) : Prop where
  unstarted : ¬ s.Started timer.battleId →
    (s.onCancelBattleCallback timer.battleId timer.timerType).1.battleRef =
        s.battleRef.set timer.battleId none ∧
      (s.onCancelBattleCallback timer.battleId timer.timerType).1.timerRef =
        s.timerRef.set timer.battleId none
  again : ¬ s.Started timer.battleId → ∀ uids frameRate maxTime,
    legalParams (.key timer.battleId) uids frameRate maxTime ≠ none →
      ((s.onCancelBattleCallback timer.battleId timer.timerType).1.createBattle
        (.key timer.battleId) uids frameRate maxTime).2 = .returned true
  started : s.Started timer.battleId →
    (s.onCancelBattleCallback timer.battleId timer.timerType).1 = s

/-- What `cancelBattle` should do: remove the battle and its timer when the battle is there, and
nothing otherwise. -/
structure CancelsRight (s : Center κ) (battleId : LuaValue) : Prop where
  present : ∀ k, battleId = .key k → s.battleRef.get k ≠ none →
    (s.cancelBattle battleId).2 = .returned true ∧
      (s.cancelBattle battleId).1.battleRef = s.battleRef.set k none ∧
      (s.cancelBattle battleId).1.timerRef = s.timerRef.set k none
  absent : s.battleRef.index battleId = none → s.cancelBattle battleId = (s, .returned false)

/-- A battle without a timer has been started. -/
def Taken (s : Center κ) : Prop :=
  ∀ battleId, s.battleRef.get battleId ≠ none → s.timerRef.get battleId = none →
    s.Started battleId

variable {s t : Center κ}

/-- A battle without a timer after the step was one before it, or the step starts it. -/
theorem Taken.step (h : s.Taken) (hwf : s.Wf) {e : CenterEvent κ} {a : Answer}
    (hstep : s.step e = some (t, a)) : t.Taken := by
  have hkeep (battleId : LuaKey) (hstarted : s.Started battleId) : t.Started battleId := by
    obtain ⟨i, c, hc, rfl⟩ := hstarted
    obtain ⟨c', hc', hid⟩ := (goes_on hwf hstep).1 i c hc
    exact ⟨i, c', hc', hid⟩
  have hset {battleId : LuaKey} (hb : s.battleRef.get battleId ≠ none) (b' : Battle κ) (id : LuaKey)
      (hid : (s.battleRef.set battleId (some b')).get id ≠ none) : s.battleRef.get id ≠ none := by
    rw [LuaTable.get_set] at hid
    split_ifs at hid with heq
    · rwa [heq]
    · exact hid
  intro battleId hb ht
  cases step_cases s hwf.timed.untyped hstep with
  | quiet _ _ hcreated hjoined hcommitted hpassing hsame huntyped =>
    rw [hsame.battleRef] at hb
    rw [hsame.timerRef] at ht
    exact hkeep battleId (h battleId hb ht)
  | create id b r hcreated hjoined hcommitted hpassing =>
    by_cases hid : battleId = id
    · subst hid
      exact absurd ht (by simp)
    · dsimp only at hb ht
      rw [LuaTable.get_set_of_ne _ _ hid] at hb ht
      exact hkeep battleId (h battleId hb ht)
  | join id uid b hcreated hjoined hcommitted hpassing =>
    have hold : s.battleRef.get id ≠ none := by simp [(joined_get hjoined).1]
    exact hkeep battleId (h battleId (hset hold _ battleId hb) ht)
  | commit id uid b v cmd hcreated hjoined hcommitted hpassing =>
    have hold : s.battleRef.get id ≠ none := by simp [(committed_get hcommitted).1]
    exact hkeep battleId (h battleId (hset hold _ battleId hb) ht)
  | refuse i c hcreated hjoined hcommitted hpassing hc hstage =>
    exact hkeep battleId (h battleId hb ht)
  | start i c b _ hcreated hjoined hcommitted hc hstage hbattle htimer hpassing hpass htimerRef =>
    rw [htimerRef, LuaTable.get_set] at ht
    split_ifs at ht with hid
    · obtain ⟨c₁, hid₁, hpassed₁, hstarters⟩ := hpass.starters
      exact ⟨i, c₁, (runs_of_passed hc hstarters hpassed₁ i c₁).mpr (Or.inl ⟨rfl, rfl⟩),
        hid₁.trans hid.symm⟩
    · refine hkeep battleId (h battleId ?_ ht)
      rcases hpass.battleRef battleId with heq | ⟨b', hb', -, -, -⟩
      · rwa [heq] at hb
      · simp [hb']
  | wake i c _ hcreated hjoined hcommitted hc hstage hpassing hpass htimerRef =>
    rw [htimerRef] at ht
    refine hkeep battleId (h battleId ?_ ht)
    rcases hpass.battleRef battleId with heq | ⟨b', hb', -, -, -⟩
    · rwa [heq] at hb
    · simp [hb']

/-- A callback without a timer type changes nothing. -/
theorem callsBackRight_iff {timer : Timer} (htype : timer.timerType = none)
    (hbattle : s.battleRef.get timer.battleId ≠ none) :
    s.CallsBackRight timer ↔ s.Started timer.battleId := by
  have hcall : s.onCancelBattleCallback timer.battleId timer.timerType = (s, .returned true) := by
    rw [htype]
    rfl
  constructor
  · intro hright
    by_contra hstarted
    have hgone := (hright.unstarted hstarted).1
    rw [hcall] at hgone
    apply hbattle
    change s.battleRef = _ at hgone
    rw [hgone, LuaTable.get_set_self]
  · intro hstarted
    refine ⟨fun hnot => absurd hstarted hnot, fun hnot => absurd hstarted hnot, fun _ => ?_⟩
    rw [hcall]

/-- `cancelBattle` refuses a battle that is there and raises for one that is not. -/
theorem not_cancelsRight (s : Center κ) (battleId : LuaValue) : ¬ s.CancelsRight battleId := by
  intro hright
  cases hindex : s.battleRef.index battleId with
  | none =>
    have hcall := hright.absent hindex
    simp [cancelBattle, hindex] at hcall
  | some b =>
    cases battleId with
    | nil | nan => exact absurd hindex (by simp [LuaTable.index])
    | key k =>
      have hcall := (hright.present k rfl (by
        change s.battleRef.get k = some b at hindex
        simp [hindex])).1
      simp [cancelBattle, hindex] at hcall

/-! ## Leaving -/

/-- What `leaveBattle` should do: the first leave of a joined player marks the player, and ends the
battle when all joined players have left, and a second one is refused. -/
structure LeavesRight (s : Center κ) (battleId uid : LuaValue) : Prop where
  raises : (s.leaveBattle battleId uid).2 ≠ .raised
  first : ∀ k u b v, battleId = .key k → uid = .key u → s.battleRef.get k = some b →
    b.info.get u = some v → v.isExit = false →
      (s.leaveBattle battleId uid).2 = .returned true ∧
      ∃ b' v', (s.leaveBattle battleId uid).1.battleRef.get k = some b' ∧
        b'.info.get u = some v' ∧ v'.isExit = true ∧
        (∀ u', u' ≠ u → b'.info.get u' = b.info.get u') ∧
        (b'.isEnd = true ↔ ∀ u' v'', b'.info.get u' = some v'' → v''.isExit = true)
  second : ∀ k u b v, battleId = .key k → uid = .key u → s.battleRef.get k = some b →
    b.info.get u = some v → v.isExit = true →
      (s.leaveBattle battleId uid).2 = .returned false

/-- The player has joined the battle. -/
def HasJoined (s : Center κ) (battleId uid : LuaValue) : Prop :=
  ((s.battleRef.index battleId).bind fun b => b.info.index uid) ≠ none

instance (s : Center κ) (battleId uid : LuaValue) : Decidable (s.HasJoined battleId uid) :=
  decidable_of_iff (((s.battleRef.index battleId).bind fun b => b.info.index uid).isSome = true)
    Option.isSome_iff_ne_none

theorem hasJoined_of_get {k u : LuaKey} {b : Battle κ} {v : PlayerInfo κ}
    (hb : s.battleRef.get k = some b) (hv : b.info.get u = some v) :
    s.HasJoined (.key k) (.key u) := by
  simp [HasJoined, LuaTable.index, hb, hv]

theorem leavesRight_iff (s : Center κ) (battleId uid : LuaValue) :
    s.LeavesRight battleId uid ↔ ¬ s.HasJoined battleId uid := by
  constructor
  · rintro hright hjoined
    obtain ⟨v, hv⟩ := Option.ne_none_iff_exists'.mp hjoined
    refine hright.raises ?_
    simp [leaveBattle, hv]
  · intro hnot
    refine ⟨?_, ?_, ?_⟩
    · simp [leaveBattle, not_not.mp hnot]
    · rintro k u b v rfl rfl hb hv
      exact absurd (hasJoined_of_get hb hv) hnot
    · rintro k u b v rfl rfl hb hv
      exact absurd (hasJoined_of_get hb hv) hnot

/-- A coroutine whose battle has ended makes no further pass. -/
def StopsAtEnd (s : Center κ) : Prop :=
  ∀ i c b, s.starters[i]? = some c → c.stage = .sleeping → s.battleRef.get c.battleId = some b →
    b.isEnd = true →
      s.wake i = some ({ s with starters := s.starters.set i { c with stage := .ended } },
        .returned true)

theorem stopsAtEnd (s : Center κ) : s.StopsAtEnd := by
  intro i c b hc hstage hb hend
  have hover : ∀ b', s.battleRef.get c.battleId = some b' → b'.plays = false := by
    intro b' hb'
    obtain rfl : b = b' := Option.some.inj (hb.symm.trans hb')
    simp [Battle.plays, hend]
  simp [wake, hc, hstage, runPass, pass_of_over s c.tick hover]

end Center

/-- **Cancelling a battle**: in every reachable state the callback of a cancel timer does what it
should exactly when the battle has been started, and `cancelBattle` never does. -/
theorem cancels_iff {κ : Type*} {s : Center κ} (h : (centerMachine κ).Reaches Machine.anyStep s) :
    (∀ timer ∈ s.timers, s.battleRef.get timer.battleId ≠ none →
      (s.CallsBackRight timer ↔ s.Started timer.battleId)) ∧
    (∀ battleId, s.battleRef.get battleId ≠ none →
      (s.Started battleId ↔ s.timerRef.get battleId = none)) ∧
    ∀ battleId, ¬ s.CancelsRight battleId := by
  have hinv : s.Wf ∧ s.Taken := by
    refine h.invariant (I := fun s : Center κ => s.Wf ∧ s.Taken) ⟨.ctor, fun id hb => ?_⟩
      fun s e t hs _ hstep => ?_
    · exact absurd (Center.ctor_battleRef id) hb
    · obtain ⟨⟨t', a⟩, ha, rfl⟩ := Option.map_eq_some_iff.mp hstep
      exact ⟨hs.1.step ha, hs.2.step hs.1 ha⟩
  refine ⟨fun timer htimer hbattle => ?_, fun battleId hb => ⟨?_, hinv.2 battleId hb⟩,
    Center.not_cancelsRight s⟩
  · exact Center.callsBackRight_iff (hinv.1.timed.untyped timer htimer) hbattle
  · rintro ⟨i, c, hc, rfl⟩
    exact (hinv.1.timed.runs i c hc).1

/-- The cancel timer of a battle that has been started. -/
theorem cancels_iff_started : ∃ (s : Center ℕ) (timer : Timer),
    (centerMachine ℕ).Reaches Machine.anyStep s ∧ timer ∈ s.timers ∧ s.CallsBackRight timer := by
  have h : ((centerMachine ℕ).run (fun _ _ => true) .ctor
      [.createBattle (.key (.index 5)) (some (listTable [.index 7])) (some (.ofNat 16))
        (some (.ofNat 300)), .joinBattle (.key (.index 5)) (.key (.index 1)), .startBattle 0]).any
      (fun s => decide (⟨.index 5, none, false⟩ ∈ s.timers ∧
        s.starters[0]? = some ⟨.index 5, .sleeping, .ofNat 6, 1⟩) &&
          (s.battleRef.get (.index 5)).isSome) = true := by
    decide +kernel
  obtain ⟨s, hrun, hs⟩ := Option.any_eq_true _ _ |>.mp h
  obtain ⟨hs, hbattle⟩ := (Bool.and_eq_true _ _).mp hs
  obtain ⟨htimer, hstarter⟩ := of_decide_eq_true hs
  have hreach := Machine.path_of_run (fun _ _ _ => trivial) _ hrun
  refine ⟨s, _, hreach, htimer, ?_⟩
  exact ((cancels_iff hreach).1 _ htimer (Option.isSome_iff_ne_none.mp hbattle)).mpr
    ⟨0, _, ⟨hstarter, Or.inl rfl⟩, rfl⟩

/-- Nobody joins the battle, and its cancel timer is called back. -/
theorem not_cancels_unstarted :
    ¬ ∀ s, (centerMachine ℕ).Reaches Machine.anyStep s → ∀ timer ∈ s.timers,
      s.battleRef.get timer.battleId ≠ none → s.CallsBackRight timer := by
  intro hall
  have h : ((centerMachine ℕ).run (fun _ _ => true) .ctor
      [.createBattle (.key (.index 5)) (some (listTable [.index 7])) (some (.ofNat 16))
        (some (.ofNat 300))]).any
      (fun s => decide (⟨.index 5, none, true⟩ ∈ s.timers ∧ s.starters = []) &&
        (s.battleRef.get (.index 5)).isSome) = true := by
    decide +kernel
  obtain ⟨s, hrun, hs⟩ := Option.any_eq_true _ _ |>.mp h
  obtain ⟨hs, hbattle⟩ := (Bool.and_eq_true _ _).mp hs
  obtain ⟨htimer, hnone⟩ := of_decide_eq_true hs
  have hbattle := Option.isSome_iff_ne_none.mp hbattle
  have hright := hall s (Machine.path_of_run (fun _ _ _ => trivial) _ hrun) _ htimer hbattle
  obtain ⟨i, c, hc, -⟩ := (Center.callsBackRight_iff rfl hbattle).mp hright
  have hget := hc.1
  rw [hnone] at hget
  exact absurd hget (by simp)

/-- **Leaving a battle**: a call of `leaveBattle` does what it should exactly when the player has
not joined; a loop whose battle has ended stops. -/
theorem leaves_iff {κ : Type*} (s : Center κ) :
    (∀ battleId uid, s.LeavesRight battleId uid ↔ ¬ s.HasJoined battleId uid) ∧ s.StopsAtEnd :=
  ⟨s.leavesRight_iff, s.stopsAtEnd⟩

/-- The only player of a battle leaves. -/
theorem not_leaves_joined :
    ¬ ∀ s, (centerMachine ℕ).Reaches Machine.anyStep s → ∀ battleId uid,
      s.LeavesRight battleId uid := by
  intro hall
  have h : ((centerMachine ℕ).run (fun _ _ => true) .ctor
      [.createBattle (.key (.index 5)) (some (listTable [.index 7])) (some (.ofNat 16))
        (some (.ofNat 300)), .joinBattle (.key (.index 5)) (.key (.index 1))]).any
      (fun s => decide ((s.leaveBattle (.key (.index 5)) (.key (.index 1))).2 = .raised)) =
      true := by
    decide +kernel
  obtain ⟨s, hrun, hs⟩ := Option.any_eq_true _ _ |>.mp h
  have hright := hall s (Machine.path_of_run (fun _ _ _ => trivial) _ hrun) (.key (.index 5))
    (.key (.index 1))
  exact hright.raises (of_decide_eq_true hs)

end LuaKcp
