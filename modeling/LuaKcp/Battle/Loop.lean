import LuaKcp.Battle.Changes
import LuaKcp.Foundations.Rounding

/-!
# The loop of a battle

At most one coroutine of `startBattle` ever gets past the timer check of a battle, because the check
takes the battle's entry of `timerRef` away and nothing puts another one there. The frame counter
counts the passes of this coroutine's loop, up to the last frame, unless the milliseconds of the
battle's time wrap around to a negative number of frames or the counter itself wraps around
(`one_loop_iff`).
-/

namespace LuaKcp

/-- The value is an integer, unless it is none or infinite. -/
def LuaNum.Integral (a : LuaNum) : Prop := ∀ q, a.value = some (.fin q) → ∃ n : ℤ, q = n

theorem LuaNum.integral_ofIntegral (n : ℤ) : (LuaNum.ofIntegral n).Integral := by
  intro q hq
  unfold LuaNum.ofIntegral at hq
  split_ifs at hq
  all_goals
    obtain rfl := LuaNumber.fin.inj (Option.some.inj hq)
    exact ⟨_, rfl⟩

theorem LuaNum.integral_ceil (a : LuaNum) : a.ceil.Integral := by
  cases a with
  | integer n =>
    rintro q hq
    exact ⟨n.toInt, (LuaNumber.fin.inj (Option.some.inj hq)).symm⟩
  | float x =>
    cases x with
    | none =>
      rintro q hq
      exact absurd hq (by simp [LuaNum.ceil, LuaNum.value])
    | some v =>
      cases v with
      | fin q => exact integral_ofIntegral _
      | inf neg =>
        rintro q hq
        exact absurd hq (by simp [LuaNum.ceil, LuaNum.value])

theorem Battle.plays_iff {κ : Type*} (b : Battle κ) :
    b.plays = true ↔ LuaNum.le b.maxFrame (.integer b.curFrame) = false ∧ b.isEnd = false := by
  simp [plays]

theorem toInt_add_one {n : BitVec 64} (h : n ≠ BitVec.intMax 64) : (n + 1).toInt = n.toInt + 1 := by
  have hne : n.toInt ≠ 2 ^ 63 - 1 := by
    intro heq
    refine h (BitVec.eq_of_toInt_eq ?_)
    rw [heq]
    rfl
  have hlt : n.toInt < 2 ^ 63 := BitVec.toInt_lt
  have hle : -2 ^ 63 ≤ n.toInt := BitVec.le_toInt n
  rw [BitVec.toInt_add]
  have hone : (1 : BitVec 64).toInt = 1 := rfl
  rw [hone]
  exact Int.bmod_eq_of_le_mul_two (by omega) (by omega)

/-- A frame played is not above the last frame. -/
theorem Battle.not_lt_next {κ : Type*} {b : Battle κ} (hint : b.maxFrame.Integral)
    (hplays : b.plays = true) (hmax : b.curFrame ≠ BitVec.intMax 64) :
    LuaNum.lt b.maxFrame (.integer b.next.curFrame) = false := by
  have hle := ((b.plays_iff).mp hplays).1
  have hnext : b.next.curFrame.toInt = b.curFrame.toInt + 1 := toInt_add_one hmax
  unfold LuaNum.le LuaNum.lt at *
  cases hv : b.maxFrame.value with
  | none => rfl
  | some v =>
    cases v with
    | inf neg =>
      rw [hv] at hle
      cases neg with
      | true => simp [LuaFloat.le, LuaNum.value, LuaNumber.ofInt, LuaNumber.lt] at hle
      | false => rfl
    | fin q =>
      obtain ⟨n, rfl⟩ := hint q hv
      rw [hv] at hle
      simp only [LuaFloat.le, LuaFloat.lt, LuaNum.value, LuaNumber.ofInt, LuaNumber.lt, hnext,
        Bool.or_eq_false_iff, decide_eq_false_iff_not, LuaNumber.fin.injEq, not_lt] at hle ⊢
      obtain ⟨h₁, h₂⟩ := hle
      have h₁ : b.curFrame.toInt ≤ n := by exact_mod_cast h₁
      have h₂ : n ≠ b.curFrame.toInt := by exact_mod_cast h₂
      have : b.curFrame.toInt + 1 ≤ n := by omega
      exact_mod_cast this

/-- `maxTime*1000` wraps around to a negative number, a tick or more below zero. No time that is not
an integer does. -/
def overflows (frameRate : LuaNum) : LuaNum → Bool
  | .integer maxTime =>
    LuaNum.le ((LuaNum.integer (maxTime * 1000)).div (tickOf frameRate)) (.integer (-1))
  | .float _ => false

/-- **The last frame** of a battle with a frame rate and a time that `createBattle` allows is
negative exactly when its milliseconds wrap around so far. -/
theorem lt_maxFrameOf {frameRate maxTime : LuaNum} (hrate : frameRate.le (.ofNat 0) = false)
    (htime : maxTime.le (.ofNat 0) = false) :
    LuaNum.lt (maxFrameOf frameRate maxTime) (.ofNat 0) = overflows frameRate maxTime := by
  have hnat (k : ℕ) (hk : k ≤ 2 ^ 52) : (LuaNum.ofNat k).toFloat.NotNeg := by
    rw [toFloat_ofNat hk]
    exact LuaFloat.notNeg_fin.mpr k.cast_nonneg
  have htick : (tickOf frameRate).toFloat.NotNeg :=
    ((hnat 100 (by norm_num)).div (LuaNum.notNeg_toFloat hrate)).toFloat_floor
  have hone : (LuaNum.integer (-1)).value = some (.fin (-1)) := by decide +kernel
  unfold maxFrameOf LuaNum.div
  rw [LuaNum.lt_ceil]
  cases maxTime with
  | integer m =>
    unfold overflows LuaNum.le
    rw [hone]
    rfl
  | float x =>
    have hx : x.NotNeg := LuaNum.notNeg_toFloat htime
    exact ((hx.mul (hnat 1000 (by norm_num))).div htick).not_le (by norm_num)

namespace Center

variable {κ : Type*}

/-- Coroutine `i` of the battle `battleId` is past its timer check. -/
def Runs (s : Center κ) (i : ℕ) (c : Starter) : Prop := s.starters[i]? = some c ∧ c.passed

/-- What the timers say about the coroutines: a battle whose timer entry is there has no coroutine
past the check, and a battle without one has been created before. -/
structure Timed (s : Center κ) : Prop where
  untyped : s.Untyped
  timerRef : ∀ battleId, s.timerRef.get battleId ≠ none → s.battleRef.get battleId ≠ none
  runs : ∀ i c, s.Runs i c →
    s.timerRef.get c.battleId = none ∧ s.battleRef.get c.battleId ≠ none
  one : ∀ i j c c', s.Runs i c → s.Runs j c' → c.battleId = c'.battleId → i = j

/-- At most one coroutine of a battle is past the timer check, the frame counter counts the passes
of its loop, and it is not above the last frame. -/
structure OneLoop (s : Center κ) : Prop where
  one : ∀ i j c c', s.Runs i c → s.Runs j c' → c.battleId = c'.battleId → i = j
  running : ∀ i c b, s.Runs i c → s.battleRef.get c.battleId = some b → b.curFrame.toInt = c.rounds
  unstarted : ∀ battleId b, s.battleRef.get battleId = some b →
    (∀ i c, s.Runs i c → c.battleId ≠ battleId) → b.curFrame = 0
  bound : ∀ battleId b, s.battleRef.get battleId = some b →
    LuaNum.lt b.maxFrame (.integer b.curFrame) = false

/-- The time that a battle is created with does not wrap around to a negative number of frames, and
no frame counter wraps around. -/
structure Counts (s : Center κ) (e : CenterEvent κ) : Prop where
  created : ∀ battleId b, s.created e = some (battleId, b) →
    overflows b.frameRate b.maxTime = false
  passing : ∀ i c b, s.passing e = some (i, c) → s.battleRef.get c.battleId = some b →
    b.plays = true → b.curFrame ≠ BitVec.intMax 64

/-- What holds in every run. -/
structure Wf (s : Center κ) : Prop where
  timed : s.Timed
  unpassed : ∀ (i : ℕ) (c : Starter), s.starters[i]? = some c → ¬ c.passed → c.rounds = 0
  integral : ∀ battleId b, s.battleRef.get battleId = some b → b.maxFrame.Integral
  isEnd : ∀ battleId b, s.battleRef.get battleId = some b → b.isEnd = false

theorem ctor_runs (i : ℕ) (c : Starter) : ¬ (ctor : Center κ).Runs i c :=
  fun h => absurd h.1 (by simp [ctor])

theorem ctor_battleRef (battleId : LuaKey) : (ctor : Center κ).battleRef.get battleId = none :=
  LuaTable.get_empty battleId

theorem Timed.ctor : Timed (ctor : Center κ) := by
  refine ⟨?_, ?_, ?_, ?_⟩
  · intro timer htimer
    exact absurd htimer List.not_mem_nil
  · intro battleId h
    exact absurd (LuaTable.get_empty battleId) h
  · intro i c h
    exact absurd h (ctor_runs i c)
  · intro i j c c' h
    exact absurd h (ctor_runs i c)

theorem OneLoop.ctor : OneLoop (ctor : Center κ) := by
  refine ⟨?_, ?_, ?_, ?_⟩
  · intro i j c c' h
    exact absurd h (ctor_runs i c)
  · intro i c b h
    exact absurd h (ctor_runs i c)
  · intro battleId b h
    rw [ctor_battleRef] at h
    exact absurd h (by simp)
  · intro battleId b h
    rw [ctor_battleRef] at h
    exact absurd h (by simp)

theorem Wf.ctor : Wf (ctor : Center κ) := by
  refine ⟨.ctor, ?_, ?_, ?_⟩
  · intro i c h
    exact absurd h (by simp [Center.ctor])
  all_goals
    intro battleId b h
    rw [ctor_battleRef] at h
    exact absurd h (by simp)

/-! ## Steps that run no loop -/

variable {s t : Center κ}

theorem Timed.of_runs (h : s.Timed) (huntyped : t.Untyped) (hruns : ∀ i c, t.Runs i c ↔ s.Runs i c)
    (htimer : ∀ battleId, t.timerRef.get battleId ≠ none → t.battleRef.get battleId ≠ none)
    (hkeep : ∀ battleId, s.battleRef.get battleId ≠ none →
      t.battleRef.get battleId ≠ none ∧ t.timerRef.get battleId = s.timerRef.get battleId) :
    t.Timed := by
  refine ⟨huntyped, htimer, fun i c hc => ?_, fun i j c c' hc hc' => ?_⟩
  · obtain ⟨h₁, h₂⟩ := h.runs i c ((hruns i c).mp hc)
    obtain ⟨h₃, h₄⟩ := hkeep c.battleId h₂
    exact ⟨h₄.trans h₁, h₃⟩
  · exact h.one i j c c' ((hruns i c).mp hc) ((hruns j c').mp hc')

theorem OneLoop.of_runs (h : s.OneLoop) (hruns : ∀ i c, t.Runs i c ↔ s.Runs i c)
    (hbattle : ∀ battleId b', t.battleRef.get battleId = some b' →
      ∃ b, s.battleRef.get battleId = some b ∧ b'.curFrame = b.curFrame ∧
        b'.maxFrame = b.maxFrame) : t.OneLoop := by
  refine ⟨fun i j c c' hc hc' => ?_, fun i c b' hc hb' => ?_, fun battleId b' hb' hno => ?_,
    fun battleId b' hb' => ?_⟩
  · exact h.one i j c c' ((hruns i c).mp hc) ((hruns j c').mp hc')
  · obtain ⟨b, hb, hcur, -⟩ := hbattle c.battleId b' hb'
    rw [hcur]
    exact h.running i c b ((hruns i c).mp hc) hb
  · obtain ⟨b, hb, hcur, -⟩ := hbattle battleId b' hb'
    rw [hcur]
    exact h.unstarted battleId b hb fun i c hc => hno i c ((hruns i c).mpr hc)
  · obtain ⟨b, hb, hcur, hmax⟩ := hbattle battleId b' hb'
    rw [hcur, hmax]
    exact h.bound battleId b hb

/-- A battle changed in its players only. -/
theorem get_set_kept {battleRef : LuaTable LuaKey (Battle κ)} {battleId : LuaKey} {b b' : Battle κ}
    (hb : battleRef.get battleId = some b) (hcur : b'.curFrame = b.curFrame)
    (hmax : b'.maxFrame = b.maxFrame) (id : LuaKey) (x' : Battle κ)
    (hx : (battleRef.set battleId (some b')).get id = some x') :
    ∃ x, battleRef.get id = some x ∧ x'.curFrame = x.curFrame ∧ x'.maxFrame = x.maxFrame := by
  exact LuaTable.get_set_rel (R := fun x x' : Battle κ => x'.curFrame = x.curFrame ∧
    x'.maxFrame = x.maxFrame) (fun _ => ⟨rfl, rfl⟩) hb ⟨hcur, hmax⟩ id x' hx

theorem joined_get {e : CenterEvent κ} {battleId uid : LuaKey} {b : Battle κ}
    (h : s.joined e = some (battleId, uid, b)) :
    s.battleRef.get battleId = some b ∧ (b.uids.get uid).any LuaKey.truthy = true := by
  unfold joined at h
  split at h
  · obtain ⟨b', hb', h⟩ := Option.bind_eq_some_iff.mp h
    split_ifs at h with huid
    simp only [Option.some.injEq, Prod.mk.injEq] at h
    obtain ⟨rfl, rfl, rfl⟩ := h
    exact ⟨hb', huid⟩
  · simp at h

theorem committed_get {e : CenterEvent κ} {battleId uid : LuaKey} {b : Battle κ}
    {v : PlayerInfo κ} {cmd : κ} (h : s.committed e = some (battleId, uid, b, v, cmd)) :
    s.battleRef.get battleId = some b ∧ b.info.get uid = some v := by
  unfold committed at h
  split at h
  · obtain ⟨b', hb', h⟩ := Option.bind_eq_some_iff.mp h
    obtain ⟨v', hv', h⟩ := Option.bind_eq_some_iff.mp h
    split_ifs at h
    simp only [Option.some.injEq, Prod.mk.injEq] at h
    obtain ⟨rfl, rfl, rfl, rfl, rfl⟩ := h
    exact ⟨hb', hv'⟩
  · simp at h

theorem created_get {e : CenterEvent κ} {battleId : LuaKey} {b : Battle κ}
    (h : s.created e = some (battleId, b)) : s.battleRef.get battleId = none ∧
      ∃ uids frameRate maxTime, b = newBattle uids frameRate maxTime := by
  unfold created at h
  split at h
  · split at h
    · split_ifs at h with hnone
      simp only [Option.some.injEq, Prod.mk.injEq] at h
      obtain ⟨rfl, rfl⟩ := h
      exact ⟨hnone, _, _, _, rfl⟩
    · simp at h
  · simp at h

/-- The frame rate and the time of a battle created are those that `createBattle` allows. -/
theorem lt_maxFrame_of_created {e : CenterEvent κ} {battleId : LuaKey} {b : Battle κ}
    (h : s.created e = some (battleId, b)) :
    LuaNum.lt b.maxFrame (.integer b.curFrame) = overflows b.frameRate b.maxTime := by
  unfold created at h
  split at h
  · split at h
    · rename_i hlegal
      split_ifs at h
      simp only [Option.some.injEq, Prod.mk.injEq] at h
      obtain ⟨-, rfl⟩ := h
      unfold legalParams at hlegal
      split at hlegal
      · split_ifs at hlegal with hcheck
        simp only [Option.some.injEq, Prod.mk.injEq] at hlegal
        obtain ⟨rfl, rfl, rfl⟩ := hlegal
        simp only [Bool.or_eq_true, not_or, Bool.not_eq_true] at hcheck
        exact lt_maxFrameOf hcheck.1.1.2 hcheck.2
      · simp at hlegal
    · simp at h
  · simp at h

/-- A coroutine of the list after a fork. -/
theorem mem_fork {l : List Starter} {c₀ c : Starter} {p : Prop} [Decidable p] {i : ℕ}
    (h : (if p then l ++ [c₀] else l)[i]? = some c) : l[i]? = some c ∨ c = c₀ := by
  split_ifs at h
  · rw [List.getElem?_append] at h
    split_ifs at h
    · exact Or.inl h
    · exact Or.inr (List.mem_singleton.mp (List.mem_of_getElem? h))
  · exact Or.inl h

/-- A coroutine that is forked, or refused, is not past its check. -/
theorem runs_of_fork {c₀ : Starter} {p : Prop} [Decidable p]
    (h : t.starters = if p then s.starters ++ [c₀] else s.starters) (hc₀ : c₀.stage = .forked)
    (i : ℕ) (c : Starter) : t.Runs i c ↔ s.Runs i c := by
  unfold Runs
  rw [h]
  constructor
  · rintro ⟨hc, hpassed⟩
    rcases mem_fork hc with hc | rfl
    · exact ⟨hc, hpassed⟩
    · simp [Starter.passed, hc₀] at hpassed
  · rintro ⟨hc, hpassed⟩
    refine ⟨?_, hpassed⟩
    split_ifs
    · rw [List.getElem?_append_left (List.getElem?_eq_some_iff.mp hc).1, hc]
    · exact hc

theorem runs_of_set {t : Center κ} {i : ℕ} {c₀ c₁ : Starter} (hc₀ : s.starters[i]? = some c₀)
    (h : t.starters = s.starters.set i c₁) (h₀ : ¬ c₀.passed) (h₁ : ¬ c₁.passed) (j : ℕ)
    (c : Starter) : t.Runs j c ↔ s.Runs j c := by
  unfold Runs
  rw [h, getElem?_set_of_some hc₀]
  split_ifs with hij
  · refine iff_of_false ?_ ?_
    · rintro ⟨hc, hpassed⟩
      exact h₁ (Option.some.inj hc ▸ hpassed)
    · rintro ⟨hc, hpassed⟩
      rw [← hij, hc₀] at hc
      exact h₀ (Option.some.inj hc ▸ hpassed)
  · exact Iff.rfl

/-! ## A pass of a loop -/

/-- A coroutine that is past its check after the step, the others being as they were. -/
theorem runs_of_passed {i : ℕ} {c₀ c₁ : Starter} (hc₀ : s.starters[i]? = some c₀)
    (h : t.starters = s.starters.set i c₁) (h₁ : c₁.passed) (j : ℕ) (c : Starter) :
    t.Runs j c ↔ j = i ∧ c = c₁ ∨ j ≠ i ∧ s.Runs j c := by
  unfold Runs
  rw [h, getElem?_set_of_some hc₀]
  by_cases hij : i = j
  · subst hij
    rw [if_pos rfl, Option.some_inj]
    constructor
    · rintro ⟨rfl, -⟩
      exact Or.inl ⟨rfl, rfl⟩
    · rintro (⟨-, rfl⟩ | ⟨hne, -⟩)
      · exact ⟨rfl, h₁⟩
      · exact absurd rfl hne
  · rw [if_neg hij]
    constructor
    · exact fun hr => Or.inr ⟨Ne.symm hij, hr⟩
    · rintro (⟨rfl, -⟩ | ⟨-, hr⟩)
      · exact absurd rfl hij
      · exact hr

/-- A coroutine that has played a frame is past its check. -/
theorem passed_played (c : Starter) : ({ c with
      stage := if canSleep c.tick then .sleeping else .ended
      rounds := c.rounds + 1 } : Starter).passed := by
  dsimp only [Starter.passed]
  split_ifs
  · exact Or.inl rfl
  · exact Or.inr rfl

/-- The coroutine after its pass. -/
theorem Passes.starters {i : ℕ} {c : Starter} (h : Passes s i c t) :
    ∃ c₁, c₁.battleId = c.battleId ∧ c₁.passed ∧ t.starters = s.starters.set i c₁ := by
  cases h with
  | ends timerRef timers htimers hover => exact ⟨{ c with stage := .ended }, rfl, Or.inr rfl, rfl⟩
  | plays timerRef timers htimers b hb hplays =>
    exact ⟨{ c with
      stage := if canSleep c.tick then .sleeping else .ended
      rounds := c.rounds + 1 }, rfl, passed_played c, rfl⟩

/-- The battles after a pass: the one whose frame was played has gone on by one frame. -/
theorem Passes.battleRef {i : ℕ} {c : Starter} (h : Passes s i c t) (battleId : LuaKey) :
    t.battleRef.get battleId = s.battleRef.get battleId ∨
      ∃ b, s.battleRef.get battleId = some b ∧ b.plays = true ∧ battleId = c.battleId ∧
        t.battleRef.get battleId = some b.next := by
  cases h with
  | ends timerRef timers htimers hover => exact Or.inl rfl
  | plays timerRef timers htimers b hb hplays =>
    by_cases hid : battleId = c.battleId
    · subst hid
      exact Or.inr ⟨b, hb, hplays, rfl, LuaTable.get_set_self ..⟩
    · exact Or.inl (LuaTable.get_set_of_ne _ _ hid)

/-- The coroutine that is past its check after the step is the only one of its battle. -/
theorem one_of_passed {i : ℕ} {c₁ : Starter}
    (hone : ∀ j k c c', s.Runs j c → s.Runs k c' → c.battleId = c'.battleId → j = k)
    (hother : ∀ j c, s.Runs j c → c.battleId = c₁.battleId → j = i)
    (hruns : ∀ j c, t.Runs j c ↔ j = i ∧ c = c₁ ∨ j ≠ i ∧ s.Runs j c) (j k : ℕ) (c c' : Starter)
    (hc : t.Runs j c) (hc' : t.Runs k c') (heq : c.battleId = c'.battleId) : j = k := by
  rcases (hruns j c).mp hc with ⟨rfl, rfl⟩ | ⟨hj, hc⟩ <;>
    rcases (hruns k c').mp hc' with ⟨rfl, rfl⟩ | ⟨hk, hc'⟩
  · rfl
  · exact (hother k c' hc' heq.symm).symm
  · exact hother j c hc heq
  · exact hone j k c c' hc hc' heq

theorem Timed.passes (h : s.Timed) {i : ℕ} {c₀ c : Starter} (hc₀ : s.starters[i]? = some c₀)
    (hother : ∀ j c', s.Runs j c' → c'.battleId = c.battleId → j = i)
    (hbattle : s.battleRef.get c.battleId ≠ none) (hpass : Passes s i c t)
    (htimerRef : ∀ battleId, t.timerRef.get battleId =
      if battleId = c.battleId then none else s.timerRef.get battleId) : t.Timed := by
  obtain ⟨c₁, hid₁, hpassed₁, hstarters⟩ := hpass.starters
  have hruns := runs_of_passed hc₀ hstarters hpassed₁
  have hkeep (battleId : LuaKey) (hb : s.battleRef.get battleId ≠ none) :
      t.battleRef.get battleId ≠ none := by
    rcases hpass.battleRef battleId with heq | ⟨b, -, -, -, heq⟩
    · rwa [heq]
    · simp [heq]
  refine ⟨hpass.untyped, fun battleId ht => ?_, fun j c' hc' => ?_,
    one_of_passed h.one (hid₁ ▸ hother) hruns⟩
  · rw [htimerRef] at ht
    split_ifs at ht
    · exact absurd rfl ht
    · exact hkeep battleId (h.timerRef battleId ht)
  · rw [htimerRef]
    rcases (hruns j c').mp hc' with ⟨rfl, rfl⟩ | ⟨hne, hc'⟩
    · exact ⟨if_pos hid₁, hkeep _ (hid₁ ▸ hbattle)⟩
    · obtain ⟨h₁, h₂⟩ := h.runs j c' hc'
      exact ⟨by rw [h₁, ite_self], hkeep _ h₂⟩

/-- Coroutine `i` is past its check after the step and counts the frames of its battle; the other
battles and coroutines are as they were. -/
theorem OneLoop.of_pass (h : s.OneLoop) {i : ℕ} {c₀ : Starter} (hc₀ : s.starters[i]? = some c₀)
    (c₁ : Starter) (hid : c₁.battleId = c₀.battleId)
    (hother : ∀ j c, s.Runs j c → c.battleId = c₁.battleId → j = i) (hpassed : c₁.passed)
    (hstarters : t.starters = s.starters.set i c₁)
    (hbattle : ∀ battleId, battleId ≠ c₁.battleId →
      t.battleRef.get battleId = s.battleRef.get battleId)
    (hcount : ∀ b, t.battleRef.get c₁.battleId = some b → b.curFrame.toInt = c₁.rounds ∧
      LuaNum.lt b.maxFrame (.integer b.curFrame) = false) : t.OneLoop := by
  have hruns := runs_of_passed hc₀ hstarters hpassed
  have hself : t.Runs i c₁ := (hruns i c₁).mpr (Or.inl ⟨rfl, rfl⟩)
  refine ⟨one_of_passed h.one hother hruns, fun j c b hc hb => ?_, fun battleId b hb hno => ?_,
    fun battleId b hb => ?_⟩
  · rcases (hruns j c).mp hc with ⟨rfl, rfl⟩ | ⟨hj, hc⟩
    · exact (hcount b hb).1
    · have hne : c.battleId ≠ c₁.battleId := fun heq => hj (hother j c hc heq)
      rw [hbattle _ hne] at hb
      exact h.running j c b hc hb
  · have hne : battleId ≠ c₁.battleId := fun heq => hno i c₁ hself heq.symm
    rw [hbattle _ hne] at hb
    refine h.unstarted battleId b hb fun j c hc heq => ?_
    by_cases hj : j = i
    · -- the coroutine before its pass is of the same battle
      subst hj
      obtain rfl : c₀ = c := Option.some.inj (hc₀.symm.trans hc.1)
      exact hne (heq.symm.trans hid.symm)
    · exact hno j c ((hruns j c).mpr (Or.inr ⟨hj, hc⟩)) heq
  · by_cases heq : battleId = c₁.battleId
    · subst heq
      exact (hcount b hb).2
    · rw [hbattle _ heq] at hb
      exact h.bound battleId b hb

/-- **A pass** keeps the count exactly when the frame counter does not wrap around. -/
theorem OneLoop.passes_iff (h : s.OneLoop) {i : ℕ} {c₀ c : Starter}
    (hc₀ : s.starters[i]? = some c₀) (hid : c.battleId = c₀.battleId)
    (hother : ∀ j c', s.Runs j c' → c'.battleId = c.battleId → j = i)
    (hcount : ∀ b, s.battleRef.get c.battleId = some b → b.curFrame.toInt = c.rounds)
    (hint : ∀ b, s.battleRef.get c.battleId = some b → b.maxFrame.Integral)
    (hpass : Passes s i c t) : t.OneLoop ↔ ∀ b, s.battleRef.get c.battleId = some b →
      b.plays = true → b.curFrame ≠ BitVec.intMax 64 := by
  cases hpass with
  | ends timerRef timers htimers hover =>
    refine iff_of_true ?_ fun b hb hplays => absurd hplays (by simp [hover b hb])
    exact h.of_pass hc₀ { c with stage := .ended } hid hother (Or.inr rfl) rfl
      (fun _ _ => rfl) fun b hb => ⟨hcount b hb, h.bound c.battleId b hb⟩
  | plays timerRef timers htimers b hb hplays =>
    set c₁ : Starter := { c with
      stage := if canSleep c.tick then .sleeping else .ended
      rounds := c.rounds + 1 }
    have hpassed : c₁.passed := passed_played c
    constructor
    · intro ht b' hb' _ hmax
      obtain rfl : b = b' := Option.some.inj (hb.symm.trans hb')
      have hrun := ht.running i c₁ b.next
        (Iff.mpr (runs_of_passed hc₀ rfl hpassed i c₁) (Or.inl ⟨rfl, rfl⟩))
        (LuaTable.get_set_self ..)
      have hwrap : b.next.curFrame = BitVec.intMin 64 := by
        change b.curFrame + 1 = _
        rw [hmax]
        rfl
      rw [hwrap] at hrun
      have hneg : (BitVec.intMin 64).toInt = -2 ^ 63 := rfl
      omega
    · intro hok
      refine h.of_pass hc₀ c₁ hid hother hpassed rfl
        (fun battleId hne => LuaTable.get_set_of_ne _ _ hne) fun b' hb' => ?_
      obtain rfl : b.next = b' := Option.some.inj ((LuaTable.get_set_self ..).symm.trans hb')
      have hmax := hok b hb hplays
      refine ⟨?_, Battle.not_lt_next (hint b hb) hplays hmax⟩
      have hnext : b.next.curFrame.toInt = b.curFrame.toInt + 1 := toInt_add_one hmax
      rw [hnext, hcount b hb]
      exact (Nat.cast_succ _).symm

/-! ## All steps -/

/-- The battle is as a battle is made, as far as its last frame and its end go. -/
def Sound (b : Battle κ) : Prop := b.maxFrame.Integral ∧ b.isEnd = false

theorem sound_newBattle (uids : LuaTable LuaKey LuaKey) (frameRate maxTime : LuaNum) :
    Sound (newBattle uids frameRate maxTime : Battle κ) := ⟨LuaNum.integral_ceil _, rfl⟩

theorem Wf.sound (h : s.Wf) {battleId : LuaKey} {b : Battle κ}
    (hb : s.battleRef.get battleId = some b) : Sound b :=
  ⟨h.integral battleId b hb, h.isEnd battleId b hb⟩

/-- A battle set to a sound one. -/
theorem Wf.sound_set (h : s.Wf) {battleId : LuaKey} {b : Battle κ} (hb : Sound b) (id : LuaKey)
    (x : Battle κ) (hx : (s.battleRef.set battleId (some b)).get id = some x) : Sound x := by
  rcases LuaTable.get_set_cases hx with ⟨-, rfl⟩ | ⟨-, hx⟩
  · exact hb
  · exact h.sound hx

theorem Wf.of_sound (htimed : t.Timed)
    (hunpassed : ∀ (i : ℕ) (c : Starter), t.starters[i]? = some c → ¬ c.passed → c.rounds = 0)
    (hsound : ∀ battleId b, t.battleRef.get battleId = some b → Sound b) : t.Wf :=
  ⟨htimed, hunpassed, fun battleId b hb => (hsound battleId b hb).1,
    fun battleId b hb => (hsound battleId b hb).2⟩

/-- No other coroutine of the battle of a coroutine that makes a pass is past its check. -/
theorem Timed.other_of_start (h : s.Timed) {c : Starter} (htimer : s.timerRef.get c.battleId ≠ none)
    (j : ℕ) (c' : Starter) (hc' : s.Runs j c') : c'.battleId ≠ c.battleId := by
  intro heq
  exact htimer (heq ▸ (h.runs j c' hc').1)

theorem unpassed_set {i : ℕ} {c₀ : Starter} (c₁ : Starter) (hc₀ : s.starters[i]? = some c₀)
    (h : ∀ (i : ℕ) (c : Starter), s.starters[i]? = some c → ¬ c.passed → c.rounds = 0)
    (h₁ : ¬ c₁.passed → c₁.rounds = 0) (j : ℕ) (c : Starter)
    (hc : (s.starters.set i c₁)[j]? = some c) (hp : ¬ c.passed) : c.rounds = 0 := by
  rw [getElem?_set_of_some hc₀] at hc
  split_ifs at hc
  · obtain rfl := Option.some.inj hc
    exact h₁ hp
  · exact h j c hc hp

/-- The tables after a pass. -/
theorem Wf.passes (h : s.Wf) {i : ℕ} {c₀ c : Starter} (hc₀ : s.starters[i]? = some c₀)
    (hother : ∀ j c', s.Runs j c' → c'.battleId = c.battleId → j = i)
    (hbattle : s.battleRef.get c.battleId ≠ none) (hpass : Passes s i c t)
    (htimerRef : ∀ battleId, t.timerRef.get battleId =
      if battleId = c.battleId then none else s.timerRef.get battleId) : t.Wf := by
  obtain ⟨c₁, -, hpassed₁, hstarters⟩ := hpass.starters
  refine .of_sound (h.timed.passes hc₀ hother hbattle hpass htimerRef) (fun j c' hc' hp => ?_)
    fun battleId b hb => ?_
  · rw [hstarters] at hc'
    exact unpassed_set c₁ hc₀ h.unpassed (absurd hpassed₁) j c' hc' hp
  · rcases hpass.battleRef battleId with heq | ⟨b', hb', -, -, heq⟩
    · exact h.sound (heq.symm.trans hb)
    · obtain rfl := Option.some.inj (heq.symm.trans hb)
      exact show Sound b' from h.sound hb'

/-- Every step keeps the tables. -/
theorem Wf.step (h : s.Wf) {e : CenterEvent κ} {a : Answer} (hstep : s.step e = some (t, a)) :
    t.Wf := by
  cases step_cases s h.timed.untyped hstep with
  | quiet _ _ hcreated hjoined hcommitted hpassing hsame huntyped =>
    refine .of_sound (h.timed.of_runs huntyped (fun i c => ?_) (fun battleId ht => ?_)
      fun battleId hb => ?_) (fun i c hc => ?_) fun battleId b hb => ?_
    · unfold Runs
      rw [hsame.starters]
    · rw [hsame.timerRef] at ht
      rw [hsame.battleRef]
      exact h.timed.timerRef battleId ht
    · rw [hsame.timerRef, hsame.battleRef]
      exact ⟨hb, rfl⟩
    · rw [hsame.starters] at hc
      exact h.unpassed i c hc
    · rw [hsame.battleRef] at hb
      exact h.sound hb
  | create battleId b r hcreated hjoined hcommitted hpassing =>
    obtain ⟨hnone, uids, frameRate, maxTime, rfl⟩ := created_get hcreated
    have huntyped := h.timed.untyped.step s hstep
    refine .of_sound (h.timed.of_runs huntyped (fun _ _ => Iff.rfl) (fun id ht => ?_)
      fun id hb => ?_) h.unpassed fun id b hb => h.sound_set (sound_newBattle ..) id b hb
    · by_cases hid : id = battleId
      · subst hid
        simp
      · refine LuaTable.get_set_ne_none _ _ _ (h.timed.timerRef id ?_)
        rwa [LuaTable.get_set_of_ne _ _ hid] at ht
    · have hid : id ≠ battleId := by
        rintro rfl
        exact hb hnone
      exact ⟨LuaTable.get_set_ne_none _ _ _ hb, LuaTable.get_set_of_ne _ _ hid⟩
  | join battleId uid b hcreated hjoined hcommitted hpassing =>
    obtain ⟨hb, -⟩ := joined_get hjoined
    have hsound : Sound b := h.sound hb
    refine .of_sound (h.timed.of_runs (h.timed.untyped.step s hstep) (runs_of_fork rfl rfl)
      (fun id ht => LuaTable.get_set_ne_none _ _ _ (h.timed.timerRef id ht))
      fun id hb => ⟨LuaTable.get_set_ne_none _ _ _ hb, rfl⟩) (fun i c hc hp => ?_) fun id x hx => ?_
    · rcases mem_fork hc with hc | rfl
      · exact h.unpassed i c hc hp
      · rfl
    · exact h.sound_set (show Sound (b.join uid) from hsound) id x hx
  | commit battleId uid b v cmd hcreated hjoined hcommitted hpassing =>
    obtain ⟨hb, -⟩ := committed_get hcommitted
    refine .of_sound (h.timed.of_runs (h.timed.untyped.step s hstep) (fun _ _ => Iff.rfl)
      (fun id ht => LuaTable.get_set_ne_none _ _ _ (h.timed.timerRef id ht))
      fun id hb => ⟨LuaTable.get_set_ne_none _ _ _ hb, rfl⟩) h.unpassed fun id x hx => ?_
    have hsound : Sound b := h.sound hb
    exact h.sound_set (show Sound (b.file uid v cmd) from hsound) id x hx
  | refuse i c hcreated hjoined hcommitted hpassing hc hstage =>
    have hc₀ : ¬ c.passed := by simp [Starter.passed, hstage]
    have hc₁ : ¬ ({ c with stage := .refused } : Starter).passed := by simp [Starter.passed]
    refine .of_sound (h.timed.of_runs (h.timed.untyped.step s hstep) (runs_of_set hc rfl hc₀ hc₁)
      h.timed.timerRef fun id hb => ⟨hb, rfl⟩) (fun j c' hc' hp => ?_) fun id x hx => h.sound hx
    exact unpassed_set { c with stage := .refused } hc h.unpassed
      (fun _ => h.unpassed i c hc hc₀) j c' hc' hp
  | start i c b _ hcreated hjoined hcommitted hc hstage hb htimer hpassing hpass htimerRef =>
    refine h.passes hc (fun j c' hc' hid => ?_) (by simp [hb]) hpass fun battleId => ?_
    · exact absurd hid (h.timed.other_of_start htimer j c' hc')
    · rw [htimerRef, LuaTable.get_set]
  | wake i c _ hcreated hjoined hcommitted hc hstage hpassing hpass htimerRef =>
    have hrun : s.Runs i c := ⟨hc, Or.inl hstage⟩
    obtain ⟨htimer, hbattle⟩ := h.timed.runs i c hrun
    refine h.passes hc (fun j c' hc' hid => ?_) hbattle hpass fun battleId => ?_
    · exact h.timed.one j i c' c hc' hrun hid
    · rw [htimerRef]
      split_ifs with hid
      · rw [hid, htimer]
      · rfl

/-- A coroutine that starts finds its battle at frame 0, and has completed no pass. -/
theorem count_of_start (h : s.OneLoop) (hwf : s.Wf) {i : ℕ} {c : Starter}
    (hc : s.starters[i]? = some c) (hstage : c.stage = .forked)
    (htimer : s.timerRef.get c.battleId ≠ none) {b : Battle κ}
    (hb : s.battleRef.get c.battleId = some b) : b.curFrame.toInt = c.rounds := by
  have hzero : b.curFrame = 0 :=
    h.unstarted c.battleId b hb fun j c' hc' => hwf.timed.other_of_start htimer j c' hc'
  have hrounds : c.rounds = 0 := hwf.unpassed i c hc (by simp [Starter.passed, hstage])
  rw [hzero, hrounds]
  rfl

theorem counts_iff_of_passing {e : CenterEvent κ} {i : ℕ} {c : Starter}
    (hcreated : s.created e = none) (hpassing : s.passing e = some (i, c)) : s.Counts e ↔
      ∀ b, s.battleRef.get c.battleId = some b → b.plays = true →
        b.curFrame ≠ BitVec.intMax 64 := by
  refine ⟨fun h b => h.passing i c b hpassing, fun h => ⟨fun battleId b hb => ?_, ?_⟩⟩
  · exact absurd (hcreated.symm.trans hb) (by simp)
  · intro j c' b hc' hb
    obtain ⟨-, rfl⟩ := Prod.mk.inj (Option.some.inj (hpassing.symm.trans hc'))
    exact h b hb

/-- **One step**: the loops stay single and counted exactly when nothing wraps around. -/
theorem OneLoop.step_iff (h : s.OneLoop) (hwf : s.Wf) {e : CenterEvent κ} {a : Answer}
    (hstep : s.step e = some (t, a)) : t.OneLoop ↔ s.Counts e := by
  have hcounts (hcreated : s.created e = none) (hpassing : s.passing e = none) : s.Counts e := by
    refine ⟨fun battleId b hb => ?_, fun i c b hc => ?_⟩
    · exact absurd (hcreated.symm.trans hb) (by simp)
    · exact absurd (hpassing.symm.trans hc) (by simp)
  cases step_cases s hwf.timed.untyped hstep with
  | quiet _ _ hcreated hjoined hcommitted hpassing hsame huntyped =>
    refine iff_of_true (h.of_runs (fun i c => ?_) fun battleId b hb => ?_)
      (hcounts hcreated hpassing)
    · unfold Runs
      rw [hsame.starters]
    · rw [hsame.battleRef] at hb
      exact ⟨b, hb, rfl, rfl⟩
  | create battleId b r hcreated hjoined hcommitted hpassing =>
    obtain ⟨hnone, uids, frameRate, maxTime, rfl⟩ := created_get hcreated
    constructor
    · refine fun ht => ⟨fun id b hb => ?_, fun i c b hc => ?_⟩
      · have hpair := Option.some.inj (hcreated.symm.trans hb)
        obtain rfl : newBattle uids frameRate maxTime = b := congrArg Prod.snd hpair
        rw [← lt_maxFrame_of_created hcreated]
        exact ht.bound battleId _ (LuaTable.get_set_self ..)
      · exact absurd (hpassing.symm.trans hc) (by simp)
    · intro hok
      have hbound := hok.created battleId _ hcreated
      rw [← lt_maxFrame_of_created hcreated] at hbound
      refine ⟨h.one, fun i c b hc hb => ?_, fun id b hb hno => ?_, fun id b hb => ?_⟩
      · rcases LuaTable.get_set_cases hb with ⟨hid, -⟩ | ⟨-, hb⟩
        · exact absurd (hid ▸ hnone) (hwf.timed.runs i c hc).2
        · exact h.running i c b hc hb
      · rcases LuaTable.get_set_cases hb with ⟨-, rfl⟩ | ⟨-, hb⟩
        · rfl
        · exact h.unstarted id b hb hno
      · rcases LuaTable.get_set_cases hb with ⟨-, rfl⟩ | ⟨-, hb⟩
        · exact hbound
        · exact h.bound id b hb
  | join battleId uid b hcreated hjoined hcommitted hpassing =>
    obtain ⟨hb, -⟩ := joined_get hjoined
    refine iff_of_true (h.of_runs (runs_of_fork rfl rfl) ?_) (hcounts hcreated hpassing)
    exact get_set_kept hb rfl rfl
  | commit battleId uid b v cmd hcreated hjoined hcommitted hpassing =>
    obtain ⟨hb, -⟩ := committed_get hcommitted
    refine iff_of_true (h.of_runs (fun _ _ => Iff.rfl) ?_) (hcounts hcreated hpassing)
    exact get_set_kept hb rfl rfl
  | refuse i c hcreated hjoined hcommitted hpassing hc hstage =>
    refine iff_of_true (h.of_runs (runs_of_set hc rfl ?_ ?_) fun id b hb => ⟨b, hb, rfl, rfl⟩)
      (hcounts hcreated hpassing)
    · simp [Starter.passed, hstage]
    · simp [Starter.passed]
  | start i c b _ hcreated hjoined hcommitted hc hstage hb htimer hpassing hpass htimerRef =>
    rw [counts_iff_of_passing hcreated hpassing]
    exact h.passes_iff (c := { c with tick := tickOf b.frameRate }) hc rfl
      (fun j c' hc' hid => absurd hid (hwf.timed.other_of_start htimer j c' hc'))
      (fun b hb => count_of_start h hwf hc hstage htimer hb) (hwf.integral _) hpass
  | wake i c _ hcreated hjoined hcommitted hc hstage hpassing hpass htimerRef =>
    have hrun : s.Runs i c := ⟨hc, Or.inl hstage⟩
    rw [counts_iff_of_passing hcreated hpassing]
    exact h.passes_iff hc rfl (fun j c' hc' hid => h.one j i c' c hc' hrun hid)
      (fun b hb => h.running i c b hrun hb) (hwf.integral _) hpass

/-- Setting a battle does not take its frame counter back. -/
theorem get_set_le {battleRef : LuaTable LuaKey (Battle κ)} {battleId : LuaKey} {b' : Battle κ}
    (hle : ∀ b, battleRef.get battleId = some b → b.curFrame.toInt ≤ b'.curFrame.toInt)
    (id : LuaKey) (x : Battle κ) (hx : battleRef.get id = some x) :
    ∃ x', (battleRef.set battleId (some b')).get id = some x' ∧
      x.curFrame.toInt ≤ x'.curFrame.toInt := by
  rw [LuaTable.get_set]
  split_ifs with hid
  · exact ⟨b', rfl, hle x (hid ▸ hx)⟩
  · exact ⟨x, hx, le_rfl⟩

theorem Passes.goes_on {i : ℕ} {c₀ c : Starter} (hpass : Passes s i c t)
    (hc₀ : s.starters[i]? = some c₀) (hid : c.battleId = c₀.battleId) (j : ℕ) (c' : Starter)
    (hc' : s.Runs j c') : ∃ c'', t.Runs j c'' ∧ c''.battleId = c'.battleId := by
  obtain ⟨c₁, hid₁, hpassed₁, hstarters⟩ := hpass.starters
  have hruns := runs_of_passed hc₀ hstarters hpassed₁
  by_cases hj : j = i
  · subst hj
    obtain rfl : c₀ = c' := Option.some.inj (hc₀.symm.trans hc'.1)
    exact ⟨c₁, (hruns j c₁).mpr (Or.inl ⟨rfl, rfl⟩), hid₁.trans hid⟩
  · exact ⟨c', (hruns j c').mpr (Or.inr ⟨hj, hc'⟩), rfl⟩

theorem Passes.le {i : ℕ} {c : Starter} (hpass : Passes s i c t)
    (hok : ∀ b, s.battleRef.get c.battleId = some b → b.plays = true →
      b.curFrame ≠ BitVec.intMax 64) (battleId : LuaKey) (b : Battle κ)
    (hb : s.battleRef.get battleId = some b) :
    ∃ b', t.battleRef.get battleId = some b' ∧ b.curFrame.toInt ≤ b'.curFrame.toInt := by
  rcases hpass.battleRef battleId with heq | ⟨b', hb', hplays, rfl, heq⟩
  · exact ⟨b, heq.trans hb, le_rfl⟩
  · obtain rfl : b = b' := Option.some.inj (hb.symm.trans hb')
    refine ⟨b.next, heq, ?_⟩
    have hnext : b.next.curFrame.toInt = b.curFrame.toInt + 1 := toInt_add_one (hok b hb hplays)
    omega

/-- What a step does not undo: a coroutine past its check stays so, and as long as it meets the
condition no frame counter goes back. -/
theorem goes_on (hwf : s.Wf) {e : CenterEvent κ} {a : Answer} (hstep : s.step e = some (t, a)) :
    (∀ i c, s.Runs i c → ∃ c', t.Runs i c' ∧ c'.battleId = c.battleId) ∧
      (s.Counts e → ∀ battleId b, s.battleRef.get battleId = some b →
        ∃ b', t.battleRef.get battleId = some b' ∧ b.curFrame.toInt ≤ b'.curFrame.toInt) := by
  cases step_cases s hwf.timed.untyped hstep with
  | quiet _ _ hcreated hjoined hcommitted hpassing hsame huntyped =>
    refine ⟨fun i c hc => ⟨c, ?_, rfl⟩, fun _ battleId b hb => ⟨b, ?_, le_rfl⟩⟩
    · unfold Runs
      rwa [hsame.starters]
    · rwa [hsame.battleRef]
  | create battleId b r hcreated hjoined hcommitted hpassing =>
    obtain ⟨hnone, -⟩ := created_get hcreated
    refine ⟨fun i c hc => ⟨c, hc, rfl⟩, fun _ => get_set_le fun b' hb' => ?_⟩
    exact absurd (hnone.symm.trans hb') (by simp)
  | join battleId uid b hcreated hjoined hcommitted hpassing =>
    obtain ⟨hb, -⟩ := joined_get hjoined
    refine ⟨fun i c hc => ⟨c, (runs_of_fork rfl rfl i c).mpr hc, rfl⟩,
      fun _ => get_set_le fun b' hb' => ?_⟩
    obtain rfl : b = b' := Option.some.inj (hb.symm.trans hb')
    exact le_rfl
  | commit battleId uid b v cmd hcreated hjoined hcommitted hpassing =>
    obtain ⟨hb, -⟩ := committed_get hcommitted
    refine ⟨fun i c hc => ⟨c, hc, rfl⟩, fun _ => get_set_le fun b' hb' => ?_⟩
    obtain rfl : b = b' := Option.some.inj (hb.symm.trans hb')
    exact le_rfl
  | refuse i c hcreated hjoined hcommitted hpassing hc hstage =>
    refine ⟨fun j c' hc' => ⟨c', (runs_of_set hc rfl ?_ ?_ j c').mpr hc', rfl⟩,
      fun _ battleId b hb => ⟨b, hb, le_rfl⟩⟩
    · simp [Starter.passed, hstage]
    · simp [Starter.passed]
  | start i c b _ hcreated hjoined hcommitted hc hstage hb htimer hpassing hpass htimerRef =>
    exact ⟨hpass.goes_on hc rfl,
      fun hok => hpass.le ((counts_iff_of_passing hcreated hpassing).mp hok)⟩
  | wake i c _ hcreated hjoined hcommitted hc hstage hpassing hpass htimerRef =>
    exact ⟨hpass.goes_on hc rfl,
      fun hok => hpass.le ((counts_iff_of_passing hcreated hpassing).mp hok)⟩

end Center

/-- **One frame loop per battle** in every run in which no battle is created with a time that wraps
around to a negative number of frames and no frame counter wraps around, and in each state of such a
run a step keeps this exactly when it meets the condition. A coroutine that is past its timer check
stays so, so that no other one ever gets past it, and no frame counter goes back. -/
theorem one_loop_iff {κ : Type*} {s : Center κ} (h : (centerMachine κ).Reaches Center.Counts s) :
    s.OneLoop ∧ ∀ e t a, s.step e = some (t, a) → (t.OneLoop ↔ s.Counts e) ∧
      (∀ i c, s.Runs i c → ∃ c', t.Runs i c' ∧ c'.battleId = c.battleId) ∧
      (s.Counts e → ∀ battleId b, s.battleRef.get battleId = some b →
        ∃ b', t.battleRef.get battleId = some b' ∧ b.curFrame.toInt ≤ b'.curFrame.toInt) := by
  have hinv : s.Wf ∧ s.OneLoop := by
    refine h.invariant (I := fun s : Center κ => s.Wf ∧ s.OneLoop) ⟨.ctor, .ctor⟩
      fun s e t hs hok hstep => ?_
    obtain ⟨⟨t', a⟩, ha, rfl⟩ := Option.map_eq_some_iff.mp hstep
    exact ⟨hs.1.step ha, (hs.2.step_iff hs.1 ha).mpr hok⟩
  refine ⟨hinv.2, fun e t a hstep => ⟨hinv.2.step_iff hinv.1 hstep, ?_⟩⟩
  exact Center.goes_on hinv.1 hstep

/-- The condition, decidably. -/
def Center.counts {κ : Type*} (s : Center κ) (e : CenterEvent κ) : Bool :=
  ((s.created e).all fun r => !(overflows r.2.frameRate r.2.maxTime)) &&
    (s.passing e).all fun r => (s.battleRef.get r.2.battleId).all fun b =>
      !b.plays || decide (b.curFrame ≠ BitVec.intMax 64)

theorem Center.counts_of {κ : Type*} (s : Center κ) (e : CenterEvent κ) (h : s.counts e = true) :
    s.Counts e := by
  obtain ⟨hcreated, hpassing⟩ := (Bool.and_eq_true _ _).mp h
  refine ⟨fun battleId b hb => ?_, fun i c b hc hb hplays => ?_⟩
  · rw [hb, Option.all_some] at hcreated
    exact (Bool.not_eq_true' _).mp hcreated
  · rw [hc, Option.all_some, hb, Option.all_some, hplays] at hpassing
    exact of_decide_eq_true hpassing

/-- A battle of one player is created and joined, and its loop plays two frames. -/
theorem one_loop_iff_two : ∃ s : Center ℕ, (centerMachine ℕ).Reaches Center.Counts s ∧
    s.Runs 0 ⟨.index 5, .sleeping, .ofNat 6, 2⟩ ∧ s.OneLoop := by
  have h : ((centerMachine ℕ).run Center.counts .ctor
      [.createBattle (.key (.index 5)) (some (listTable [.index 7])) (some (.ofNat 16))
        (some (.ofNat 300)), .joinBattle (.key (.index 5)) (.key (.index 1)), .startBattle 0,
        .wake 0]).any
      (fun s => decide (s.starters[0]? = some ⟨.index 5, .sleeping, .ofNat 6, 2⟩)) = true := by
    decide +kernel
  obtain ⟨s, hrun, hs⟩ := Option.any_eq_true _ _ |>.mp h
  have hreach := Machine.path_of_run Center.counts_of _ hrun
  exact ⟨s, hreach, ⟨of_decide_eq_true hs, Or.inl rfl⟩, (one_loop_iff hreach).1⟩

/-- `maxTime*1000` wraps around to a negative number. -/
theorem not_one_loop_wrapped :
    ¬ ∀ s, (centerMachine ℕ).Reaches Machine.anyStep s → s.OneLoop := by
  intro hall
  have h : ((centerMachine ℕ).run (fun _ _ => true) .ctor
      [.createBattle (.key (.index 5)) (some (listTable [.index 7])) (some (.ofNat 16))
        (some (.ofNat 9223372036854776))]).any
      (fun s => (s.battleRef.get (.index 5)).any fun b =>
        LuaNum.lt b.maxFrame (.integer b.curFrame)) = true := by
    decide +kernel
  obtain ⟨s, hrun, hs⟩ := Option.any_eq_true _ _ |>.mp h
  obtain ⟨b, hb, hlt⟩ := Option.any_eq_true _ _ |>.mp hs
  have := (hall s (Machine.path_of_run (fun _ _ _ => trivial) _ hrun)).bound _ b hb
  exact absurd hlt (by simp [this])

end LuaKcp
