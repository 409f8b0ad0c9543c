import LuaKcp.Battle.Loop

/-!
# How long a battle lasts

`createBattle` divides milliseconds by the tick, which `skynet.sleep` takes in units of 10 ms. A
battle of more than one frame therefore lasts about ten times as long as its `maxTime`; the loop
sleeps for the right time exactly when there is one frame (`lasts_iff`).
-/

namespace LuaKcp

/-! ## The numbers -/

/-- A frame rate between 1 and 100, as a double. -/
theorem toFloat_of_bounds {a : LuaNum} (hlow : LuaNum.le (.ofNat 1) a = true)
    (hhigh : LuaNum.lt a (.ofNat 100) = true) : ∃ q : ℚ, a.toFloat = some (.fin q) ∧ 1 ≤ q ∧
      q < 100 := by
  unfold LuaNum.le at hlow
  unfold LuaNum.lt at hhigh
  rw [value_ofNat (by norm_num)] at hlow hhigh
  cases a with
  | integer n =>
    simp only [LuaNum.value, LuaFloat.le, LuaFloat.lt, LuaNumber.ofInt, LuaNumber.lt,
      Bool.or_eq_true, decide_eq_true_eq, LuaNumber.fin.injEq] at hlow hhigh
    have hlow' : (1 : ℤ) ≤ n.toInt := by
      rcases hlow with hlt | heq
      · exact_mod_cast hlt.le
      · exact_mod_cast heq.le
    have hhigh' : n.toInt < 100 := by exact_mod_cast hhigh
    obtain ⟨k, hk⟩ := Int.eq_ofNat_of_zero_le (a := n.toInt) (by omega)
    refine ⟨k, toFloat_integer hk (by omega), ?_, ?_⟩
    · exact_mod_cast show 1 ≤ k by omega
    · exact_mod_cast show k < 100 by omega
  | float x =>
    cases x with
    | none => simp [LuaNum.value, LuaFloat.lt] at hhigh
    | some v =>
      cases v with
      | inf neg =>
        cases neg with
        | true => simp [LuaNum.value, LuaFloat.le, LuaNumber.lt] at hlow
        | false => simp [LuaNum.value, LuaFloat.lt, LuaNumber.lt] at hhigh
      | fin q =>
        simp only [LuaNum.value, LuaFloat.le, LuaFloat.lt, LuaNumber.lt, Bool.or_eq_true,
          decide_eq_true_eq, LuaNumber.fin.injEq, Nat.cast_one, Nat.cast_ofNat] at hlow hhigh
        refine ⟨q, rfl, ?_, hhigh⟩
        rcases hlow with hlt | heq
        · exact hlt.le
        · exact heq.le

/-- The tick is a number of units between 1 and 100. -/
theorem tickOf_eq {frameRate : LuaNum} (hlow : LuaNum.le (.ofNat 1) frameRate = true)
    (hhigh : LuaNum.lt frameRate (.ofNat 100) = true) :
    ∃ tick : ℕ, 1 ≤ tick ∧ tick ≤ 100 ∧ tickOf frameRate = .ofNat tick := by
  obtain ⟨q, hq, hlow, hhigh⟩ := toFloat_of_bounds hlow hhigh
  have hpos : 0 < q := by linarith
  have hle : 100 / q ≤ (100 : ℕ) := by
    rw [div_le_iff₀ hpos]
    push_cast
    linarith
  have hge : ((1 : ℕ) : ℚ) ≤ 100 / q := by
    rw [le_div_iff₀ hpos]
    push_cast
    linarith
  obtain ⟨y, hy, -, hyle⟩ := roundDouble_le (by positivity) (by norm_num) hle
  have hyge := le_roundDouble one_pos (by norm_num) hge hy
  have hfloor : 1 ≤ ⌊y⌋ := Int.le_floor.mpr (by exact_mod_cast hyge)
  have hfloor' : ⌊y⌋ ≤ 100 := by
    have : (⌊y⌋ : ℚ) ≤ 100 := (Int.floor_le y).trans (by exact_mod_cast hyle)
    exact_mod_cast this
  obtain ⟨tick, htick⟩ := Int.eq_ofNat_of_zero_le (a := ⌊y⌋) (by omega)
  refine ⟨tick, by omega, by omega, ?_⟩
  unfold tickOf LuaNum.div LuaFloat.div
  rw [toFloat_ofNat (by norm_num), hq]
  dsimp only
  rw [if_neg hpos.ne', Nat.cast_ofNat, roundRat_of_nonneg (by positivity), hy]
  unfold LuaNum.floor LuaNum.ofIntegral
  dsimp only
  rw [if_pos (by omega), htick]
  rfl

/-- `maxTime*1000/math.floor(100/frameRate)`. -/
def framesOf (frameRate maxTime : LuaNum) : LuaNum :=
  (maxTime.mul (.ofNat 1000)).div (tickOf frameRate)

/-- The milliseconds of a time do not wrap around. -/
def FitsMillis (maxTime : LuaNum) : Prop := ∀ m, maxTime = .integer m → m.toInt * 1000 < 2 ^ 63

/-- `maxTime*1000`, as a double, is infinite or rounded. -/
theorem toFloat_mul_cases {maxTime : LuaNum} (hpos : LuaNum.lt (.ofNat 0) maxTime = true)
    (hfits : FitsMillis maxTime) :
    (maxTime.mul (.ofNat 1000)).toFloat = some (.inf false) ∨
      ∃ time : ℚ, 0 < time ∧ maxTime.value = some (.fin time) ∧
        (maxTime.mul (.ofNat 1000)).toFloat = some (roundDouble (1000 * time)) := by
  unfold LuaNum.lt at hpos
  rw [value_ofNat (by norm_num)] at hpos
  cases maxTime with
  | integer m =>
    have hm : 0 < m.toInt := by
      simp only [LuaNum.value, LuaFloat.lt, LuaNumber.ofInt, LuaNumber.lt, Nat.cast_zero,
        decide_eq_true_eq] at hpos
      exact_mod_cast hpos
    have hlt := hfits m rfl
    have hprod : (m * BitVec.ofNat 64 1000).toInt = m.toInt * 1000 := by
      rw [BitVec.toInt_mul, toInt_ofNat (by norm_num)]
      exact Int.bmod_eq_of_le_mul_two (by omega) (by omega)
    refine Or.inr ⟨m.toInt, by exact_mod_cast hm, rfl, ?_⟩
    change some (roundRat ((m * BitVec.ofNat 64 1000).toInt : ℚ)) = _
    rw [hprod, roundRat_of_nonneg (by exact_mod_cast (by omega : 0 ≤ m.toInt * 1000))]
    push_cast
    rw [mul_comm]
  | float x =>
    have hfloat (y : LuaFloat) : ((LuaNum.float y).mul (.ofNat 1000)).toFloat =
        y.mul (some (.fin 1000)) := by
      change y.mul (LuaNum.ofNat 1000).toFloat = _
      rw [toFloat_ofNat (by norm_num)]
      rfl
    rw [hfloat]
    cases x with
    | none => simp [LuaNum.value, LuaFloat.lt] at hpos
    | some v =>
      cases v with
      | inf neg =>
        cases neg with
        | true => simp [LuaNum.value, LuaFloat.lt, LuaNumber.lt] at hpos
        | false => exact Or.inl (by simp [LuaFloat.mul])
      | fin time =>
        have htime : 0 < time := by
          simpa [LuaNum.value, LuaFloat.lt, LuaNumber.lt] using hpos
        refine Or.inr ⟨time, htime, rfl, ?_⟩
        change some (roundRat (time * 1000)) = _
        rw [roundRat_of_nonneg (by positivity), mul_comm]

/-- The quotient that is rounded up to the number of frames. -/
theorem framesOf_cases {frameRate maxTime : LuaNum} {tick : ℕ} (htick : 1 ≤ tick)
    (htick' : tick ≤ 100) (heq : tickOf frameRate = .ofNat tick)
    (hpos : LuaNum.lt (.ofNat 0) maxTime = true) (hfits : FitsMillis maxTime) :
    framesOf frameRate maxTime = .float (some (.inf false)) ∨
      ∃ time p : ℚ, 0 < time ∧ maxTime.value = some (.fin time) ∧
        roundDouble (1000 * time) = .fin p ∧
          framesOf frameRate maxTime = .float (some (roundDouble (p / tick))) := by
  have htick₀ : (0 : ℚ) < tick := by exact_mod_cast htick
  have hdiv (p : LuaNumber) (hp : (maxTime.mul (.ofNat 1000)).toFloat = some p) :
      framesOf frameRate maxTime = .float (LuaFloat.div (some p) (some (.fin tick))) := by
    unfold framesOf LuaNum.div
    rw [hp, heq, toFloat_ofNat (by omega)]
  have hinf : LuaFloat.div (some (.inf false)) (some (.fin tick)) = some (.inf false) := by
    have : ¬ (tick : ℚ) < 0 := not_lt.mpr htick₀.le
    simp [LuaFloat.div, this]
  rcases toFloat_mul_cases hpos hfits with hp | ⟨time, htime, hvalue, hp⟩
  · exact Or.inl ((hdiv _ hp).trans (congrArg _ hinf))
  · cases hround : roundDouble (1000 * time) with
    | inf neg =>
      obtain rfl : neg = false := by
        rw [roundDouble_eq (by positivity)] at hround
        split_ifs at hround
        exact (LuaNumber.inf.inj hround).symm
      rw [hround] at hp
      exact Or.inl ((hdiv _ hp).trans (congrArg _ hinf))
    | fin p =>
      rw [hround] at hp
      have hnonneg := roundDouble_nonneg (by positivity) hround
      refine Or.inr ⟨time, p, htime, hvalue, hround, (hdiv _ hp).trans ?_⟩
      unfold LuaFloat.div
      dsimp only
      rw [if_neg htick₀.ne', roundRat_of_nonneg (by positivity)]

/-- A number that rounds to one above 1 is above 1. -/
theorem one_lt_of_roundDouble {q r : ℚ} (hq : 0 ≤ q) (hr : roundDouble q = .fin r) (h : 1 < r) :
    1 < q := by
  by_contra hle
  obtain ⟨r', hr', -, hr'le⟩ := roundDouble_le hq (k := 1) (by norm_num)
    (by push_cast; exact not_lt.mp hle)
  obtain rfl := LuaNumber.fin.inj (hr.symm.trans hr')
  push_cast at hr'le
  linarith

/-- **The arithmetic**: the frames fill the time, and less than a tick more, exactly when there is
one frame. -/
theorem frames_fill_iff {time p x : ℚ} {tick : ℕ} (htick : 1 ≤ tick) (htime : 0 < time)
    (hp : roundDouble (1000 * time) = .fin p) (hx : roundDouble (p / tick) = .fin x) :
    (100 * time ≤ ⌈x⌉ * tick ∧ (⌈x⌉ : ℚ) * tick < 100 * time + tick) ↔ 0 < x ∧ x ≤ 1 := by
  have htick₁ : (1 : ℚ) ≤ tick := by exact_mod_cast htick
  have htick₀ : (0 : ℚ) < tick := by linarith
  have hp₀ := roundDouble_nonneg (by positivity) hp
  have hhalf {q r : ℚ} (hq : 1 < q) (hr : roundDouble q = .fin r) : q / 2 ≤ r := by
    refine half_le_roundDouble ?_ hr
    exact (zpow_le_one_of_nonpos₀ one_le_two (by norm_num)).trans hq.le
  constructor
  · rintro ⟨hlow, hhigh⟩
    have hceil : (0 : ℚ) < ⌈x⌉ := by
      by_contra hle
      have := mul_nonpos_of_nonpos_of_nonneg (not_lt.mp hle) htick₀.le
      linarith
    refine ⟨Int.ceil_pos.mp (by exact_mod_cast hceil), ?_⟩
    by_contra hone
    have hone := not_le.mp hone
    -- both quotients are above 1, so that each rounding loses at most half
    have hq := one_lt_of_roundDouble (by positivity) hx hone
    have hp₁ : 1 < p := by
      have := (one_lt_div htick₀).mp hq
      linarith
    have htime₁ := one_lt_of_roundDouble (by positivity) hp hp₁
    have hx₂ : p / tick / 2 ≤ x := hhalf hq hx
    have hp₂ : 1000 * time / 2 ≤ p := hhalf htime₁ hp
    have hceil₂ : (2 : ℚ) ≤ ⌈x⌉ := by
      have : 1 < ⌈x⌉ := Int.lt_ceil.mpr (by exact_mod_cast hone)
      exact_mod_cast this
    have hxtick : p / 2 ≤ x * tick := by
      calc p / 2 = p / tick / 2 * tick := by field_simp
        _ ≤ x * tick := mul_le_mul_of_nonneg_right hx₂ htick₀.le
    have hxceil : x * tick ≤ ⌈x⌉ * tick := mul_le_mul_of_nonneg_right (Int.le_ceil x) htick₀.le
    have htwo : 2 * (tick : ℚ) ≤ ⌈x⌉ * tick := mul_le_mul_of_nonneg_right hceil₂ htick₀.le
    linarith
  · rintro ⟨hpos, hone⟩
    have hceil : ⌈x⌉ = 1 := Int.ceil_eq_iff.mpr ⟨by push_cast; linarith, by push_cast; exact hone⟩
    rw [hceil]
    push_cast
    refine ⟨?_, by linarith⟩
    by_contra hlt
    have hlt := not_le.mp hlt
    have hp₂ : 1000 * time / 2 ≤ p := hhalf (by linarith) hp
    have hq : 1 < p / tick := by
      rw [one_lt_div htick₀]
      linarith
    have hx₂ : p / tick / 2 ≤ x := hhalf hq hx
    have hxtick : p / 2 ≤ x * tick := by
      calc p / 2 = p / tick / 2 * tick := by field_simp
        _ ≤ x * tick := mul_le_mul_of_nonneg_right hx₂ htick₀.le
    have hxle : x * tick ≤ 1 * tick := mul_le_mul_of_nonneg_right hone htick₀.le
    linarith

/-! ## The passes of a loop -/

namespace Center

variable {κ : Type*}

/-- A frame counter that has not reached the last frame. -/
theorem lt_of_plays {b : Battle κ} {n k : ℕ} (hn : n < 2 ^ 63) (hk : k ≤ n)
    (hmax : b.maxFrame.value = some (.fin n)) (hframe : b.curFrame = BitVec.ofNat 64 k)
    (hend : b.isEnd = false) : b.plays = true ↔ k < n := by
  have hcur : (LuaNum.integer b.curFrame).value = some (.fin k) := by
    rw [hframe]
    exact value_ofNat (by omega)
  rw [Battle.plays_iff, LuaNum.le, hmax, hcur, hend]
  simp only [LuaFloat.le, LuaNumber.lt, LuaNumber.fin.injEq, Nat.cast_inj, Nat.cast_lt,
    Bool.or_eq_false_iff, decide_eq_false_iff_not, and_true]
  omega

/-- What the loops keep of their battles: the last frame is that of `createBattle`, the counter
counts the passes, and a loop ends when its battle plays no frame or its tick is no integer. -/
structure Paced (s : Center κ) : Prop where
  maxFrame : ∀ battleId b, s.battleRef.get battleId = some b →
    b.maxFrame = maxFrameOf b.frameRate b.maxTime
  unstarted : ∀ battleId b, s.battleRef.get battleId = some b →
    (∀ i c, s.Runs i c → c.battleId ≠ battleId) → b.curFrame = 0
  running : ∀ i c b, s.Runs i c → s.battleRef.get c.battleId = some b →
    b.curFrame = BitVec.ofNat 64 c.rounds ∧ c.tick = tickOf b.frameRate
  ended : ∀ i c b, s.Runs i c → s.battleRef.get c.battleId = some b → c.stage = .ended →
    b.plays = false ∨ canSleep c.tick = false
  bounded : ∀ i c b (n : ℕ), s.Runs i c → s.battleRef.get c.battleId = some b → n < 2 ^ 63 →
    b.maxFrame.value = some (.fin n) → c.rounds ≤ n

variable {s t : Center κ}

/-- Battles whose counters and bounds are as before. -/
theorem Paced.of_runs (h : s.Paced) (hruns : ∀ i c, t.Runs i c ↔ s.Runs i c)
    (hbattle : ∀ battleId b', t.battleRef.get battleId = some b' →
      ∃ b, s.battleRef.get battleId = some b ∧ b'.curFrame = b.curFrame ∧
        b'.maxFrame = b.maxFrame ∧ b'.frameRate = b.frameRate ∧ b'.maxTime = b.maxTime ∧
        b'.isEnd = b.isEnd) : t.Paced := by
  refine ⟨fun id b' hb' => ?_, fun id b' hb' hno => ?_, fun i c b' hc hb' => ?_,
    fun i c b' hc hb' hstage => ?_, fun i c b' n hc hb' hn hmax => ?_⟩
  · obtain ⟨b, hb, -, hmax, hrate, htime, -⟩ := hbattle id b' hb'
    rw [hmax, hrate, htime]
    exact h.maxFrame id b hb
  · obtain ⟨b, hb, hcur, -⟩ := hbattle id b' hb'
    rw [hcur]
    exact h.unstarted id b hb fun i c hc => hno i c ((hruns i c).mpr hc)
  · obtain ⟨b, hb, hcur, -, hrate, -⟩ := hbattle c.battleId b' hb'
    rw [hcur, hrate]
    exact h.running i c b ((hruns i c).mp hc) hb
  · obtain ⟨b, hb, hcur, hmax, -, -, hend⟩ := hbattle c.battleId b' hb'
    have hplays : b'.plays = b.plays := by
      unfold Battle.plays
      rw [hcur, hmax, hend]
    rw [hplays]
    exact h.ended i c b ((hruns i c).mp hc) hb hstage
  · obtain ⟨b, hb, -, hmax', -⟩ := hbattle c.battleId b' hb'
    rw [hmax'] at hmax
    exact h.bounded i c b n ((hruns i c).mp hc) hb hn hmax

/-- A battle changed in its players only. -/
theorem get_set_paced {battleRef : LuaTable LuaKey (Battle κ)} {battleId : LuaKey} {b b' : Battle κ}
    (hb : battleRef.get battleId = some b)
    (hkeep : b'.curFrame = b.curFrame ∧ b'.maxFrame = b.maxFrame ∧ b'.frameRate = b.frameRate ∧
      b'.maxTime = b.maxTime ∧ b'.isEnd = b.isEnd) (id : LuaKey) (x' : Battle κ)
    (hx : (battleRef.set battleId (some b')).get id = some x') :
    ∃ x, battleRef.get id = some x ∧ x'.curFrame = x.curFrame ∧ x'.maxFrame = x.maxFrame ∧
      x'.frameRate = x.frameRate ∧ x'.maxTime = x.maxTime ∧ x'.isEnd = x.isEnd := by
  exact LuaTable.get_set_rel (R := fun x x' : Battle κ => x'.curFrame = x.curFrame ∧
    x'.maxFrame = x.maxFrame ∧ x'.frameRate = x.frameRate ∧ x'.maxTime = x.maxTime ∧
      x'.isEnd = x.isEnd) (fun _ => ⟨rfl, rfl, rfl, rfl, rfl⟩) hb hkeep id x' hx

/-- What a loop keeps of its own battle. -/
structure KeepsPace (c : Starter) (b : Battle κ) : Prop where
  maxFrame : b.maxFrame = maxFrameOf b.frameRate b.maxTime
  curFrame : b.curFrame = BitVec.ofNat 64 c.rounds
  tick : c.tick = tickOf b.frameRate
  ended : c.stage = .ended → b.plays = false ∨ canSleep c.tick = false
  bounded : ∀ n : ℕ, n < 2 ^ 63 → b.maxFrame.value = some (.fin n) → c.rounds ≤ n

/-- One coroutine has changed, and with it no battle but its own. -/
theorem Paced.of_passed (h : s.Paced) {i : ℕ} {c₀ c₁ : Starter}
    (hc₀ : s.starters[i]? = some c₀)
    (hruns : ∀ j c', t.Runs j c' ↔ j = i ∧ c' = c₁ ∨ j ≠ i ∧ s.Runs j c')
    (hid : c₁.battleId = c₀.battleId)
    (hother : ∀ j c', s.Runs j c' → c'.battleId = c₁.battleId → j = i)
    (hbattle : ∀ id b, t.battleRef.get id = some b →
      id = c₁.battleId ∧ KeepsPace c₁ b ∨ id ≠ c₁.battleId ∧ s.battleRef.get id = some b) :
    t.Paced := by
  have hown {b : Battle κ} (hb : t.battleRef.get c₁.battleId = some b) : KeepsPace c₁ b := by
    rcases hbattle _ b hb with ⟨-, hkeeps⟩ | ⟨hne, -⟩
    · exact hkeeps
    · exact absurd rfl hne
  have hold {j : ℕ} {c' : Starter} {b : Battle κ} (hj : j ≠ i) (hc' : s.Runs j c')
      (hb : t.battleRef.get c'.battleId = some b) : s.battleRef.get c'.battleId = some b := by
    rcases hbattle _ b hb with ⟨heq, -⟩ | ⟨-, hb⟩
    · exact absurd (hother j c' hc' heq) hj
    · exact hb
  refine ⟨fun id b hb => ?_, fun id b hb hno => ?_, fun j c' b hc' hb => ?_,
    fun j c' b hc' hb hstage => ?_, fun j c' b n hc' hb hn hmax => ?_⟩
  · rcases hbattle id b hb with ⟨-, hkeeps⟩ | ⟨-, hb⟩
    · exact hkeeps.maxFrame
    · exact h.maxFrame id b hb
  · rcases hbattle id b hb with ⟨heq, -⟩ | ⟨hne, hb⟩
    · exact absurd heq.symm (hno i c₁ ((hruns i c₁).mpr (Or.inl ⟨rfl, rfl⟩)))
    · refine h.unstarted id b hb fun j c' hc' => ?_
      by_cases hj : j = i
      · subst hj
        obtain rfl : c₀ = c' := Option.some.inj (hc₀.symm.trans hc'.1)
        exact fun heq => hne (heq.symm.trans hid.symm)
      · exact hno j c' ((hruns j c').mpr (Or.inr ⟨hj, hc'⟩))
  · rcases (hruns j c').mp hc' with ⟨rfl, rfl⟩ | ⟨hj, hc'⟩
    · exact ⟨(hown hb).curFrame, (hown hb).tick⟩
    · exact h.running j c' b hc' (hold hj hc' hb)
  · rcases (hruns j c').mp hc' with ⟨rfl, rfl⟩ | ⟨hj, hc'⟩
    · exact (hown hb).ended hstage
    · exact h.ended j c' b hc' (hold hj hc' hb) hstage
  · rcases (hruns j c').mp hc' with ⟨rfl, rfl⟩ | ⟨hj, hc'⟩
    · exact (hown hb).bounded n hn hmax
    · exact h.bounded j c' b n hc' (hold hj hc' hb) hn hmax

/-- A pass of a loop whose battle it counts. -/
theorem Paced.passes (h : s.Paced) (hwf : s.Wf) {i : ℕ} {c₀ c : Starter}
    (hc₀ : s.starters[i]? = some c₀)
    (hother : ∀ j c', s.Runs j c' → c'.battleId = c.battleId → j = i)
    (hid : c.battleId = c₀.battleId)
    (hcount : ∀ b, s.battleRef.get c.battleId = some b →
      b.curFrame = BitVec.ofNat 64 c.rounds ∧ c.tick = tickOf b.frameRate)
    (hbound : ∀ b (n : ℕ), s.battleRef.get c.battleId = some b → n < 2 ^ 63 →
      b.maxFrame.value = some (.fin n) → c.rounds ≤ n) (hpass : Passes s i c t) : t.Paced := by
  cases hpass with
  | ends timerRef timers htimers hover =>
    refine h.of_passed hc₀ (runs_of_passed hc₀ rfl (Or.inr rfl)) hid hother fun id b hb => ?_
    by_cases heq : id = c.battleId
    · subst heq
      obtain ⟨hframe, htick⟩ := hcount b hb
      exact Or.inl ⟨rfl, h.maxFrame _ b hb, hframe, htick, fun _ => Or.inl (hover b hb),
        fun n => hbound b n hb⟩
    · exact Or.inr ⟨heq, hb⟩
  | plays timerRef timers htimers b₀ hb₀ hplays =>
    refine h.of_passed hc₀ (runs_of_passed hc₀ rfl (passed_played c)) hid hother
      fun id b hb => ?_
    rcases LuaTable.get_set_cases hb with ⟨rfl, rfl⟩ | ⟨hne, hb⟩
    · obtain ⟨hframe, htick⟩ := hcount b₀ hb₀
      refine Or.inl ⟨rfl, h.maxFrame _ b₀ hb₀, ?_, htick, fun hstage => ?_, fun n hn hmax => ?_⟩
      · change b₀.curFrame + 1 = BitVec.ofNat 64 (c.rounds + 1)
        rw [hframe, BitVec.ofNat_add]
        rfl
      · dsimp only at hstage ⊢
        split_ifs at hstage with hsleep
        exact Or.inr ((Bool.not_eq_true _).mp hsleep)
      · exact (lt_of_plays (b := b₀) hn (hbound b₀ n hb₀ hn hmax) hmax hframe
          (hwf.isEnd _ b₀ hb₀)).mp hplays
    · exact Or.inr ⟨hne, hb⟩

/-- Every step keeps the pace. -/
theorem Paced.step (h : s.Paced) (hwf : s.Wf) {e : CenterEvent κ} {a : Answer}
    (hstep : s.step e = some (t, a)) : t.Paced := by
  cases step_cases s hwf.timed.untyped hstep with
  | quiet _ _ hcreated hjoined hcommitted hpassing hsame huntyped =>
    refine h.of_runs (fun i c => ?_) fun id b hb => ?_
    · unfold Runs
      rw [hsame.starters]
    · rw [hsame.battleRef] at hb
      exact ⟨b, hb, rfl, rfl, rfl, rfl, rfl⟩
  | create battleId b r hcreated hjoined hcommitted hpassing =>
    obtain ⟨hnone, uids, frameRate, maxTime, rfl⟩ := created_get hcreated
    have hruns {i : ℕ} {c : Starter} {b : Battle κ} (hc : s.Runs i c)
        (hb : (s.battleRef.set battleId
          (some (newBattle uids frameRate maxTime))).get c.battleId = some b) :
        s.battleRef.get c.battleId = some b := by
      rcases LuaTable.get_set_cases hb with ⟨hid, -⟩ | ⟨-, hb⟩
      · exact absurd (hid ▸ hnone) (hwf.timed.runs i c hc).2
      · exact hb
    refine ⟨fun id b hb => ?_, fun id b hb hno => ?_, fun i c b hc hb => ?_,
      fun i c b hc hb => ?_, fun i c b n hc hb => ?_⟩
    · rcases LuaTable.get_set_cases hb with ⟨-, rfl⟩ | ⟨-, hb⟩
      · rfl
      · exact h.maxFrame id b hb
    · rcases LuaTable.get_set_cases hb with ⟨-, rfl⟩ | ⟨-, hb⟩
      · rfl
      · exact h.unstarted id b hb hno
    · exact h.running i c b hc (hruns hc hb)
    · exact h.ended i c b hc (hruns hc hb)
    · exact h.bounded i c b n hc (hruns hc hb)
  | join battleId uid b hcreated hjoined hcommitted hpassing =>
    exact h.of_runs (runs_of_fork rfl rfl)
      (get_set_paced (joined_get hjoined).1 ⟨rfl, rfl, rfl, rfl, rfl⟩)
  | commit battleId uid b v cmd hcreated hjoined hcommitted hpassing =>
    exact h.of_runs (fun _ _ => Iff.rfl)
      (get_set_paced (committed_get hcommitted).1 ⟨rfl, rfl, rfl, rfl, rfl⟩)
  | refuse i c hcreated hjoined hcommitted hpassing hc hstage =>
    refine h.of_runs (runs_of_set hc rfl ?_ ?_) fun id b hb => ⟨b, hb, rfl, rfl, rfl, rfl, rfl⟩
    · simp [Starter.passed, hstage]
    · simp [Starter.passed]
  | start i c b _ hcreated hjoined hcommitted hc hstage hb htimer hpassing hpass htimerRef =>
    have hother := hwf.timed.other_of_start htimer
    have hrounds : c.rounds = 0 := hwf.unpassed i c hc (by simp [Starter.passed, hstage])
    refine h.passes hwf (c := { c with tick := tickOf b.frameRate }) hc
      (fun j c' hc' hid => absurd hid (hother j c' hc')) rfl (fun b' hb' => ?_)
      (fun b' n hb' hn hmax => ?_) hpass
    · obtain rfl : b = b' := Option.some.inj (hb.symm.trans hb')
      refine ⟨?_, rfl⟩
      rw [h.unstarted c.battleId b hb hother, hrounds]
      rfl
    · change c.rounds ≤ n
      omega
  | wake i c _ hcreated hjoined hcommitted hc hstage hpassing hpass htimerRef =>
    have hrun : s.Runs i c := ⟨hc, Or.inl hstage⟩
    exact h.passes hwf hc (fun j c' hc' hid => hwf.timed.one j i c' c hc' hrun hid) rfl
      (fun b hb => h.running i c b hrun hb) (fun b n hb => h.bounded i c b n hrun hb) hpass

/-- The loop of coroutine `i` makes exactly `n` passes, with a sleep of `tick` after each: it has
not made more, each sleep that ends before is followed by another pass, and then the loop ends. -/
structure Makes (s : Center κ) (i : ℕ) (c : Starter) (n tick : ℕ) : Prop where
  tick : c.tick.value = some (.fin tick)
  le : c.rounds ≤ n
  goesOn : c.stage = .sleeping → c.rounds < n → ∃ t, s.wake i = some (t, .returned true) ∧
    t.starters[i]? = some { c with rounds := c.rounds + 1 }
  ends : c.stage = .sleeping → c.rounds = n → ∃ t, s.wake i = some (t, .returned true) ∧
    t.starters[i]? = some { c with stage := .ended }
  ended : c.stage = .ended → c.rounds = n

/-- The loop of every battle with this frame rate and this time, in every run, makes as many passes
as the battle has frames, and sleeps for the time and less than a tick more. -/
def Lasts (κ : Type*) (frameRate maxTime : LuaNum) : Prop :=
  ∃ (n tick : ℕ) (time : ℚ), (tickOf frameRate).value = some (.fin tick) ∧
    maxTime.value = some (.fin time) ∧ (maxFrameOf frameRate maxTime).value = some (.fin n) ∧
    100 * time ≤ n * tick ∧ (n : ℚ) * tick < 100 * time + tick ∧
    ∀ s : Center κ, (centerMachine κ).Reaches Machine.anyStep s → ∀ i c b, s.Runs i c →
      s.battleRef.get c.battleId = some b → b.frameRate = frameRate → b.maxTime = maxTime →
        s.Makes i c n tick

/-- A loop makes as many passes as the battle has frames. -/
theorem Paced.makes (h : s.Paced) (hwf : s.Wf) {i : ℕ} {c : Starter} {b : Battle κ} {n tick : ℕ}
    (hc : s.Runs i c) (hb : s.battleRef.get c.battleId = some b)
    (htick : tickOf b.frameRate = .ofNat tick) (htick' : tick ≤ 100) (hn : n < 2 ^ 63)
    (hmax : (maxFrameOf b.frameRate b.maxTime).value = some (.fin n)) : s.Makes i c n tick := by
  rw [← h.maxFrame c.battleId b hb] at hmax
  obtain ⟨hframe, hctick⟩ := h.running i c b hc hb
  rw [htick] at hctick
  have hle := h.bounded i c b n hc hb hn hmax
  have hplays := lt_of_plays hn hle hmax hframe (hwf.isEnd _ b hb)
  have hsleep : canSleep c.tick = true := by
    rw [hctick]
    rfl
  have hlength : i < s.starters.length := (List.getElem?_eq_some_iff.mp hc.1).1
  have hwake (hstage : c.stage = .sleeping) : s.wake i = some (s.runPass i c, .returned true) := by
    simp [wake, hc.1, hstage]
  have hvalue : c.tick.value = some (.fin tick) := by
    rw [hctick]
    exact value_ofNat (by omega)
  refine ⟨hvalue, hle, fun hstage hlt => ⟨_, hwake hstage, ?_⟩, fun hstage heq =>
    ⟨_, hwake hstage, ?_⟩, fun hstage => ?_⟩
  · unfold runPass
    rw [pass_of_plays s c.tick hb (hplays.mpr hlt)]
    simp [hlength, hsleep, hstage]
  · have hover (b' : Battle κ) (hb' : s.battleRef.get c.battleId = some b') : b'.plays = false := by
      obtain rfl : b = b' := Option.some.inj (hb.symm.trans hb')
      exact (Bool.not_eq_true _).mp fun hp => absurd (hplays.mp hp) (by omega)
    unfold runPass
    rw [pass_of_over s c.tick hover]
    simp [hlength]
  · rcases h.ended i c b hc hb hstage with hover | hno
    · have : ¬ c.rounds < n := fun hlt => absurd (hplays.mpr hlt) (by simp [hover])
      omega
    · exact absurd hsleep (by simp [hno])

/-- A time whose milliseconds do not wrap around. -/
theorem lasts_iff_of_fits {frameRate maxTime : LuaNum}
    (hlow : LuaNum.le (.ofNat 1) frameRate = true) (hhigh : LuaNum.lt frameRate (.ofNat 100) = true)
    (hpos : LuaNum.lt (.ofNat 0) maxTime = true) (hfits : FitsMillis maxTime) :
    Lasts κ frameRate maxTime ↔ LuaNum.lt (.ofNat 0) (framesOf frameRate maxTime) = true ∧
      LuaNum.le (framesOf frameRate maxTime) (.ofNat 1) = true := by
  obtain ⟨tick, htick, htick', heq⟩ := tickOf_eq hlow hhigh
  have hinf (h : framesOf frameRate maxTime = .float (some (.inf false))) :
      Lasts κ frameRate maxTime ↔
        LuaNum.lt (.ofNat 0) (framesOf frameRate maxTime) = true ∧
          LuaNum.le (framesOf frameRate maxTime) (.ofNat 1) = true := by
    refine iff_of_false ?_ ?_
    · rintro ⟨n, -, -, -, -, hmax, -⟩
      change (framesOf frameRate maxTime).ceil.value = _ at hmax
      rw [h] at hmax
      simp [LuaNum.ceil, LuaNum.value] at hmax
    · rintro ⟨-, hle⟩
      rw [h, LuaNum.le, value_ofNat (by norm_num)] at hle
      simp [LuaNum.value, LuaFloat.le, LuaNumber.lt] at hle
  rcases framesOf_cases htick htick' heq hpos hfits with h | ⟨time, p, htime, hvalue, hp, h⟩
  · exact hinf h
  cases hx : roundDouble (p / tick) with
  | inf neg =>
    have hp₀ := roundDouble_nonneg (by positivity) hp
    refine hinf (h.trans ?_)
    rcases hp₀.eq_or_lt with rfl | hp₀
    · rw [zero_div] at hx
      exact absurd hx (by simp [roundDouble])
    · have hquot : p / tick ≠ 0 := by positivity
      rw [roundDouble_eq hquot] at hx ⊢
      split_ifs at hx with hlt
      rw [if_neg hlt]
  | fin x =>
    rw [hx] at h
    have hceil : (maxFrameOf frameRate maxTime).value = some (.fin ⌈x⌉) := by
      change (framesOf frameRate maxTime).ceil.value = _
      rw [h]
      exact value_ofIntegral _
    have hcond : (LuaNum.lt (.ofNat 0) (framesOf frameRate maxTime) = true ∧
        LuaNum.le (framesOf frameRate maxTime) (.ofNat 1) = true) ↔ 0 < x ∧ x ≤ 1 := by
      rw [h, LuaNum.lt, LuaNum.le, value_ofNat (by norm_num), value_ofNat (by norm_num)]
      simp [LuaNum.value, LuaFloat.lt, LuaFloat.le, LuaNumber.lt, le_iff_lt_or_eq]
    rw [hcond, ← frames_fill_iff htick htime hp hx]
    constructor
    · rintro ⟨n, tick', time', htick₂, htime₂, hmax, hfill, hfill', -⟩
      have hn : (n : ℚ) = ⌈x⌉ := by
        simpa using hmax.symm.trans hceil
      have htick₃ : (tick' : ℚ) = tick := by
        rw [heq, value_ofNat (by omega)] at htick₂
        simpa using htick₂.symm
      obtain rfl : time' = time := by simpa using htime₂.symm.trans hvalue
      rw [hn, htick₃] at hfill hfill'
      exact ⟨hfill, hfill'⟩
    · intro hfill
      obtain ⟨hx₀, hx₁⟩ := (frames_fill_iff htick htime hp hx).mp hfill
      have hone : ⌈x⌉ = 1 := Int.ceil_eq_iff.mpr ⟨by push_cast; linarith, by push_cast; exact hx₁⟩
      rw [hone] at hceil hfill
      have hticks : (tickOf frameRate).value = some (.fin tick) := by
        rw [heq]
        exact value_ofNat (by omega)
      refine ⟨1, tick, time, hticks, hvalue, by simpa using hceil, by simpa using hfill.1,
        by simpa using hfill.2, fun s hs i c b hc hb hrate htime' => ?_⟩
      have hinv : s.Wf ∧ s.Paced := by
        refine hs.invariant (I := fun s : Center κ => s.Wf ∧ s.Paced) ⟨.ctor, ?_⟩
          fun s e t hs _ hstep => ?_
        · refine ⟨fun id b hb => ?_, fun id b hb => ?_, fun i c b hc => ?_, fun i c b hc => ?_,
            fun i c b n hc => ?_⟩
          · exact absurd ((Center.ctor_battleRef id).symm.trans hb) (by simp)
          · exact absurd ((Center.ctor_battleRef id).symm.trans hb) (by simp)
          all_goals exact absurd hc (Center.ctor_runs i c)
        · obtain ⟨⟨t', a⟩, ha, rfl⟩ := Option.map_eq_some_iff.mp hstep
          exact ⟨hs.1.step ha, hs.2.step hs.1 ha⟩
      exact hinv.2.makes hinv.1 hc hb (hrate ▸ heq) htick' (by norm_num)
        (hrate ▸ htime' ▸ by simpa using hceil)

/-- `createBattle` computes one frame: the time is at most as many milliseconds as the tick has
units. -/
structure OneFrame (frameRate maxTime : LuaNum) : Prop where
  fits : FitsMillis maxTime
  pos : LuaNum.lt (.ofNat 0) (framesOf frameRate maxTime) = true
  le : LuaNum.le (framesOf frameRate maxTime) (.ofNat 1) = true

end Center

/-- **How long a battle lasts**: with a frame rate from 1 up to 100 the loop sleeps for the time,
and less than a tick more, when the battle has one frame, and for a time whose milliseconds do not
wrap around only then. -/
theorem lasts_iff {κ : Type*} {frameRate maxTime : LuaNum}
    (hlow : LuaNum.le (.ofNat 1) frameRate = true) (hhigh : LuaNum.lt frameRate (.ofNat 100) = true)
    (hpos : LuaNum.lt (.ofNat 0) maxTime = true) :
    (Center.OneFrame frameRate maxTime → Center.Lasts κ frameRate maxTime) ∧
      (FitsMillis maxTime →
        (Center.Lasts κ frameRate maxTime ↔ Center.OneFrame frameRate maxTime)) := by
  have hiff (hfits : FitsMillis maxTime) :
      Center.Lasts κ frameRate maxTime ↔ Center.OneFrame frameRate maxTime := by
    rw [Center.lasts_iff_of_fits hlow hhigh hpos hfits]
    exact ⟨fun h => ⟨hfits, h.1, h.2⟩, fun h => ⟨h.pos, h.le⟩⟩
  exact ⟨fun hone => (hiff hone.fits).mpr hone, hiff⟩

/-- A battle of 1/256 second, at 16 frames a second: one frame, and a sleep of 60 ms. -/
theorem lasts_iff_short : Center.Lasts ℕ (.ofNat 16) (.float (some (.fin (1 / 256)))) :=
  (lasts_iff (by decide) (by decide) (by decide +kernel)).1
    ⟨by simp [FitsMillis], by decide +kernel, by decide +kernel⟩

/-- A battle of 300 seconds, at 16 frames a second: 50000 frames of 60 ms. -/
theorem not_lasts_long : ¬ Center.Lasts ℕ (.ofNat 16) (.ofNat 300) := by
  rintro ⟨n, tick, time, htick, htime, hmax, -, hlt, -⟩
  have htick' : (tickOf (.ofNat 16)).value = some (.fin 6) := by decide +kernel
  have htime' : (LuaNum.ofNat 300).value = some (.fin 300) := by decide +kernel
  have hmax' : (maxFrameOf (.ofNat 16) (.ofNat 300)).value = some (.fin 50000) := by decide +kernel
  obtain htick := LuaNumber.fin.inj (Option.some.inj (htick.symm.trans htick'))
  obtain htime := LuaNumber.fin.inj (Option.some.inj (htime.symm.trans htime'))
  obtain hmax := LuaNumber.fin.inj (Option.some.inj (hmax.symm.trans hmax'))
  rw [htick, htime, hmax] at hlt
  norm_num at hlt

end LuaKcp
