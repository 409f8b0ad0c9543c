import LuaKcp.Foundations.Arithmetic

/-!
# Rounding to doubles

What is used of the rounding of a rational that is not negative: it does not go past a small
integer (`roundDouble_le`, `le_roundDouble`), so that it is exact on small integers, and outside
the underflow it loses at most half (`half_le_roundDouble`). The sign survives all arithmetic on
doubles (`NotNeg`), so that only integers, which wrap around, leave the numbers that are not
negative.
-/

namespace LuaKcp

theorem scale_two (e : ℤ) : scale 2 e = 2 ^ e := by
  cases e with
  | ofNat n =>
    change ((2 ^ n : ℕ) : ℚ) = _
    simp
  | negSucc n =>
    change mkRat 1 (2 ^ (n + 1)) = _
    rw [Rat.mkRat_eq_div, zpow_negSucc]
    push_cast
    rw [one_div]

/-- The power of two taken is not above the number. -/
theorem scale_floorLog2_le {q : ℚ} (h : 0 < q) : (2 : ℚ) ^ floorLog2 q ≤ q := by
  unfold floorLog2
  dsimp only
  split_ifs with hle
  · rwa [scale_two] at hle
  · have hnum : 0 < q.num := Rat.num_pos.mpr h
    have hlow : (2 : ℚ) ^ Nat.log2 q.num.natAbs ≤ q.num := by
      have : 2 ^ Nat.log2 q.num.natAbs ≤ q.num.natAbs := Nat.log2_self_le (by omega)
      have hcast : ((2 ^ Nat.log2 q.num.natAbs : ℕ) : ℤ) ≤ q.num := by omega
      exact_mod_cast hcast
    have hhigh : (q.den : ℚ) ≤ 2 ^ (Nat.log2 q.den + 1) := by
      have : q.den < 2 ^ (Nat.log2 q.den + 1) := Nat.lt_log2_self
      exact_mod_cast this.le
    have hden : (0 : ℚ) < q.den := by exact_mod_cast q.den_pos
    calc (2 : ℚ) ^ ((Nat.log2 q.num.natAbs : ℤ) - Nat.log2 q.den - 1)
        = 2 ^ Nat.log2 q.num.natAbs / 2 ^ (Nat.log2 q.den + 1) := by
          rw [sub_sub, zpow_sub₀ two_ne_zero, zpow_natCast]
          norm_cast
      _ ≤ q.num / q.den := div_le_div₀ (by exact_mod_cast hnum.le) hlow hden hhigh
      _ = q := Rat.num_div_den q

/-! ## Rounding to an integer -/

theorem le_roundHalfEven {m : ℤ} {q : ℚ} (h : m ≤ q) : m ≤ roundHalfEven q := by
  have hfloor : m ≤ ⌊q⌋ := Int.le_floor.mpr h
  unfold roundHalfEven
  dsimp only
  split_ifs
  · exact hfloor
  · omega
  · omega

theorem roundHalfEven_le {m : ℤ} {q : ℚ} (h : q ≤ m) : roundHalfEven q ≤ m := by
  have hfloor : (⌊q⌋ : ℚ) ≤ q := Int.floor_le q
  have hm : ⌊q⌋ ≤ m := by exact_mod_cast hfloor.trans h
  unfold roundHalfEven
  dsimp only
  split_ifs with hlow hhigh
  · exact hm
  all_goals
    -- the number is not an integer, so that its floor is below the bound
    have hne : ⌊q⌋ ≠ m := by
      rintro rfl
      linarith
    omega

theorem sub_half_le_roundHalfEven (q : ℚ) : q - 1 / 2 ≤ roundHalfEven q := by
  have hlt : q < ⌊q⌋ + 1 := Int.lt_floor_add_one q
  have hmod : (0 : ℚ) ≤ (⌊q⌋ % 2 : ℤ) := by exact_mod_cast Int.emod_nonneg _ two_ne_zero
  unfold roundHalfEven
  dsimp only
  split_ifs with hlow hhigh
  · linarith
  · push_cast
    linarith
  · rw [Int.cast_add]
    linarith

/-! ## Rounding to a double -/

/-- The distance of the doubles around a number. -/
def ulp (q : ℚ) : ℚ := 2 ^ max (floorLog2 q - 52) (-1074)

theorem ulp_pos (q : ℚ) : 0 < ulp q := zpow_pos two_pos _

theorem roundDouble_eq {q : ℚ} (h : q ≠ 0) : roundDouble q =
    if roundHalfEven (q / ulp q) * ulp q < 2 ^ (1024 : ℤ)
    then .fin (roundHalfEven (q / ulp q) * ulp q) else .inf false := by
  unfold roundDouble ulp
  rw [if_neg h]
  simp only [scale_two]

/-- A small integer is a multiple of the distance of the doubles around a smaller number. -/
theorem natCast_div_ulp {q : ℚ} (k : ℕ) (h : floorLog2 q ≤ 52) :
    ∃ m : ℤ, (k : ℚ) / ulp q = m := by
  obtain ⟨j, hj⟩ : ∃ j : ℕ, max (floorLog2 q - 52) (-1074) = -(j : ℤ) :=
    ⟨(-max (floorLog2 q - 52) (-1074)).toNat, by omega⟩
  refine ⟨(k * 2 ^ j : ℕ), ?_⟩
  rw [ulp, hj, zpow_neg, zpow_natCast, div_inv_eq_mul]
  push_cast
  ring

theorem floorLog2_le {q : ℚ} (hq : 0 < q) {k : ℕ} (hk : k ≤ 2 ^ 52) (h : q ≤ k) :
    floorLog2 q ≤ 52 := by
  have hpow : (2 : ℚ) ^ floorLog2 q ≤ 2 ^ (52 : ℤ) := by
    refine (scale_floorLog2_le hq).trans (h.trans ?_)
    exact_mod_cast hk
  exact (zpow_le_zpow_iff_right₀ one_lt_two).mp hpow

/-- Rounding does not go above a small integer. -/
theorem roundDouble_le {q : ℚ} (hq : 0 ≤ q) {k : ℕ} (hk : k ≤ 2 ^ 52) (h : q ≤ k) :
    ∃ r, roundDouble q = .fin r ∧ 0 ≤ r ∧ r ≤ k := by
  rcases hq.eq_or_lt with rfl | hq
  · exact ⟨0, rfl, le_rfl, h⟩
  obtain ⟨m, hm⟩ := natCast_div_ulp k (floorLog2_le hq hk h)
  have hulp := ulp_pos q
  have hle : roundHalfEven (q / ulp q) ≤ m := by
    refine roundHalfEven_le ?_
    rw [← hm]
    exact div_le_div_of_nonneg_right h hulp.le
  have hnonneg : 0 ≤ roundHalfEven (q / ulp q) := le_roundHalfEven (by positivity)
  have hbound : roundHalfEven (q / ulp q) * ulp q ≤ k := by
    rw [← div_mul_cancel₀ (k : ℚ) hulp.ne', hm]
    exact mul_le_mul_of_nonneg_right (by exact_mod_cast hle) hulp.le
  have hmax : (k : ℚ) < 2 ^ (1024 : ℤ) := by
    have : (k : ℚ) ≤ 2 ^ (52 : ℤ) := by exact_mod_cast hk
    exact this.trans_lt (zpow_lt_zpow_right₀ one_lt_two (by norm_num))
  refine ⟨_, ?_, mul_nonneg (by exact_mod_cast hnonneg) hulp.le, hbound⟩
  rw [roundDouble_eq hq.ne', if_pos (hbound.trans_lt hmax)]

/-- Rounding does not go below a small integer. -/
theorem le_roundDouble {q : ℚ} {k : ℕ} (hpos : 0 < k) (hk : k ≤ 2 ^ 52) (h : (k : ℚ) ≤ q) {r : ℚ}
    (hr : roundDouble q = .fin r) : (k : ℚ) ≤ r := by
  have hq : 0 < q := lt_of_lt_of_le (by exact_mod_cast hpos) h
  rw [roundDouble_eq hq.ne'] at hr
  split_ifs at hr
  obtain rfl := LuaNumber.fin.inj hr
  have hulp := ulp_pos q
  by_cases hlog : floorLog2 q ≤ 52
  · obtain ⟨m, hm⟩ := natCast_div_ulp k hlog
    have hle : m ≤ roundHalfEven (q / ulp q) := by
      refine le_roundHalfEven ?_
      rw [← hm]
      exact div_le_div_of_nonneg_right h hulp.le
    rw [← div_mul_cancel₀ (k : ℚ) hulp.ne', hm]
    exact mul_le_mul_of_nonneg_right (by exact_mod_cast hle) hulp.le
  · -- far above the integer the doubles are more than 1 apart
    have hone : 1 ≤ ulp q := one_le_zpow₀ one_le_two (by omega)
    have hexp : floorLog2 q = 52 + max (floorLog2 q - 52) (-1074) := by omega
    have hle : ((2 ^ 52 : ℤ)) ≤ roundHalfEven (q / ulp q) := by
      refine le_roundHalfEven ?_
      rw [le_div_iff₀ hulp]
      calc (((2 ^ 52 : ℤ)) : ℚ) * ulp q = 2 ^ floorLog2 q := by
            conv_rhs => rw [hexp, zpow_add₀ two_ne_zero]
            norm_num [ulp]
        _ ≤ q := scale_floorLog2_le hq
    calc (k : ℚ) ≤ (2 ^ 52 : ℤ) := by exact_mod_cast hk
      _ ≤ roundHalfEven (q / ulp q) := by exact_mod_cast hle
      _ ≤ roundHalfEven (q / ulp q) * ulp q :=
        le_mul_of_one_le_right (by exact_mod_cast (le_trans (by norm_num) hle)) hone

/-- Small integers are doubles. -/
theorem roundDouble_natCast {k : ℕ} (hk : k ≤ 2 ^ 52) : roundDouble k = .fin k := by
  rcases k.eq_zero_or_pos with rfl | hpos
  · rfl
  obtain ⟨r, hr, -, hle⟩ := roundDouble_le k.cast_nonneg hk le_rfl
  rw [hr, le_antisymm hle (le_roundDouble hpos hk le_rfl hr)]

/-- Outside the underflow rounding loses at most half. -/
theorem half_le_roundDouble {q : ℚ} (hq : 2 ^ (-1074 : ℤ) ≤ q) {r : ℚ}
    (hr : roundDouble q = .fin r) : q / 2 ≤ r := by
  have hpos : 0 < q := lt_of_lt_of_le (zpow_pos two_pos _) hq
  rw [roundDouble_eq hpos.ne'] at hr
  split_ifs at hr
  obtain rfl := LuaNumber.fin.inj hr
  have hulp := ulp_pos q
  have hle : ulp q ≤ q := by
    unfold ulp
    rcases max_choice (floorLog2 q - 52) (-1074) with h | h
    · rw [h]
      exact (zpow_le_zpow_right₀ one_le_two (by omega)).trans (scale_floorLog2_le hpos)
    · rw [h]
      exact hq
  calc q / 2 ≤ (q / ulp q - 1 / 2) * ulp q := by
        rw [sub_mul, div_mul_cancel₀ _ hulp.ne']
        linarith
    _ ≤ roundHalfEven (q / ulp q) * ulp q :=
      mul_le_mul_of_nonneg_right (sub_half_le_roundHalfEven _) hulp.le

theorem roundDouble_nonneg {q : ℚ} (hq : 0 ≤ q) {r : ℚ} (hr : roundDouble q = .fin r) : 0 ≤ r := by
  rcases hq.eq_or_lt with rfl | hq
  · obtain rfl := LuaNumber.fin.inj hr
    exact le_rfl
  rw [roundDouble_eq hq.ne'] at hr
  split_ifs at hr
  obtain rfl := LuaNumber.fin.inj hr
  have hulp := ulp_pos q
  have hnonneg : 0 ≤ roundHalfEven (q / ulp q) := le_roundHalfEven (by positivity)
  exact mul_nonneg (by exact_mod_cast hnonneg) (ulp_pos q).le

theorem roundRat_of_nonneg {q : ℚ} (h : 0 ≤ q) : roundRat q = roundDouble q :=
  if_neg (not_lt.mpr h)

/-! ## Integers as numbers -/

theorem toFloat_integer {n : BitVec 64} {k : ℕ} (hn : n.toInt = k) (hk : k ≤ 2 ^ 52) :
    (LuaNum.integer n).toFloat = some (.fin k) := by
  change some (roundRat (n.toInt : ℚ)) = _
  rw [hn, Int.cast_natCast, roundRat_of_nonneg k.cast_nonneg, roundDouble_natCast hk]

theorem toInt_ofNat {k : ℕ} (hk : k < 2 ^ 63) : (BitVec.ofNat 64 k).toInt = k := by
  have htoNat : (BitVec.ofNat 64 k).toNat = k := by
    rw [BitVec.toNat_ofNat]
    omega
  rw [BitVec.toInt_eq_toNat_of_lt (by omega), htoNat]

theorem toFloat_ofNat {k : ℕ} (hk : k ≤ 2 ^ 52) : (LuaNum.ofNat k).toFloat = some (.fin k) :=
  toFloat_integer (toInt_ofNat (by omega)) hk

theorem value_ofNat {k : ℕ} (hk : k < 2 ^ 63) : (LuaNum.ofNat k).value = some (.fin k) := by
  unfold LuaNum.ofNat LuaNum.value LuaNumber.ofInt
  dsimp only
  rw [toInt_ofNat hk, Int.cast_natCast]

theorem value_ofIntegral (n : ℤ) : (LuaNum.ofIntegral n).value = some (.fin n) := by
  unfold LuaNum.ofIntegral
  split_ifs with h
  · unfold LuaNum.value LuaNumber.ofInt
    dsimp only
    rw [BitVec.toInt_ofInt]
    congr 3
    exact Int.bmod_eq_of_le_mul_two (by omega) (by omega)
  · rfl

/-! ## The sign -/

namespace LuaFloat

/-- The double is not below zero; NaN is not. -/
def NotNeg (x : LuaFloat) : Prop := x.lt (some (.fin 0)) = false

@[simp] theorem notNeg_none : NotNeg none := rfl

@[simp] theorem notNeg_fin {q : ℚ} : NotNeg (some (.fin q)) ↔ 0 ≤ q := by
  simp [NotNeg, lt, LuaNumber.lt]

@[simp] theorem notNeg_inf {neg : Bool} : NotNeg (some (.inf neg)) ↔ neg = false := Iff.rfl

theorem notNeg_roundRat {q : ℚ} (h : 0 ≤ q) : NotNeg (some (roundRat q)) := by
  rw [roundRat_of_nonneg h]
  rcases h.eq_or_lt with rfl | hpos
  · exact notNeg_fin.mpr le_rfl
  cases hr : roundDouble q with
  | fin r => exact notNeg_fin.mpr (roundDouble_nonneg h hr)
  | inf neg =>
    rw [roundDouble_eq hpos.ne'] at hr
    split_ifs at hr
    exact notNeg_inf.mpr (LuaNumber.inf.inj hr).symm

variable {x y : LuaFloat}

theorem NotNeg.mul (hx : x.NotNeg) (hy : y.NotNeg) : (x.mul y).NotNeg := by
  rcases x with - | a | neg
  · exact notNeg_none
  · rw [notNeg_fin] at hx
    rcases y with - | b | neg'
    · exact notNeg_none
    · exact notNeg_roundRat (mul_nonneg hx (notNeg_fin.mp hy))
    · rw [notNeg_inf] at hy
      simp only [LuaFloat.mul]
      split_ifs
      · exact notNeg_none
      · simp [hy, not_lt.mpr hx]
  · rw [notNeg_inf] at hx
    rcases y with - | b | neg'
    · exact notNeg_none
    · rw [notNeg_fin] at hy
      simp only [LuaFloat.mul]
      split_ifs
      · exact notNeg_none
      · simp [hx, not_lt.mpr hy]
    · rw [notNeg_inf] at hy
      simp [LuaFloat.mul, hx, hy]

theorem NotNeg.div (hx : x.NotNeg) (hy : y.NotNeg) : (x.div y).NotNeg := by
  rcases x with - | a | neg
  · exact notNeg_none
  · rw [notNeg_fin] at hx
    rcases y with - | b | neg'
    · exact notNeg_none
    · simp only [LuaFloat.div]
      split_ifs
      · exact notNeg_none
      · simp [not_lt.mpr hx]
      · exact notNeg_roundRat (div_nonneg hx (notNeg_fin.mp hy))
    · exact notNeg_fin.mpr le_rfl
  · rw [notNeg_inf] at hx
    rcases y with - | b | neg'
    · exact notNeg_none
    · rw [notNeg_fin] at hy
      simp [LuaFloat.div, hx, not_lt.mpr hy]
    · exact notNeg_none

theorem NotNeg.not_le (hx : x.NotNeg) {q : ℚ} (hq : q < 0) : x.le (some (.fin q)) = false := by
  rcases x with - | a | neg
  · rfl
  · have ha : q < a := hq.trans_le (notNeg_fin.mp hx)
    simp [le, LuaNumber.lt, ha.le, ha.ne']
  · rw [notNeg_inf.mp hx]
    rfl

theorem NotNeg.toFloat_floor (hx : x.NotNeg) : (LuaNum.float x).floor.toFloat.NotNeg := by
  rcases x with - | a | neg
  · exact hx
  · have hfloor : 0 ≤ ⌊a⌋ := Int.floor_nonneg.mpr (notNeg_fin.mp hx)
    have hvalue := value_ofIntegral ⌊a⌋
    change (LuaNum.ofIntegral ⌊a⌋).toFloat.NotNeg
    unfold LuaNum.ofIntegral at hvalue ⊢
    split_ifs at hvalue ⊢
    · have hint : ((BitVec.ofInt 64 ⌊a⌋).toInt : ℚ) = ⌊a⌋ :=
        LuaNumber.fin.inj (Option.some.inj hvalue)
      refine notNeg_roundRat ?_
      rw [hint]
      exact_mod_cast hfloor
    · exact notNeg_fin.mpr (by exact_mod_cast hfloor)
  · exact hx

end LuaFloat

theorem LuaNum.notNeg_toFloat {a : LuaNum} (h : a.le (.ofNat 0) = false) : a.toFloat.NotNeg := by
  unfold LuaNum.le at h
  rw [value_ofNat (by norm_num), Nat.cast_zero] at h
  cases a with
  | integer n =>
    simp only [value, LuaFloat.le, LuaNumber.ofInt, LuaNumber.lt, Bool.or_eq_false_iff,
      decide_eq_false_iff_not, not_lt] at h
    exact LuaFloat.notNeg_roundRat h.1
  | float x =>
    rcases x with - | q | neg
    · exact LuaFloat.notNeg_none
    · simp only [value, LuaFloat.le, LuaNumber.lt, Bool.or_eq_false_iff, decide_eq_false_iff_not,
        not_lt] at h
      exact LuaFloat.notNeg_fin.mpr h.1
    · cases neg with
      | false => rfl
      | true => exact absurd h (by decide)

/-- A number is rounded up to a negative one when it is -1 or less. -/
theorem LuaNum.lt_ceil (x : LuaFloat) :
    LuaNum.lt (LuaNum.float x).ceil (.ofNat 0) = x.le (some (.fin (-1))) := by
  unfold LuaNum.lt
  rw [value_ofNat (by norm_num), Nat.cast_zero]
  rcases x with - | q | neg
  · rfl
  · have hceil : ⌈q⌉ < 0 ↔ q ≤ -1 := by
      rw [Int.lt_iff_add_one_le, ← le_sub_iff_add_le, Int.ceil_le]
      norm_num
    change LuaFloat.lt (LuaNum.ofIntegral ⌈q⌉).value _ = _
    rw [value_ofIntegral]
    simp only [LuaFloat.lt, LuaFloat.le, LuaNumber.lt]
    rw [← Bool.decide_or, decide_eq_decide, LuaNumber.fin.injEq, ← le_iff_lt_or_eq, ← hceil]
    exact Int.cast_lt_zero
  · cases neg <;> rfl

end LuaKcp
