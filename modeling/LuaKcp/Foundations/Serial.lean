import Mathlib.Data.Int.Order.Basic
import Mathlib.Tactic

/-!
# Serial numbers

Counters kept modulo `2 ^ w` and compared through the sign of their difference. As long as the two
counters are less than half the modulus apart, the signed difference is the difference of the
counters (`serialDiff_ofNat`), so the comparisons made through it are the ones meant. A clock cut to
one bit less than the words it is compared in is compared faithfully until it wraps, and not at all
after that (`serialDiff_cut`).
-/

namespace LuaKcp

/-- The difference of two serial numbers, as a signed word. -/
def serialDiff {w : ℕ} (later earlier : BitVec w) : ℤ := (later - earlier).toInt

variable {w : ℕ}

theorem serialDiff_eq_bmod (a b : ℕ) :
    serialDiff (BitVec.ofNat w a) (BitVec.ofNat w b) = ((a : ℤ) - b).bmod (2 ^ w) := by
  have h (n : ℕ) : (BitVec.ofNat w n).toInt = (n : ℤ).bmod (2 ^ w) := by
    rw [BitVec.toInt_ofNat']
  rw [serialDiff, BitVec.toInt_sub, h, h, Int.sub_bmod_bmod, Int.bmod_sub_bmod]

/-- Counters less than half the modulus apart are compared faithfully. -/
theorem serialDiff_ofNat {a b : ℕ} (h₁ : -(2 ^ w : ℤ) ≤ 2 * ((a : ℤ) - b))
    (h₂ : 2 * ((a : ℤ) - b) < 2 ^ w) :
    serialDiff (BitVec.ofNat w a) (BitVec.ofNat w b) = (a : ℤ) - b := by
  rw [serialDiff_eq_bmod]
  apply Int.bmod_eq_of_le_mul_two <;> push_cast <;> omega

theorem serialDiff_self (a : BitVec w) : serialDiff a a = 0 := by
  rw [serialDiff, BitVec.sub_self, BitVec.toInt_zero]

/-- **A time is reached** by a clock that does not go back: now, by one step, or, from half the
modulus away, after a step of one. -/
theorem serialDiff_reached (hw : 1 < w) (now time : BitVec w) :
    0 ≤ serialDiff now time ∨ 0 ≤ serialDiff time now ∨
      serialDiff (now + 1) time < 0 ∧ 0 ≤ serialDiff time (now + 1) ∧
        0 ≤ serialDiff (now + 1) now := by
  have hpow : 2 ^ 2 ≤ 2 ^ w := Nat.pow_le_pow_right two_pos hw
  have hone : (1 : BitVec w).toNat = 1 := by
    change (1 : ℕ) % 2 ^ w = 1
    exact Nat.mod_eq_of_lt (by omega)
  have hneg (x : BitVec w) (hx : 0 < x.toNat) : (-x).toNat = 2 ^ w - x.toNat := by
    rw [BitVec.toNat_neg]
    exact Nat.mod_eq_of_lt (by omega)
  have hswap (a b : BitVec w) : a - b = -(b - a) := by
    rw [BitVec.neg_sub, BitVec.add_comm, BitVec.sub_eq_add_neg]
  unfold serialDiff
  simp only [BitVec.toInt_pos_iff, BitVec.toInt_neg_iff]
  by_cases hnow : 2 * (now - time).toNat < 2 ^ w
  · exact Or.inl hnow
  by_cases htime : 2 * (time - now).toNat < 2 ^ w
  · exact Or.inr (Or.inl htime)
  -- the two are half the modulus apart
  refine Or.inr (Or.inr ?_)
  have hhalf : 2 * (time - now).toNat = 2 ^ w := by
    rw [hswap now time, hneg _ (by omega)] at hnow
    omega
  have hnext : (time - (now + 1)).toNat = (time - now).toNat - 1 := by
    have hsub : time - (now + 1) = time - now - 1 := by
      rw [BitVec.sub_eq_iff_eq_add, ← BitVec.add_assoc, BitVec.add_comm _ now, BitVec.add_assoc,
        BitVec.sub_add_cancel, BitVec.add_comm, BitVec.sub_add_cancel]
    rw [hsub, BitVec.toNat_sub_of_le (BitVec.le_def.mpr (by omega)), hone]
  have hstep : now + 1 - now = 1 := by
    rw [BitVec.add_comm, BitVec.add_sub_cancel]
  rw [hswap (now + 1) time, hneg _ (by omega), hnext, hstep, hone]
  omega
/-- Differences that are not extreme are opposite. -/
theorem serialDiff_comm {a b : BitVec w} (h : -(2 ^ w : ℤ) < 2 * serialDiff a b) :
    serialDiff b a = -serialDiff a b := by
  have hneg : b - a = -(a - b) := by
    rw [BitVec.neg_sub, BitVec.add_comm, BitVec.sub_eq_add_neg]
  have hlt := BitVec.two_mul_toInt_lt (x := a - b)
  unfold serialDiff at *
  rw [hneg, BitVec.toInt_neg]
  apply Int.bmod_eq_of_le_mul_two <;> push_cast <;> omega

/-- The difference from a number further on. -/
theorem serialDiff_add {a b : BitVec w} {n : ℕ} (h : 2 * (serialDiff a b + n) < 2 ^ w) :
    serialDiff (a + BitVec.ofNat w n) b = serialDiff a b + n := by
  have hsub : a + BitVec.ofNat w n - b = a - b + BitVec.ofNat w n := by
    rw [BitVec.sub_eq_add_neg, BitVec.sub_eq_add_neg, BitVec.add_assoc, BitVec.add_assoc,
      BitVec.add_comm (BitVec.ofNat w n)]
  have hle := BitVec.le_two_mul_toInt (x := a - b)
  unfold serialDiff at *
  rw [hsub, BitVec.toInt_add, BitVec.toInt_ofNat', Int.add_bmod_bmod]
  apply Int.bmod_eq_of_le_mul_two <;> push_cast <;> omega

/-- A difference does not depend on where the numbers are counted from. -/
theorem serialDiff_sub_sub (a b c : BitVec w) :
    serialDiff (a - c) (b - c) = serialDiff a b := by
  unfold serialDiff
  congr 1
  rw [BitVec.sub_eq_iff_eq_add]
  have h := BitVec.sub_add_cancel b c
  have hab := BitVec.sub_add_cancel a b
  rw [BitVec.sub_eq_iff_eq_add, BitVec.add_assoc, h, hab]

/-- **Numbers close above a base** are compared faithfully. -/
theorem serialDiff_above {a b c : BitVec w} (ha : 2 * (a - c).toNat < 2 ^ w)
    (hb : 2 * (b - c).toNat < 2 ^ w) :
    serialDiff a b = ((a - c).toNat : ℤ) - (b - c).toNat := by
  have hcast : ((2 ^ w : ℕ) : ℤ) = 2 ^ w := by push_cast; rfl
  have hdiff := serialDiff_ofNat (w := w) (a := (a - c).toNat) (b := (b - c).toNat)
    (by omega) (by omega)
  rwa [BitVec.ofNat_toNat, BitVec.ofNat_toNat, BitVec.setWidth_eq, BitVec.setWidth_eq,
    serialDiff_sub_sub] at hdiff

/-- Serial numbers of counters less than the modulus apart are equal only for equal counters. -/
theorem ofNat_eq_ofNat_iff {a b : ℕ} (h : a < b + 2 ^ w) (h' : b < a + 2 ^ w) :
    BitVec.ofNat w a = BitVec.ofNat w b ↔ a = b := by
  refine ⟨fun e => ?_, congrArg _⟩
  have e' : a % 2 ^ w = b % 2 ^ w := by simpa using congrArg BitVec.toNat e
  have hdvd : ((2 ^ w : ℕ) : ℤ) ∣ (a : ℤ) - b :=
    (Nat.modEq_iff_dvd.mp (show b ≡ a [MOD 2 ^ w] from e'.symm))
  have h₁ : (a : ℤ) < b + 2 ^ w := by exact_mod_cast h
  have h₂ : (b : ℤ) < a + 2 ^ w := by exact_mod_cast h'
  have := Int.eq_zero_of_abs_lt_dvd hdvd (by rw [abs_lt]; push_cast; constructor <;> linarith)
  omega

/-- **A clock cut to one bit less** than the words compared: of a time set at the reading `a` to
be `d` later, and past at the reading `b`, the words tell that it is past exactly when the clock
has not wrapped between the two readings. -/
theorem serialDiff_cut {a b d : ℕ} (hd : a + d ≤ b) (hb : b < a + 2 ^ w) :
    0 ≤ serialDiff (BitVec.ofNat (w + 1) (b % 2 ^ w)) (BitVec.ofNat (w + 1) (a % 2 ^ w + d)) ↔
      a / 2 ^ w = b / 2 ^ w := by
  have hpow : (2 : ℕ) ^ (w + 1) = 2 * 2 ^ w := by rw [pow_succ, mul_comm]
  have hpos : 0 < 2 ^ w := Nat.two_pow_pos w
  have ha' := Nat.div_add_mod a (2 ^ w)
  have hb' := Nat.div_add_mod b (2 ^ w)
  have hle : a / 2 ^ w ≤ b / 2 ^ w := Nat.div_le_div_right (by omega)
  have hlt : b / 2 ^ w < a / 2 ^ w + 2 := by
    refine Nat.div_lt_of_lt_mul ?_
    rw [mul_add]
    have := Nat.mod_lt a hpos
    omega
  have hdiff : serialDiff (BitVec.ofNat (w + 1) (b % 2 ^ w))
      (BitVec.ofNat (w + 1) (a % 2 ^ w + d)) = ((b % 2 ^ w : ℕ) : ℤ) - (a % 2 ^ w + d : ℕ) := by
    have hmod : b % 2 ^ w < 2 ^ w := Nat.mod_lt b hpos
    rw [serialDiff_eq_bmod, hpow]
    apply Int.bmod_eq_of_le_mul_two
    · rcases (show b / 2 ^ w = a / 2 ^ w ∨ b / 2 ^ w = a / 2 ^ w + 1 by omega) with h | h
      · rw [h] at hb'
        omega
      · rw [h, mul_add] at hb'
        omega
    · omega
  rw [hdiff]
  rcases (show b / 2 ^ w = a / 2 ^ w ∨ b / 2 ^ w = a / 2 ^ w + 1 by omega) with h | h
  · rw [h] at hb'
    exact iff_of_true (by omega) h.symm
  · rw [h, mul_add] at hb'
    have := Nat.mod_lt b hpos
    exact iff_of_false (by omega) (by omega)

end LuaKcp
