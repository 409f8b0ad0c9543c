import LuaKcp.Foundations.Bytes
import Mathlib.Data.List.TakeWhile
import Mathlib.Data.Rat.Floor

/-!
# Lua numbers and their texts

The numbers of Lua 5.3 as values: the integers and floats are compared exactly, so a number is a
rational or an infinity, and is an integer for `%d` when its value is one and fits 64 bits.
`tonumber` follows the conversion of the reference implementation: an optional sign, a decimal or
hexadecimal integer, else a float rounded to the nearest double, with blanks around it. A number
written by `%d` is read back (`tonumber_natDigits`).
-/

namespace LuaKcp

/-- The value of a Lua number that is not NaN; no text converts to NaN. -/
inductive LuaNumber
  | fin (q : ℚ)
  | inf (neg : Bool)
  deriving DecidableEq

namespace LuaNumber

/-- The value of an integer. -/
def ofInt (n : ℤ) : LuaNumber := fin n

/-- The comparison `<`. -/
def lt : LuaNumber → LuaNumber → Bool
  | fin a, fin b => decide (a < b)
  | inf neg, fin _ => neg
  | fin _, inf neg => !neg
  | inf neg, inf neg' => neg && !neg'

/-- The integer that a number represents, when it has an integer representation. -/
def toInteger : LuaNumber → Option ℤ
  | fin q => if q.den = 1 ∧ -2 ^ 63 ≤ q.num ∧ q.num < 2 ^ 63 then some q.num else none
  | inf _ => none

theorem toInteger_ofInt {n : ℤ} (h : -2 ^ 63 ≤ n ∧ n < 2 ^ 63) : (ofInt n).toInteger = some n := by
  simp only [ofInt, toInteger, Rat.den_intCast, Rat.num_intCast, true_and]
  exact if_pos h

end LuaNumber

/-! ## Digits -/

/-- The decimal digits of a number. -/
def natDigits (n : ℕ) : Bytes :=
  if n < 10 then [UInt8.ofNat (48 + n)] else natDigits (n / 10) ++ [UInt8.ofNat (48 + n % 10)]

/-- `string.format("%d", n)` for an integer. -/
def intDigits (n : ℤ) : Bytes := if n < 0 then 45 :: natDigits n.natAbs else natDigits n.natAbs

/-- `string.format("%d", v)`; `none` stands for the error raised for a number without an integer
representation. -/
def formatD (v : LuaNumber) : Option Bytes := v.toInteger.map intDigits

def isSpace (b : UInt8) : Bool := b == 32 || (9 ≤ b && b ≤ 13)

def isDigit (b : UInt8) : Bool := 48 ≤ b && b ≤ 57

def isHexDigit (b : UInt8) : Bool := isDigit b || (97 ≤ b && b ≤ 102) || (65 ≤ b && b ≤ 70)

def hexDigit (b : UInt8) : ℕ :=
  if isDigit b then b.toNat - 48 else if 97 ≤ b then b.toNat - 87 else b.toNat - 55

/-- The number written by digits of a base. -/
def digitsValue (base : ℕ) (digits : Bytes) : ℕ :=
  digits.foldl (fun a d => base * a + hexDigit d) 0

/-! ## Conversion of a text -/

/-- An optional sign: whether it is a minus, and the text after it. -/
def takeSign : Bytes → Bool × Bytes
  | [] => (false, [])
  | b :: s => if b = 45 then (true, s) else if b = 43 then (false, s) else (false, b :: s)

/-- The text after `0x`. -/
def hexPrefix : Bytes → Option Bytes
  | b :: c :: s => if b = 48 ∧ (c = 120 ∨ c = 88) then some s else none
  | _ => none

/-- `l_str2int`: hexadecimal integers wrap around, decimal ones must fit. -/
def str2int (s : Bytes) : Option ℤ :=
  let sign := takeSign (s.dropWhile isSpace)
  match hexPrefix sign.2 with
  | some s =>
    if s.takeWhile isHexDigit = [] ∨ ¬ (s.dropWhile isHexDigit).all isSpace then none
    else
      let a := BitVec.ofNat 64 (digitsValue 16 (s.takeWhile isHexDigit))
      some (if sign.1 then (-a).toInt else a.toInt)
  | none =>
    if sign.2.takeWhile isDigit = [] ∨ ¬ (sign.2.dropWhile isDigit).all isSpace then none
    else
      let a := digitsValue 10 (sign.2.takeWhile isDigit)
      if sign.1 then if a ≤ 2 ^ 63 then some (-a) else none
      else if a < 2 ^ 63 then some a else none

/-- A power of a base with an exponent of either sign. -/
def scale (base : ℕ) : ℤ → ℚ
  | .ofNat n => (base ^ n : ℕ)
  | .negSucc n => mkRat 1 (base ^ (n + 1))

/-- The exponent of the highest power of two not above a positive rational. -/
def floorLog2 (q : ℚ) : ℤ :=
  let e := (Nat.log2 q.num.natAbs : ℤ) - Nat.log2 q.den
  if scale 2 e ≤ q then e else e - 1

/-- Rounding to an integer, ties to even. -/
def roundHalfEven (q : ℚ) : ℤ :=
  let k := ⌊q⌋
  if q - k < 1 / 2 then k else if 1 / 2 < q - k then k + 1 else k + k % 2

/-- The nearest double of a rational that is not negative. -/
def roundDouble (q : ℚ) : LuaNumber :=
  if q = 0 then .fin 0
  else
    let ulp := scale 2 (max (floorLog2 q - 52) (-1074))
    let r := roundHalfEven (q / ulp) * ulp
    if r < scale 2 1024 then .fin r else .inf false

/-- The digits before and after an optional point: their value, how many follow the point, and the
text after them. -/
def readMantissa (base : ℕ) (digit : UInt8 → Bool) (s : Bytes) : Option (ℕ × ℕ × Bytes) :=
  let whole := s.takeWhile digit
  let rest := s.dropWhile digit
  let frac := if rest.head? = some 46 then rest.tail.takeWhile digit else []
  let rest := if rest.head? = some 46 then rest.tail.dropWhile digit else rest
  if whole ++ frac = [] then none
  else some (digitsValue base (whole ++ frac), frac.length, rest)

/-- An optional exponent after the mark `lower` or `upper`; a mark that no digits follow is text
left over, which no number ends with. -/
def readExponent (lower upper : UInt8) : Bytes → Option (ℤ × Bytes)
  | [] => some (0, [])
  | b :: s =>
    if b = lower ∨ b = upper then
      let sign := takeSign s
      let digits := sign.2.takeWhile isDigit
      if digits = [] then none
      else
        let e : ℤ := digitsValue 10 digits
        some (if sign.1 then -e else e, sign.2.dropWhile isDigit)
    else some (0, b :: s)

/-- `strtod` on a text without blanks and sign before the digits. -/
def strtod (s : Bytes) : Option (LuaNumber × Bytes) :=
  match hexPrefix s with
  | some s => do
    let (m, k, s) ← readMantissa 16 isHexDigit s
    let (e, s) ← readExponent 112 80 s
    return (roundDouble (m * scale 2 (e - 4 * k)), s)
  | none => do
    let (m, k, s) ← readMantissa 10 isDigit s
    let (e, s) ← readExponent 101 69 s
    return (roundDouble (m * scale 10 (e - k)), s)

/-- The number with the opposite sign. -/
def LuaNumber.neg : LuaNumber → LuaNumber
  | fin q => fin (-q)
  | inf neg => inf (!neg)

/-- `l_str2d`: a text with an `n` is refused, so that `inf` and `nan` are no numbers. -/
def str2d (s : Bytes) : Option LuaNumber :=
  if s.any fun b => b == 110 || b == 78 then none
  else
    let sign := takeSign (s.dropWhile isSpace)
    (strtod sign.2).bind fun r =>
      if r.2.all isSpace then some (if sign.1 then r.1.neg else r.1) else none

/-- `tonumber` of a string; `none` stands for `nil`. -/
def tonumber (s : Bytes) : Option LuaNumber :=
  if s.contains 0 then none
  else match str2int s with
    | some n => some (.ofInt n)
    | none => str2d s

/-! ## A number written and read back -/

theorem isDigit_ofNat {d : ℕ} (h : d < 10) : isDigit (UInt8.ofNat (48 + d)) = true := by
  interval_cases d <;> rfl

theorem hexDigit_ofNat {d : ℕ} (h : d < 10) : hexDigit (UInt8.ofNat (48 + d)) = d := by
  interval_cases d <;> rfl

theorem isDigit_of_mem_natDigits {n : ℕ} {b : UInt8} (hb : b ∈ natDigits n) :
    isDigit b = true := by
  induction n using Nat.strong_induction_on with
  | _ n ih =>
    unfold natDigits at hb
    split_ifs at hb with h
    · rw [List.mem_singleton.mp hb]
      exact isDigit_ofNat h
    · rcases List.mem_append.mp hb with hb | hb
      · exact ih (n / 10) (by omega) hb
      · rw [List.mem_singleton.mp hb]
        exact isDigit_ofNat (by omega)

theorem natDigits_ne_nil (n : ℕ) : natDigits n ≠ [] := by
  unfold natDigits
  split_ifs <;> simp

theorem digitsValue_natDigits (n : ℕ) : digitsValue 10 (natDigits n) = n := by
  induction n using Nat.strong_induction_on with
  | _ n ih =>
    unfold natDigits
    split_ifs with h
    · simp only [digitsValue, List.foldl_cons, List.foldl_nil, hexDigit_ofNat h]
      omega
    · have := ih (n / 10) (by omega)
      simp only [digitsValue, List.foldl_append, List.foldl_cons, List.foldl_nil] at this ⊢
      rw [this, hexDigit_ofNat (by omega)]
      omega

/-- A number below a power of ten has at most that many digits. -/
theorem length_natDigits_le {n k : ℕ} (hk : 0 < k) (h : n < 10 ^ k) :
    (natDigits n).length ≤ k := by
  induction k generalizing n with
  | zero => omega
  | succ k ih =>
    unfold natDigits
    split_ifs with hn
    · simp
    · have hk : 0 < k := by
        by_contra hk
        have : k = 0 := by omega
        subst this
        omega
      have := ih hk (n := n / 10) (by rw [pow_succ] at h; omega)
      rw [List.length_append]
      simpa using this

theorem length_natDigits_lt {n : ℕ} (h : n < 2 ^ 63) : (natDigits n).length ≤ 19 :=
  length_natDigits_le (by norm_num) (h.trans (by norm_num))

theorem all_natDigits (n : ℕ) : (natDigits n).takeWhile isDigit = natDigits n ∧
    (natDigits n).dropWhile isDigit = [] := by
  constructor
  · exact List.takeWhile_eq_self_iff.mpr fun b hb => isDigit_of_mem_natDigits hb
  · exact List.dropWhile_eq_nil_iff.mpr fun b hb => isDigit_of_mem_natDigits hb

theorem not_mem_natDigits {n : ℕ} {b : UInt8} (h : isDigit b = false) : b ∉ natDigits n :=
  fun hb => by simp [isDigit_of_mem_natDigits hb] at h

/-- A number that `%d` writes as digits. -/
theorem formatD_natCast {n : ℕ} (h : n < 2 ^ 63) : formatD (.ofInt n) = some (natDigits n) := by
  unfold formatD
  rw [LuaNumber.toInteger_ofInt ⟨by omega, by exact_mod_cast h⟩, Option.map_some]
  simp [intDigits]

theorem str2int_natDigits {n : ℕ} (h : n < 2 ^ 63) : str2int (natDigits n) = some (n : ℤ) := by
  have hdig (b : UInt8) (hb : b ∈ natDigits n) : 48 ≤ b.toNat ∧ b.toNat ≤ 57 := by
    simpa [isDigit, UInt8.le_iff_toNat_le] using isDigit_of_mem_natDigits hb
  obtain ⟨b, s, hs⟩ := List.exists_cons_of_ne_nil (natDigits_ne_nil n)
  have hb := hdig b (by simp [hs])
  -- no blank, sign or `0x` before the digits
  have hsign : takeSign ((natDigits n).dropWhile isSpace) = (false, natDigits n) := by
    have hspace : isSpace b = false := by
      simp only [isSpace, UInt8.le_iff_toNat_le, ← UInt8.toNat_inj, Bool.or_eq_false_iff,
        Bool.and_eq_false_iff, beq_eq_false_iff_ne, ne_eq, decide_eq_false_iff_not,
        UInt8.reduceToNat]
      omega
    rw [hs, List.dropWhile_cons_of_neg (by simp [hspace])]
    simp only [takeSign, ← UInt8.toNat_inj, UInt8.reduceToNat]
    rw [if_neg (by omega), if_neg (by omega)]
  have hhex : hexPrefix (natDigits n) = none := by
    rw [hs]
    cases s with
    | nil => rfl
    | cons c s =>
      have hc := hdig c (by simp [hs])
      simp only [hexPrefix, ← UInt8.toNat_inj, UInt8.reduceToNat]
      exact if_neg (by omega)
  obtain ⟨htake, hdrop⟩ := all_natDigits n
  unfold str2int
  simp only [hsign, hhex, htake, hdrop, digitsValue_natDigits]
  rw [if_neg (by simp [natDigits_ne_nil]), if_neg (by simp), if_pos h]

/-- **A number written with `%d` is read back.** -/
theorem tonumber_natDigits {n : ℕ} (h : n < 2 ^ 63) :
    tonumber (natDigits n) = some (.ofInt n) := by
  unfold tonumber
  have h0 : (natDigits n).contains 0 = false := by
    rw [List.contains_eq_mem, decide_eq_false_iff_not]
    exact not_mem_natDigits rfl
  rw [h0, str2int_natDigits h]
  rfl

end LuaKcp
