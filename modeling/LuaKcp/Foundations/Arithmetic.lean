import LuaKcp.Foundations.Number
import Mathlib.Data.Rat.Floor

/-!
# Lua arithmetic

A Lua number is an integer of 64 bits or a double, and the subtypes decide what the operators do:
integers wrap around, doubles are rounded to the nearest one, and `/` always makes a double.
Comparisons are exact, whatever the subtypes. A double is its value, or NaN; zeros have no sign.
-/

namespace LuaKcp

/-- The value of a double; `none` is NaN. -/
abbrev LuaFloat := Option LuaNumber

/-- A Lua number with its subtype. -/
inductive LuaNum
  | integer (n : BitVec 64)
  | float (x : LuaFloat)
  deriving DecidableEq

/-- The nearest double of a rational. -/
def roundRat (q : ℚ) : LuaNumber := if q < 0 then (roundDouble (-q)).neg else roundDouble q

namespace LuaFloat

/-- The comparison `<`; NaN is in no order. -/
def lt : LuaFloat → LuaFloat → Bool
  | some a, some b => a.lt b
  | _, _ => false

/-- The comparison `<=`. -/
def le : LuaFloat → LuaFloat → Bool
  | some a, some b => a.lt b || decide (a = b)
  | _, _ => false

def mul : LuaFloat → LuaFloat → LuaFloat
  | some (.fin a), some (.fin b) => some (roundRat (a * b))
  | some (.inf neg), some (.fin b) => if b = 0 then none else some (.inf (neg != decide (b < 0)))
  | some (.fin a), some (.inf neg) => if a = 0 then none else some (.inf (neg != decide (a < 0)))
  | some (.inf neg), some (.inf neg') => some (.inf (neg != neg'))
  | _, _ => none

def div : LuaFloat → LuaFloat → LuaFloat
  | some (.fin a), some (.fin b) =>
    if b = 0 then if a = 0 then none else some (.inf (decide (a < 0)))
    else some (roundRat (a / b))
  | some (.inf neg), some (.fin b) => some (.inf (neg != decide (b < 0)))
  | some (.fin _), some (.inf _) => some (.fin 0)
  | _, _ => none

def sub : LuaFloat → LuaFloat → LuaFloat
  | some (.fin a), some (.fin b) => some (roundRat (a - b))
  | some (.inf neg), some (.fin _) => some (.inf neg)
  | some (.fin _), some (.inf neg) => some (.inf (!neg))
  | some (.inf neg), some (.inf neg') => if neg = neg' then none else some (.inf neg)
  | _, _ => none

def add : LuaFloat → LuaFloat → LuaFloat
  | some (.fin a), some (.fin b) => some (roundRat (a + b))
  | some (.inf neg), some (.fin _) => some (.inf neg)
  | some (.fin _), some (.inf neg) => some (.inf neg)
  | some (.inf neg), some (.inf neg') => if neg = neg' then some (.inf neg) else none
  | _, _ => none

/-- `fmod`: what the division leaves, its quotient cut towards zero. -/
def fmod : LuaFloat → LuaFloat → LuaFloat
  | some (.fin a), some (.fin b) =>
    if b = 0 then none else some (.fin (a - b * if a / b < 0 then ⌈a / b⌉ else ⌊a / b⌋))
  | some (.fin a), some (.inf _) => some (.fin a)
  | _, _ => none

/-- `a % b`, which has the sign of `b`. -/
def mod (a b : LuaFloat) : LuaFloat :=
  let m := a.fmod b
  if (m.mul b).lt (some (.fin 0)) then m.add b else m

theorem lt_self (x : LuaFloat) : x.lt x = false := by
  rcases x with - | q | neg
  · rfl
  · exact decide_eq_false (lt_irrefl q)
  · cases neg <;> rfl

theorem le_self {x : LuaFloat} (h : x ≠ none) : x.le x = true := by
  obtain ⟨a, rfl⟩ := Option.ne_none_iff_exists'.mp h
  exact Bool.or_eq_true_iff.mpr (Or.inr (decide_eq_true rfl))

end LuaFloat

namespace LuaNum

/-- The integer `n` written in a program. -/
def ofNat (n : ℕ) : LuaNum := integer (BitVec.ofNat 64 n)

/-- The exact value. -/
def value : LuaNum → LuaFloat
  | integer n => some (.ofInt n.toInt)
  | float x => x

/-- The conversion to a double. -/
def toFloat : LuaNum → LuaFloat
  | integer n => some (roundRat n.toInt)
  | float x => x

def lt (a b : LuaNum) : Bool := a.value.lt b.value

def le (a b : LuaNum) : Bool := a.value.le b.value

/-- `a * b`. -/
def mul : LuaNum → LuaNum → LuaNum
  | integer m, integer n => integer (m * n)
  | a, b => float (a.toFloat.mul b.toFloat)

/-- `a - b`. -/
def sub : LuaNum → LuaNum → LuaNum
  | integer m, integer n => integer (m - n)
  | a, b => float (a.toFloat.sub b.toFloat)

/-- `a / b`. -/
def div (a b : LuaNum) : LuaNum := float (a.toFloat.div b.toFloat)

/-- An integral value is an integer when it fits one, and a double otherwise. -/
def ofIntegral (n : ℤ) : LuaNum :=
  if -2 ^ 63 ≤ n ∧ n < 2 ^ 63 then integer (BitVec.ofInt 64 n) else float (some (.ofInt n))

/-- `math.floor`. -/
def floor : LuaNum → LuaNum
  | float (some (.fin q)) => ofIntegral ⌊q⌋
  | a => a

/-- `math.ceil`. -/
def ceil : LuaNum → LuaNum
  | float (some (.fin q)) => ofIntegral ⌈q⌉
  | a => a

end LuaNum

/-! ## Values and tables of values -/

/-- A value that can be a key of a table. -/
inductive LuaKey
  | boolean (b : Bool)
  | number (v : LuaNumber)
  | string (s : Bytes)
  | object (id : ℕ)
  deriving DecidableEq

/-- A Lua value, as far as indexing a table with it goes. -/
inductive LuaValue
  | nil
  | nan
  | key (k : LuaKey)
  deriving DecidableEq

namespace LuaKey

/-- The value counts as true. -/
def truthy (k : LuaKey) : Bool := decide (k ≠ .boolean false)

/-- The integer key `n`. -/
def index (n : ℕ) : LuaKey := .number (.ofInt n)

end LuaKey

/-- The value counts as true. -/
def LuaValue.truthy : LuaValue → Bool
  | .nil => false
  | .nan => true
  | .key k => k.truthy

end LuaKcp
