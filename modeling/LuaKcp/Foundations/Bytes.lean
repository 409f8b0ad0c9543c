import Mathlib.Data.List.Basic
import Mathlib.Data.Nat.ModEq
import Mathlib.Tactic

/-!
# Fixed-width integers as bytes

Byte strings are lists of `UInt8`. `leBytes c n` and `beBytes c n` are the low `c` bytes of `n`,
least and most significant byte first; `leValue` and `beValue` read them back. Writing and then
reading keeps the number modulo `256 ^ c`, also when the bytes are followed by others.
-/

namespace LuaKcp

abbrev Bytes := List UInt8

/-- Byte strings are compared lawfully, as lists of bytes are. -/
instance lawfulBEqBytes : LawfulBEq Bytes := inferInstanceAs (LawfulBEq (List UInt8))

/-- The low `c` bytes of a number, least significant first. -/
def leBytes : (c : ℕ) → ℕ → Bytes
  | 0, _ => []
  | c + 1, n => UInt8.ofNat n :: leBytes c (n / 256)

/-- The number written by bytes, least significant first. -/
def leValue : Bytes → ℕ
  | [] => 0
  | b :: bs => b.toNat + 256 * leValue bs

/-- The low `c` bytes of a number, most significant first. -/
def beBytes (c n : ℕ) : Bytes := (leBytes c n).reverse

/-- The number written by bytes, most significant first. -/
def beValue (bs : Bytes) : ℕ := leValue bs.reverse

@[simp] theorem length_leBytes (c n : ℕ) : (leBytes c n).length = c := by
  induction c generalizing n with
  | zero => rfl
  | succ c ih => simp [leBytes, ih]

@[simp] theorem length_beBytes (c n : ℕ) : (beBytes c n).length = c := by
  simp [beBytes]

@[simp] theorem leValue_leBytes (c n : ℕ) : leValue (leBytes c n) = n % 256 ^ c := by
  induction c generalizing n with
  | zero => simp [leBytes, leValue, Nat.mod_one]
  | succ c ih =>
    have hb : (UInt8.ofNat n).toNat = n % 256 := by simp
    rw [leBytes, leValue, ih, hb, pow_succ, mul_comm (256 ^ c) 256, Nat.mod_mul]

@[simp] theorem beValue_beBytes (c n : ℕ) : beValue (beBytes c n) = n % 256 ^ c := by
  simp [beValue, beBytes]

theorem leValue_lt (bs : Bytes) : leValue bs < 256 ^ bs.length := by
  induction bs with
  | nil => simp [leValue]
  | cons b bs ih =>
    have hb : b.toNat < 256 := b.toNat_lt
    simp only [leValue, List.length_cons, pow_succ]
    omega

theorem leBytes_leValue (bs : Bytes) : leBytes bs.length (leValue bs) = bs := by
  induction bs with
  | nil => rfl
  | cons b bs ih =>
    have hb : b.toNat < 256 := b.toNat_lt
    have hlow : UInt8.ofNat (b.toNat + 256 * leValue bs) = b := by
      refine UInt8.toNat_inj.mp ?_
      rw [UInt8.toNat_ofNat']
      omega
    have hhigh : (b.toNat + 256 * leValue bs) / 256 = leValue bs := by omega
    rw [List.length_cons, leBytes, leValue, hlow, hhigh, ih]

theorem beBytes_beValue (bs : Bytes) : beBytes bs.length (beValue bs) = bs := by
  have h := leBytes_leValue bs.reverse
  rw [List.length_reverse] at h
  rw [beBytes, beValue, h, List.reverse_reverse]

theorem beValue_lt (bs : Bytes) : beValue bs < 256 ^ bs.length := by
  have h := leValue_lt bs.reverse
  rwa [List.length_reverse] at h

@[simp] theorem take_leBytes_append (c n : ℕ) (bs : Bytes) :
    (leBytes c n ++ bs).take c = leBytes c n := by
  rw [List.take_append_of_le_length (by simp), List.take_of_length_le (by simp)]

@[simp] theorem drop_leBytes_append (c n : ℕ) (bs : Bytes) :
    (leBytes c n ++ bs).drop c = bs := by
  rw [List.drop_append_of_le_length (by simp), List.drop_of_length_le (by simp), List.nil_append]

@[simp] theorem take_beBytes_append (c n : ℕ) (bs : Bytes) :
    (beBytes c n ++ bs).take c = beBytes c n := by
  rw [List.take_append_of_le_length (by simp), List.take_of_length_le (by simp)]

@[simp] theorem drop_beBytes_append (c n : ℕ) (bs : Bytes) :
    (beBytes c n ++ bs).drop c = bs := by
  rw [List.drop_append_of_le_length (by simp), List.drop_of_length_le (by simp), List.nil_append]

end LuaKcp
