import LuaKcp.Foundations.Bytes

/-!
# Lua's functions on strings

Positions in a string count from 1, and from the end when they are negative. `sub` cuts its range
to the string; `find` looks for a byte that means nothing else in a pattern.
-/

namespace LuaKcp

/-- The errors that Lua raises here. -/
inductive LuaError
  /-- Arithmetic on a `nil` value. -/
  | arithmetic
  /-- `string.unpack`: data string too short. -/
  | tooShort
  /-- `string.pack`: unsigned overflow. -/
  | overflow
  /-- `string.pack`: string length does not fit in given size. -/
  | tooLong
  deriving DecidableEq

/-- The operand of an arithmetic operation. -/
def operand : Option ℤ → Except LuaError ℤ
  | none => .error .arithmetic
  | some n => .ok n

namespace Text

variable (s : Bytes)

/-- `s:byte(i)`, for a positive `i`; `none` stands for no value. -/
def byte (i : ℕ) : Option ℤ := (s[i - 1]?).map fun b => (b.toNat : ℤ)

/-- `string.sub(s, i, j)`. -/
def sub (i j : ℤ) : Bytes :=
  let l : ℤ := s.length
  let start := if i > 0 then i else if i = 0 then 1 else if i < -l then 1 else l + i + 1
  let stop := if j > l then l else if j ≥ 0 then j else if j < -l then 0 else l + j + 1
  (s.take stop.toNat).drop (start - 1).toNat

/-- `string.find(s, "b", init)` for a byte `b` that is not magic: the place of the first one from
`init` on. -/
def find (b : UInt8) (init : ℕ) : Option ℕ :=
  if init > s.length + 1 then none
  else ((s.drop (init - 1)).findIdx? fun c => c = b).map fun k => init + k

theorem sub_tail (i : ℕ) : sub s (i + 1) (-1) = s.drop i := by
  have hstart : ((i : ℤ) + 1 > 0) := by omega
  unfold sub
  dsimp only
  rw [if_pos hstart, if_neg (by omega), if_neg (by omega)]
  split_ifs with hlt
  · have hs : s = [] := List.length_eq_zero_iff.mp (by omega)
    simp [hs]
  · rw [List.take_of_length_le (by omega)]
    congr 1
    omega

theorem sub_range (i j : ℕ) : sub s (i + 1) j = (s.take j).drop i := by
  have hstart : ((i : ℤ) + 1 > 0) := by omega
  unfold sub
  dsimp only
  rw [if_pos hstart]
  have hdrop : ((i : ℤ) + 1 - 1).toNat = i := by omega
  rw [hdrop]
  split_ifs with hlt
  · rw [Int.toNat_natCast, List.take_length, List.take_of_length_le (by omega)]
  · rw [Int.toNat_natCast]
  · omega
  · omega

/-- No such byte from position `i + 1` on. -/
theorem not_mem_of_find {b : UInt8} {i : ℕ} (hi : i ≤ s.length) (h : find s b (i + 1) = none) :
    b ∉ s.drop i := by
  unfold find at h
  rw [if_neg (by omega), Nat.add_sub_cancel, Option.map_eq_none_iff,
    List.findIdx?_eq_none_iff] at h
  intro hb
  simpa using h b hb

/-- The byte found, and what stands before and after it. -/
theorem append_of_find {b : UInt8} {i k : ℕ} (h : find s b (i + 1) = some k) :
    i < k ∧ k ≤ s.length ∧ b ∉ sub s (i + 1) (k - 1) ∧
      s.drop i = sub s (i + 1) (k - 1) ++ b :: s.drop k := by
  unfold find at h
  split_ifs at h with hi
  obtain ⟨j, hj, rfl⟩ := Option.map_eq_some_iff.mp h
  rw [Nat.add_sub_cancel] at hj
  obtain ⟨hlt, hb, hbefore⟩ := List.findIdx?_eq_some_iff_getElem.mp hj
  have hlen : (s.drop i).length = s.length - i := List.length_drop
  have hb : (s.drop i)[j] = b := of_decide_eq_true hb
  have hsub : sub s (i + 1) ((i + 1 + j : ℕ) - 1) = (s.drop i).take j := by
    have hrange := sub_range s i (i + j)
    rw [List.drop_take, Nat.add_sub_cancel_left] at hrange
    have hcast : ((i + 1 + j : ℕ) : ℤ) - 1 = ((i + j : ℕ) : ℤ) := by omega
    rw [hcast, hrange]
  refine ⟨by omega, by omega, ?_, ?_⟩
  · rw [hsub]
    intro hmem
    obtain ⟨n, hn, hget⟩ := List.mem_take_iff_getElem.mp hmem
    exact hbefore n (by omega) (decide_eq_true hget)
  · have hdrop : s.drop (i + 1 + j) = (s.drop i).drop (j + 1) := by
      rw [List.drop_drop]
      congr 1
      omega
    rw [hsub, hdrop, ← hb, ← List.drop_eq_getElem_cons hlt, List.take_append_drop]

end Text

end LuaKcp
