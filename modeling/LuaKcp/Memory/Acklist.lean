import LuaKcp.Ikcp.Flush

/-!
# The ack list in memory

The acknowledgements pending are pairs of words in one block that `ikcp_ack_push` doubles when it is
full. The words are read back by `ikcp_flush`, which forgets them and keeps the block. A word is
`none` until it is written.
-/

namespace LuaKcp.Ikcp

/-- `acklist`, `none` for `NULL`, with `ackcount` and `ackblock`. -/
structure Acklist where
  words : Option (List (Option U32))
  count : U32
  block : U32

namespace Acklist

/-- A word of a block; it has been written. -/
def read (words : List (Option U32)) (i : ℕ) : Option U32 := words[i]?.join

def write (words : List (Option U32)) (i : ℕ) (w : U32) : Option (List (Option U32)) :=
  if i < words.length then some (words.set i (some w)) else none

/-- `for (newblock = 8; newblock < newsize; newblock <<= 1)`; a `size_t` has 64 bits to shift. -/
def growLoop (newsize : ℕ) : ℕ → (newblock : ℕ) → Option ℕ
  | 0, _ => none
  | fuel + 1, newblock =>
    if newblock < newsize then growLoop newsize fuel (newblock * 2) else some newblock

/-- The loop that copies the acknowledgements from `x` on to the new block. -/
def copyLoop (old : List (Option U32)) : ℕ → (x : ℕ) → List (Option U32) →
    Option (List (Option U32))
  | 0, _, acklist => some acklist
  | n + 1, x, acklist => do
    let sn ← read old (x * 2)
    let acklist ← write acklist (x * 2) sn
    let ts ← read old (x * 2 + 1)
    let acklist ← write acklist (x * 2 + 1) ts
    copyLoop old n (x + 1) acklist

variable (a : Acklist)

/-- The new block of `ikcp_ack_push`, and what is copied from the old one. -/
def copied (newblock : ℕ) : Option (List (Option U32)) :=
  let acklist := List.replicate (newblock * 2) none
  match a.words with
  | none => some acklist
  | some old => copyLoop old a.count.toNat 0 acklist

/-- The block of `ikcp_ack_push`: a larger one when another acknowledgement does not fit. -/
def grow : Option Acklist :=
  let newsize := (a.count + 1).toNat
  if newsize > a.block.toNat then do
    let newblock ← growLoop newsize 64 8
    let acklist ← a.copied newblock
    some { a with words := some acklist, block := BitVec.ofNat 32 newblock }
  else some a

/-- `ikcp_ack_push`, the allocation succeeding. -/
def push (sn ts : U32) : Option Acklist := do
  let a ← a.grow
  let words ← a.words
  let ptr := (a.count * 2).toNat
  let words ← write words ptr sn
  let words ← write words (ptr + 1) ts
  some { a with words := some words, count := a.count + 1 }

/-- `ikcp_ack_get`; the index `p * 2 + 1` is an `int`. -/
def get (p : ℕ) : Option (U32 × U32) :=
  if p * 2 + 1 ≥ 2 ^ 31 then none
  else do
    let words ← a.words
    let sn ← read words (p * 2)
    let ts ← read words (p * 2 + 1)
    some (sn, ts)

/-! ## What the block holds -/

/-- The acknowledgements as words. -/
def flat (acks : List (U32 × U32)) : List (Option U32) :=
  acks.flatMap fun ack => [some ack.1, some ack.2]

@[simp] theorem length_flat (acks : List (U32 × U32)) : (flat acks).length = acks.length * 2 := by
  induction acks with
  | nil => rfl
  | cons ack acks ih =>
    unfold flat at ih ⊢
    simp only [List.flatMap_cons, List.length_append, ih, List.length_cons, List.length_nil]
    omega

theorem flat_append (as bs : List (U32 × U32)) : flat (as ++ bs) = flat as ++ flat bs :=
  List.flatMap_append

theorem read_flat (as bs : List (U32 × U32)) (ack : U32 × U32) (rest : List (Option U32)) :
    read (flat (as ++ ack :: bs) ++ rest) (as.length * 2) = some ack.1 ∧
      read (flat (as ++ ack :: bs) ++ rest) (as.length * 2 + 1) = some ack.2 := by
  have hsplit : flat (as ++ ack :: bs) ++ rest =
      flat as ++ some ack.1 :: some ack.2 :: (flat bs ++ rest) := by
    rw [flat_append, List.append_assoc]
    rfl
  rw [hsplit, ← length_flat]
  simp [read]

/-- The next two words of a block are written. -/
theorem write_flat (as : List (U32 × U32)) (w w' : Option U32) (rest : List (Option U32))
    (ack : U32 × U32) :
    ∃ words, write (flat as ++ w :: w' :: rest) (as.length * 2) ack.1 = some words ∧
      write words (as.length * 2 + 1) ack.2 = some (flat (as ++ [ack]) ++ rest) := by
  have hsplit : flat (as ++ [ack]) ++ rest = flat as ++ some ack.1 :: some ack.2 :: rest := by
    rw [flat_append, List.append_assoc]
    rfl
  refine ⟨flat as ++ some ack.1 :: w' :: rest, ?_, ?_⟩
  · rw [← length_flat]
    simp [write]
  · rw [hsplit, ← length_flat]
    simp [write]

/-- The block holds the acknowledgements, and what is behind them. -/
structure Represents (a : Acklist) (acks : List (U32 × U32)) : Prop where
  count : a.count = BitVec.ofNat 32 acks.length
  block : (a.words.getD []).length = a.block.toNat * 2
  fits : acks.length ≤ a.block.toNat
  content : ∃ rest, a.words.getD [] = flat acks ++ rest

theorem growLoop_spec {newsize : ℕ} (fuel j : ℕ) (hsize : newsize ≤ 2 ^ 31) (hj : j ≤ 31)
    (hfuel : 31 - j < fuel) :
    ∃ k ≤ 31, growLoop newsize fuel (2 ^ j) = some (2 ^ k) ∧ newsize ≤ 2 ^ k := by
  induction fuel generalizing j with
  | zero => exact absurd hfuel (Nat.not_lt_zero _)
  | succ fuel ih =>
    unfold growLoop
    by_cases hsmall : 2 ^ j < newsize
    · have hlt : j < 31 := by
        by_contra hge
        have hj' : j = 31 := by omega
        rw [hj'] at hsmall
        omega
      rw [if_pos hsmall, ← Nat.pow_succ]
      exact ih (j + 1) hlt (by omega)
    · rw [if_neg hsmall]
      exact ⟨j, hj, rfl, not_lt.mp hsmall⟩

theorem copyLoop_spec (as bs : List (U32 × U32)) (rest : List (Option U32)) (n : ℕ) :
    copyLoop (flat (as ++ bs) ++ rest) bs.length as.length
      (flat as ++ List.replicate (bs.length * 2 + n) none) =
        some (flat (as ++ bs) ++ List.replicate n none) := by
  induction bs generalizing as with
  | nil => simp [copyLoop]
  | cons ack bs ih =>
    have hblock : List.replicate ((ack :: bs).length * 2 + n) (none : Option U32) =
        none :: none :: List.replicate (bs.length * 2 + n) none := by
      have hlength : (ack :: bs).length * 2 + n = bs.length * 2 + n + 1 + 1 := by
        rw [List.length_cons]
        omega
      rw [hlength]
      rfl
    obtain ⟨hsn, hts⟩ := read_flat as bs ack rest
    obtain ⟨words, hw, hw'⟩ := write_flat as none none
      (List.replicate (bs.length * 2 + n) none) ack
    have hrest := ih (as ++ [ack])
    rw [← List.append_cons, List.length_append, List.length_singleton] at hrest
    rw [hblock, List.length_cons]
    simp only [copyLoop, hsn, hts, hw, hw', Option.bind_eq_bind, Option.bind_some]
    exact hrest

namespace Represents

variable {a : Acklist} {acks : List (U32 × U32)}

theorem toNat_count (h : a.Represents acks) (hacks : acks.length < 2 ^ 31) :
    a.count.toNat = acks.length := by
  rw [h.count]
  bv_omega

/-- What is behind the acknowledgements in the new block has not been written. -/
theorem copied (h : a.Represents acks) {newblock : ℕ} (hroom : acks.length ≤ newblock)
    (hacks : acks.length < 2 ^ 31) :
    a.copied newblock =
      some (flat acks ++ List.replicate (newblock * 2 - acks.length * 2) none) := by
  obtain ⟨rest, hrest⟩ := h.content
  unfold Acklist.copied
  cases hwords : a.words with
  | none =>
    rw [hwords, Option.getD_none] at hrest
    obtain ⟨hflat, -⟩ := List.append_eq_nil_iff.mp hrest.symm
    have hnil := congrArg List.length hflat
    rw [length_flat, List.length_nil] at hnil
    dsimp only
    rw [hflat, hnil]
    rfl
  | some old =>
    rw [hwords, Option.getD_some] at hrest
    have hspec := copyLoop_spec [] acks rest
      (newblock * 2 - acks.length * 2)
    have hlength : acks.length * 2 + (newblock * 2 - acks.length * 2) = newblock * 2 := by omega
    rw [List.nil_append, hlength] at hspec
    dsimp only
    rw [hrest, h.toNat_count hacks]
    exact hspec

/-- The block has room for one more. -/
theorem grow (h : a.Represents acks) (hacks : acks.length < 2 ^ 31) :
    ∃ a', a.grow = some a' ∧ a'.Represents acks ∧ acks.length + 1 ≤ a'.block.toNat := by
  have hcount : (a.count + 1).toNat = acks.length + 1 := by
    rw [h.count]
    bv_omega
  unfold Acklist.grow
  dsimp only
  rw [hcount]
  by_cases hfull : acks.length + 1 > a.block.toNat
  · rw [if_pos hfull]
    obtain ⟨k, hk, hgrow, hroom⟩ :=
      growLoop_spec 64 3 (by omega : acks.length + 1 ≤ 2 ^ 31) (by omega) (by omega)
    have hpow : 2 ^ k ≤ 2 ^ 31 := Nat.pow_le_pow_right (by omega) hk
    have hblock : (BitVec.ofNat 32 (2 ^ k)).toNat = 2 ^ k := by
      rw [BitVec.toNat_ofNat]
      exact Nat.mod_eq_of_lt (by omega)
    have hcopied := h.copied (by omega : acks.length ≤ 2 ^ k) hacks
    refine ⟨{ a with
      words := some (flat acks ++ List.replicate (2 ^ k * 2 - acks.length * 2) none)
      block := BitVec.ofNat 32 (2 ^ k) }, ?_, ⟨h.count, ?_, ?_, ⟨_, rfl⟩⟩, ?_⟩
    · have hgrow' : growLoop (acks.length + 1) 64 8 = some (2 ^ k) := hgrow
      simp only [hgrow', hcopied, Option.bind_eq_bind, Option.bind_some]
    · change (flat acks ++ _).length = (BitVec.ofNat 32 (2 ^ k)).toNat * 2
      rw [hblock, List.length_append, length_flat, List.length_replicate]
      omega
    · change acks.length ≤ (BitVec.ofNat 32 (2 ^ k)).toNat
      omega
    · change acks.length + 1 ≤ (BitVec.ofNat 32 (2 ^ k)).toNat
      omega
  · rw [if_neg hfull]
    exact ⟨a, rfl, h, not_lt.mp hfull⟩

/-- **`ikcp_ack_push`** writes inside the block. -/
theorem push (h : a.Represents acks) (hacks : acks.length < 2 ^ 31) (sn ts : U32) :
    ∃ a', a.push sn ts = some a' ∧ a'.Represents (acks ++ [(sn, ts)]) := by
  obtain ⟨a₁, hgrow, h₁, hroom⟩ := h.grow hacks
  obtain ⟨rest, hrest⟩ := h₁.content
  have hblock := h₁.block
  rw [hrest, List.length_append, length_flat] at hblock
  have hptr : (a₁.count * 2).toNat = acks.length * 2 := by
    rw [h₁.count]
    bv_omega
  obtain ⟨w, w', rest', rfl⟩ : ∃ w w' rest', rest = w :: w' :: rest' := by
    match rest, hblock with
    | [], hblock => simp at hblock; omega
    | [w], hblock => simp at hblock; omega
    | w :: w' :: rest', _ => exact ⟨w, w', rest', rfl⟩
  have hwords : a₁.words = some (flat acks ++ w :: w' :: rest') := by
    cases hw : a₁.words with
    | none => simp [hw] at hrest
    | some words =>
      rw [hw, Option.getD_some] at hrest
      rw [hrest]
  obtain ⟨words, hw, hw'⟩ := write_flat acks w w' rest' (sn, ts)
  refine ⟨{ a₁ with words := some (flat (acks ++ [(sn, ts)]) ++ rest'), count := a₁.count + 1 }, ?_,
    ⟨?_, ?_, ?_, rest', rfl⟩⟩
  · simp only [Acklist.push, hgrow, hwords, hptr, hw, hw', Option.bind_eq_bind, Option.bind_some]
  · change a₁.count + 1 = _
    rw [h₁.count, List.length_append]
    exact (BitVec.ofNat_add _ _).symm
  · change (flat (acks ++ [(sn, ts)]) ++ rest').length = a₁.block.toNat * 2
    simp only [List.length_append, length_flat, List.length_cons, List.length_nil] at hblock ⊢
    omega
  · change (acks ++ [(sn, ts)]).length ≤ a₁.block.toNat
    rw [List.length_append]
    exact hroom

theorem get {as bs : List (U32 × U32)} {ack : U32 × U32}
    (h : a.Represents (as ++ ack :: bs)) (hfew : (as ++ ack :: bs).length ≤ 2 ^ 30) :
    a.get as.length = some ack := by
  rw [List.length_append, List.length_cons] at hfew
  have hindex : ¬ as.length * 2 + 1 ≥ 2 ^ 31 := by omega
  obtain ⟨rest, hrest⟩ := h.content
  obtain ⟨hsn, hts⟩ := read_flat as bs ack rest
  cases hwords : a.words with
  | none =>
    rw [hwords, Option.getD_none, flat_append] at hrest
    simp [flat] at hrest
  | some words =>
    rw [hwords, Option.getD_some] at hrest
    rw [← hrest] at hsn hts
    simp only [Acklist.get, if_neg hindex, hwords, hsn, hts, Option.bind_eq_bind,
      Option.bind_some]

/-- `ikcp_flush` forgets the acknowledgements and keeps the block. -/
theorem clear (h : a.Represents acks) : Represents { a with count := 0 } [] :=
  ⟨rfl, h.block, Nat.zero_le _, _, rfl⟩

theorem empty : Represents ⟨none, 0, 0⟩ [] := ⟨rfl, rfl, Nat.zero_le _, [], rfl⟩

end Represents

end Acklist

end LuaKcp.Ikcp
