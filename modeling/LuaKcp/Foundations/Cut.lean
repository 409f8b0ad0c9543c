import Mathlib.Data.List.Basic
import Mathlib.Data.List.Flatten
import Mathlib.Tactic

/-!
# Messages cut into numbered pieces

A message is cut into a non-empty list of pieces numbered downwards to `0`; the pieces of the
messages sent one after the other form one stream. `merge` takes the pieces at the head of a
stream up to and including the first one numbered `0`. On a stream that starts with the cut of a
message it returns that message and the rest of the stream (`merge_append`), and the number of the
first piece says how many pieces the cut has (`IsCut.head_number`), so a receiver knows from the
head whether a whole message is there.
-/

namespace LuaKcp

/-- A piece of a message: how many pieces of the message follow, and its bytes. -/
structure Piece (α : Type*) where
  number : ℕ
  data : List α
  deriving DecidableEq

namespace Piece

variable {α : Type*}

/-- The bytes of a list of pieces. -/
def body (ps : List (Piece α)) : List α := ps.flatMap data

@[simp] theorem body_nil : body ([] : List (Piece α)) = [] := rfl

@[simp] theorem body_cons (p : Piece α) (ps : List (Piece α)) :
    body (p :: ps) = p.data ++ body ps := rfl

/-- Pieces numbered downwards to `0`. -/
inductive IsCut : List (Piece α) → Prop
  | last (p : Piece α) : p.number = 0 → IsCut [p]
  | cons (p q : Piece α) (ps : List (Piece α)) :
      p.number = q.number + 1 → IsCut (q :: ps) → IsCut (p :: q :: ps)

theorem IsCut.ne_nil {ps : List (Piece α)} (h : IsCut ps) : ps ≠ [] := by
  cases h <;> simp

/-- The number of the first piece counts the others. -/
theorem IsCut.head_number {p : Piece α} {ps : List (Piece α)} (h : IsCut (p :: ps)) :
    p.number = ps.length := by
  induction ps generalizing p with
  | nil => cases h with | last _ h => exact h
  | cons q ps ih => cases h with | cons _ _ _ hn h => rw [hn, ih h, List.length_cons]

/-- The pieces up to the first one numbered `0`, merged, and the pieces after it. -/
def merge : List (Piece α) → List α × List (Piece α)
  | [] => ([], [])
  | p :: ps => if p.number = 0 then (p.data, ps) else
      let r := merge ps
      (p.data ++ r.1, r.2)

/-- **Merging a stream that starts with a cut** gives the message and the rest of the stream. -/
theorem merge_append {ps : List (Piece α)} (h : IsCut ps) (rest : List (Piece α)) :
    merge (ps ++ rest) = (body ps, rest) := by
  induction h with
  | last p hp => simp [merge, hp]
  | cons p q ps hn _ ih =>
    have hp : p.number ≠ 0 := by omega
    simp only [List.cons_append] at ih
    simp only [List.cons_append, merge, hp, if_false, body_cons] at ih ⊢
    rw [ih]

/-- The stream of the cuts of several messages. -/
def stream (cuts : List (List (Piece α))) : List (Piece α) := cuts.flatten

@[simp] theorem stream_append (cs ds : List (List (Piece α))) :
    stream (cs ++ ds) = stream cs ++ stream ds := List.flatten_append

end Piece

end LuaKcp
