import Mathlib.Data.List.Basic
import Mathlib.Order.Basic

/-!
# Machines and their runs

A machine has an initial state and a partial step function on named events. `Path ok s t` is a run
from `s` to `t` all of whose steps meet the condition `ok` on the state before the step and the
event; a property of the reached states is proved once, by `Reaches.invariant`, from what one step
preserves. `Refinement` relates two machines by an abstraction function whose image follows the
abstract machine.
-/

namespace LuaKcp

/-- A transition system: `step s e = none` when the event `e` cannot happen in the state `s`. -/
structure Machine (σ ε : Type*) where
  init : σ
  step : σ → ε → Option σ

namespace Machine

variable {σ ε : Type*} (M : Machine σ ε)

/-- A run from one state to another whose steps all meet the condition `ok`. -/
inductive Path (ok : σ → ε → Prop) : σ → σ → Prop
  | refl (s : σ) : Path ok s s
  | tail {s t u : σ} {e : ε} : Path ok s t → ok t e → M.step t e = some u → Path ok s u

/-- The states that runs from the initial state reach by steps meeting `ok`. -/
def Reaches (ok : σ → ε → Prop) (s : σ) : Prop := M.Path ok M.init s

/-- The condition met by every step. -/
def anyStep (_ : σ) (_ : ε) : Prop := True

/-- The state after a list of events, when they can all happen, in states that pass a test. -/
def run (test : σ → ε → Bool) : σ → List ε → Option σ
  | s, [] => some s
  | s, e :: es => if test s e then (M.step s e).bind fun t => run test t es else none

variable {M} {ok ok' : σ → ε → Prop} {s t u : σ}

theorem Path.trans (h₁ : M.Path ok s t) (h₂ : M.Path ok t u) : M.Path ok s u := by
  induction h₂ with
  | refl => exact h₁
  | tail _ hok hstep ih => exact ih.tail hok hstep

theorem Path.single {e : ε} (hok : ok s e) (h : M.step s e = some t) : M.Path ok s t :=
  (Path.refl s).tail hok h

theorem Path.mono (hok : ∀ s e, ok s e → ok' s e) (h : M.Path ok s t) : M.Path ok' s t := by
  induction h with
  | refl => exact .refl _
  | tail _ h hstep ih => exact ih.tail (hok _ _ h) hstep

theorem Path.any (h : M.Path ok s t) : M.Path anyStep s t := h.mono fun _ _ _ => trivial

/-- What every step meeting `ok` preserves holds at the end of a run when it holds at its start. -/
theorem Path.invariant {I : σ → Prop}
    (hstep : ∀ s e t, I s → ok s e → M.step s e = some t → I t) (h : M.Path ok s t) (hs : I s) :
    I t := by
  induction h with
  | refl => exact hs
  | tail _ hok h ih => exact hstep _ _ _ ih hok h

/-- **The invariant rule**: true initially and preserved by every step meeting `ok`, so true of
every state reached by such steps. -/
theorem Reaches.invariant {I : σ → Prop} (hinit : I M.init)
    (hstep : ∀ s e t, I s → ok s e → M.step s e = some t → I t) (h : M.Reaches ok s) : I s :=
  Path.invariant hstep h hinit

theorem Reaches.any (h : M.Reaches ok s) : M.Reaches anyStep s := Path.any h

theorem Reaches.trans (h₁ : M.Reaches ok s) (h₂ : M.Path ok s t) : M.Reaches ok t :=
  Path.trans h₁ h₂

/-- A list of events that pass a test is a run of steps that meet the condition tested. -/
theorem path_of_run {test : σ → ε → Bool} (hok : ∀ s e, test s e = true → ok s e) (es : List ε)
    (h : M.run test s es = some t) : M.Path ok s t := by
  induction es generalizing s with
  | nil =>
    obtain rfl : s = t := Option.some.inj h
    exact .refl s
  | cons e es ih =>
    unfold run at h
    split_ifs at h with htest
    obtain ⟨u, hu, h⟩ := Option.bind_eq_some_iff.mp h
    exact (Path.single (hok s e htest) hu).trans (ih h)

/-- The machine with a record of its run: each step updates the record from the state before the
step and the event. -/
def recording {κ : Type*} (M : Machine σ ε) (start : κ) (note : κ → σ → ε → κ) :
    Machine (σ × κ) ε where
  init := (M.init, start)
  step s e := (M.step s.1 e).map fun t => (t, note s.2 s.1 e)

/-- What every step preserves of a state and its record. -/
theorem Reaches.recording_invariant {κ : Type*} {start : κ} {note : κ → σ → ε → κ}
    {I : σ → κ → Prop} (hinit : I M.init start)
    (hstep : ∀ s k e t, I s k → M.step s e = some t → I t (note k s e)) {k : κ}
    (h : (M.recording start note).Reaches anyStep (s, k)) : I s k := by
  refine h.invariant (I := fun r => I r.1 r.2) hinit fun r e r' hr _ hr' => ?_
  obtain ⟨t, ht, rfl⟩ := Option.map_eq_some_iff.mp hr'
  exact hstep r.1 r.2 e t hr ht

/-- A run with a record is a run. -/
theorem Reaches.recorded {κ : Type*} {start : κ} {note : κ → σ → ε → κ} {k : κ}
    (h : (M.recording start note).Reaches anyStep (s, k)) : M.Reaches anyStep s :=
  h.recording_invariant (I := fun s _ => M.Path anyStep M.init s) (Path.refl M.init)
    fun _ _ _ _ hs hstep => hs.tail trivial hstep

/-- A concrete machine refines an abstract one along `abs`: the initial state corresponds to a
reached one, and every concrete step from a state in the invariant is matched by a run of the
abstract machine. -/
structure Refinement {α β : Type*} (C : Machine σ ε) (A : Machine α β) (ok : σ → ε → Prop)
    (okA : α → β → Prop) where
  abs : σ → α
  Inv : σ → Prop
  init : A.Reaches okA (abs C.init)
  inv_init : Inv C.init
  step : ∀ s e t, Inv s → ok s e → C.step s e = some t → Inv t ∧ A.Path okA (abs s) (abs t)

/-- **Refinement of runs**: a reached concrete state satisfies the invariant and abstracts to a
reached abstract state. -/
theorem Refinement.reaches {α β : Type*} {C : Machine σ ε} {A : Machine α β} {okA : α → β → Prop}
    (R : Refinement C A ok okA) {s : σ} (h : C.Reaches ok s) :
    R.Inv s ∧ A.Reaches okA (R.abs s) := by
  refine Reaches.invariant (I := fun s => R.Inv s ∧ A.Reaches okA (R.abs s))
    ⟨R.inv_init, R.init⟩ (fun s e t hs hok hstep => ?_) h
  obtain ⟨hinv, hpath⟩ := R.step s e t hs.1 hok hstep
  exact ⟨hinv, hs.2.trans hpath⟩

end Machine

end LuaKcp
