import Mathlib.Data.List.AList
import Mathlib.Tactic

/-!
# Lua tables

A Lua table read by key is a finite map: reading an absent key gives `none` (Lua's `nil`), and
assigning `none` to a key removes it. The size counts the keys present. Tables of records hold
references, so the values here are meant to be references into a heap of records.
-/

namespace LuaKcp

/-- A finite map from keys to values. -/
abbrev LuaTable (κ υ : Type*) := AList fun _ : κ => υ

namespace LuaTable

variable {κ υ : Type*}

/-- The number of keys present. -/
def size (t : LuaTable κ υ) : ℕ := t.keys.length

variable [DecidableEq κ]

/-- `t[k]`, `none` standing for `nil`. -/
def get (t : LuaTable κ υ) (k : κ) : Option υ := t.lookup k

/-- `t[k] = v`, where `none` removes the key. -/
def set (t : LuaTable κ υ) (k : κ) : Option υ → LuaTable κ υ
  | some v => t.insert k v
  | none => t.erase k

@[simp] theorem get_empty (k : κ) : get (∅ : LuaTable κ υ) k = none := by
  simp [get]

@[simp] theorem get_set_self (t : LuaTable κ υ) (k : κ) (v : Option υ) : (t.set k v).get k = v := by
  cases v <;> simp [get, set]

theorem get_set_of_ne (t : LuaTable κ υ) {k k' : κ} (v : Option υ) (h : k' ≠ k) :
    (t.set k v).get k' = t.get k' := by
  cases v <;> simp [get, set, h]

theorem get_set (t : LuaTable κ υ) (k k' : κ) (v : Option υ) :
    (t.set k v).get k' = if k' = k then v else t.get k' := by
  split_ifs with h
  · rw [h, get_set_self]
  · exact get_set_of_ne t v h

/-- What is read after an assignment is what was assigned, or was there before. -/
theorem get_set_cases {t : LuaTable κ υ} {k k' : κ} {v x : υ}
    (h : (t.set k (some v)).get k' = some x) : k' = k ∧ v = x ∨ k' ≠ k ∧ t.get k' = some x := by
  rw [get_set] at h
  split_ifs at h with hk
  · exact Or.inl ⟨hk, Option.some.inj h⟩
  · exact Or.inr ⟨hk, h⟩

/-- An assignment of a value removes no key. -/
theorem get_set_ne_none (t : LuaTable κ υ) (k : κ) (v : υ) {k' : κ} (h : t.get k' ≠ none) :
    (t.set k (some v)).get k' ≠ none := by
  rw [get_set]
  split_ifs
  · simp
  · exact h

/-- When the value assigned is related to the old one, so is all that is read to what was there. -/
theorem get_set_rel {t : LuaTable κ υ} {R : υ → υ → Prop} (hrefl : ∀ v, R v v) {k : κ} {v v' : υ}
    (hv : t.get k = some v) (h : R v v') (k' : κ) (x' : υ)
    (hx : (t.set k (some v')).get k' = some x') : ∃ x, t.get k' = some x ∧ R x x' := by
  rcases get_set_cases hx with ⟨rfl, rfl⟩ | ⟨-, hx⟩
  · exact ⟨v, hv, h⟩
  · exact ⟨x', hx, hrefl x'⟩

theorem mem_keys_iff (t : LuaTable κ υ) (k : κ) : k ∈ t.keys ↔ t.get k ≠ none := by
  simp only [get, ne_eq, AList.lookup_eq_none, not_not, AList.mem_keys]

/-- The entries under a key are what is read there. -/
theorem filterMap_entries {δ : Type*} (t : LuaTable κ υ) (k : κ) (g : υ → Option δ) :
    t.entries.filterMap (fun e => if e.1 = k then g e.2 else none) = ((t.get k).bind g).toList := by
  have hlist (l : List (Sigma fun _ : κ => υ)) (hl : l.NodupKeys) :
      l.filterMap (fun e => if e.1 = k then g e.2 else none) =
        ((l.dlookup k).bind g).toList := by
    induction l with
    | nil => rfl
    | cons e l ih =>
      obtain ⟨k', v⟩ := e
      obtain ⟨hnew, hrest⟩ := List.nodupKeys_cons.mp hl
      rw [List.filterMap_cons, ih hrest]
      by_cases hk : k' = k
      · subst hk
        rw [List.dlookup_eq_none.mpr hnew, List.dlookup_cons_eq]
        cases hv : g v <;> simp [hv]
      · simp [hk, List.dlookup_cons_ne l ⟨k', v⟩ (Ne.symm hk)]
  exact hlist t.entries t.nodupKeys

/-- A new key adds one to the size. -/
theorem size_set_some_of_none (t : LuaTable κ υ) {k : κ} (v : υ) (h : t.get k = none) :
    (t.set k (some v)).size = t.size + 1 := by
  have hk : k ∉ t.keys := by simp [mem_keys_iff, h]
  simp only [set, size, AList.keys_insert, List.length_cons, List.erase_of_not_mem hk]

/-- Removing a key that is present takes one from the size. -/
theorem size_set_none_of_some (t : LuaTable κ υ) {k : κ} (h : t.get k ≠ none) :
    (t.set k none).size + 1 = t.size := by
  have hk : k ∈ t.keys := (mem_keys_iff t k).2 h
  have hpos : 0 < t.keys.length := List.length_pos_of_mem hk
  simp only [set, size, AList.keys_erase, List.length_erase_of_mem hk]
  omega

/-- Tables with the same keys have the same size. -/
theorem size_congr {t t' : LuaTable κ υ} (h : ∀ k, t.get k = none ↔ t'.get k = none) :
    t.size = t'.size := by
  have hperm : t.keys.Perm t'.keys := by
    refine (List.perm_ext_iff_of_nodup t.keys_nodup t'.keys_nodup).mpr fun k => ?_
    rw [mem_keys_iff, mem_keys_iff]
    exact not_congr (h k)
  exact hperm.length_eq

theorem size_set_some (t : LuaTable κ υ) (k : κ) (v : υ) :
    (t.set k (some v)).size = if t.get k = none then t.size + 1 else t.size := by
  split_ifs with h
  · exact size_set_some_of_none t v h
  · refine size_congr fun k' => ?_
    by_cases hk : k' = k
    · rw [hk, get_set_self]
      exact iff_of_false (Option.some_ne_none v) h
    · rw [get_set_of_ne t _ hk]

theorem size_set_none (t : LuaTable κ υ) (k : κ) :
    (t.set k none).size = if t.get k = none then t.size else t.size - 1 := by
  split_ifs with h
  · refine size_congr fun k' => ?_
    by_cases hk : k' = k
    · rw [hk, get_set_self]
      exact iff_of_true rfl h
    · rw [get_set_of_ne t _ hk]
  · have := size_set_none_of_some t h
    omega

end LuaTable

/-! ## Heaps of records: a record is replaced, and a new one is put at the end -/

theorem getElem?_set_of_some {α : Type*} {l : List α} {i : ℕ} {a : α} (h : l[i]? = some a) (b : α)
    (j : ℕ) : (l.set i b)[j]? = if i = j then some b else l[j]? := by
  rw [List.getElem?_set]
  split_ifs with hij hlt
  · rfl
  · exact absurd (List.getElem?_eq_some_iff.mp h).1 hlt
  · rfl

theorem getElem?_append_singleton {α : Type*} (l : List α) (a : α) (i : ℕ) :
    (l ++ [a])[i]? = if i = l.length then some a else l[i]? := by
  rcases lt_trichotomy i l.length with hi | rfl | hi
  · rw [List.getElem?_append_left hi, if_neg hi.ne]
  · simp
  · rw [if_neg hi.ne', List.getElem?_eq_none (by simp; omega), List.getElem?_eq_none hi.le]

theorem map_getElem?_append_singleton {α β : Type*} (f : α → β) (l : List α) (a : α) (i : ℕ) :
    ((l ++ [a])[i]?).map f = if i = l.length then some (f a) else (l[i]?).map f := by
  rw [getElem?_append_singleton]
  split_ifs <;> rfl

end LuaKcp
