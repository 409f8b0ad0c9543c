import Mathlib.Data.List.Chain
import Mathlib.Logic.Function.Basic

/-!
# Rings of linked cells

A heap of cells with two pointers each. The operations on circular lists read and write the pointers
one after the other and fail where a program would follow `NULL` or reach freed memory. A ring is
what they build: a head and its entries, each pointing to the next one and back, the last one to
the head. Several rings may lie apart in one heap (`Rings`); every operation is stated for them all.
-/

namespace LuaKcp

universe u

/-- A cell: the pointers to its neighbours, `none` for `NULL`, and what it stores. -/
structure Cell (α β : Type u) where
  next : Option α
  prev : Option α
  val : β

/-- The cells that are allocated. -/
abbrev Heap (α β : Type u) := α → Option (Cell α β)

namespace Heap

variable {α β : Type u} (h : Heap α β)

def next (a : α) : Option α := (h a).bind Cell.next

def prev (a : α) : Option α := (h a).bind Cell.prev

def val (a : α) : Option β := (h a).map Cell.val

variable {h}

theorem isSome_val_of_next {a b : α} (hn : h.next a = some b) : (h.val a).isSome := by
  unfold next at hn
  unfold val
  cases hc : h a with
  | none => simp [hc] at hn
  | some c => rfl

theorem isSome_val_of_prev {a b : α} (hp : h.prev a = some b) : (h.val a).isSome := by
  unfold prev at hp
  unfold val
  cases hc : h a with
  | none => simp [hc] at hp
  | some c => rfl

variable [DecidableEq α] (h)

/-- Write to a cell. -/
def write (a : α) (f : Cell α β → Cell α β) : Option (Heap α β) :=
  (h a).map fun c => Function.update h a (some (f c))

def setNext (a : α) (b : Option α) : Option (Heap α β) := h.write a fun c => { c with next := b }

def setPrev (a : α) (b : Option α) : Option (Heap α β) := h.write a fun c => { c with prev := b }

def setVal (a : α) (v : β) : Option (Heap α β) := h.write a fun c => { c with val := v }

/-! ## The operations -/

/-- A ring without entries. -/
def init (a : α) : Option (Heap α β) := do
  let h ← h.setNext a (some a)
  h.setPrev a (some a)

/-- Link `node` in after `head`. -/
def add (node head : α) : Option (Heap α β) := do
  let h ← h.setPrev node (some head)
  let h ← h.setNext node (h.next head)
  let n ← h.next head
  let h ← h.setPrev n (some node)
  h.setNext head (some node)

/-- Link `node` in before `head`. -/
def addTail (node head : α) : Option (Heap α β) := do
  let h ← h.setPrev node (h.prev head)
  let h ← h.setNext node (some head)
  let p ← h.prev head
  let h ← h.setNext p (some node)
  h.setPrev head (some node)

/-- Unlink `entry`. -/
def del (entry : α) : Option (Heap α β) := do
  let n ← h.next entry
  let h ← h.setPrev n (h.prev entry)
  let p ← h.prev entry
  let h ← h.setNext p (h.next entry)
  let h ← h.setNext entry none
  h.setPrev entry none

def isEmpty (entry : α) : Option Bool := (h.next entry).map fun n => decide (entry = n)

/-! ## What the operations write -/

variable {h}

theorem write_spec {a : α} (ha : (h.val a).isSome) (f : Cell α β → Cell α β) :
    ∃ c, h a = some c ∧ h.write a f = some (Function.update h a (some (f c))) := by
  unfold val at ha
  rw [Option.isSome_map] at ha
  obtain ⟨c, hc⟩ := Option.isSome_iff_exists.mp ha
  exact ⟨c, hc, by simp [write, hc]⟩

theorem setNext_spec {a : α} (ha : (h.val a).isSome) (b : Option α) :
    ∃ h', h.setNext a b = some h' ∧ h'.next = Function.update h.next a b ∧ h'.prev = h.prev ∧
      h'.val = h.val := by
  obtain ⟨c, hc, hw⟩ := write_spec ha fun c => { c with next := b }
  refine ⟨_, hw, ?_, ?_, ?_⟩ <;> funext x <;> by_cases hx : x = a
  all_goals simp [next, prev, val, hx, hc]

theorem setPrev_spec {a : α} (ha : (h.val a).isSome) (b : Option α) :
    ∃ h', h.setPrev a b = some h' ∧ h'.next = h.next ∧ h'.prev = Function.update h.prev a b ∧
      h'.val = h.val := by
  obtain ⟨c, hc, hw⟩ := write_spec ha fun c => { c with prev := b }
  refine ⟨_, hw, ?_, ?_, ?_⟩ <;> funext x <;> by_cases hx : x = a
  all_goals simp [next, prev, val, hx, hc]

theorem setVal_spec {a : α} (ha : (h.val a).isSome) (v : β) :
    ∃ h', h.setVal a v = some h' ∧ h'.next = h.next ∧ h'.prev = h.prev ∧
      h'.val = Function.update h.val a (some v) := by
  obtain ⟨c, hc, hw⟩ := write_spec ha fun c => { c with val := v }
  refine ⟨_, hw, ?_, ?_, ?_⟩ <;> funext x <;> by_cases hx : x = a
  all_goals simp [next, prev, val, hx, hc]

theorem init_spec {a : α} (ha : (h.val a).isSome) :
    ∃ h', h.init a = some h' ∧ h'.next = Function.update h.next a (some a) ∧
      h'.prev = Function.update h.prev a (some a) ∧ h'.val = h.val := by
  obtain ⟨h₁, hw₁, hn₁, hp₁, hv₁⟩ := setNext_spec ha (some a)
  obtain ⟨h₂, hw₂, hn₂, hp₂, hv₂⟩ := setPrev_spec (hv₁ ▸ ha) (some a)
  refine ⟨h₂, ?_, hn₂.trans hn₁, by rw [hp₂, hp₁], hv₂.trans hv₁⟩
  simp [init, hw₁, hw₂]

variable (h) in
/-- `b` comes after `a`. -/
def Linked (a b : α) : Prop := h.next a = some b ∧ h.prev b = some a

/-- `h'` is `h` with `node` linked in between `a` and `b`. -/
structure Linking (h h' : Heap α β) (a node b : α) : Prop where
  next : h'.next = Function.update (Function.update h.next node (some b)) a (some node)
  prev : h'.prev = Function.update (Function.update h.prev node (some a)) b (some node)
  val : h'.val = h.val

/-- `h'` is `h` with `entry` taken out from between `p` and `n`. -/
structure Unlinking (h h' : Heap α β) (p entry n : α) : Prop where
  next : h'.next = Function.update (Function.update h.next p (some n)) entry none
  prev : h'.prev = Function.update (Function.update h.prev n (some p)) entry none
  val : h'.val = h.val

theorem add_spec {node head n : α} (hnode : (h.val node).isSome) (hn : h.next head = some n)
    (hnl : (h.val n).isSome) (hne : head ≠ node) :
    ∃ h', h.add node head = some h' ∧ Linking h h' head node n := by
  have hhead := isSome_val_of_next hn
  obtain ⟨h₁, hw₁, hn₁, hp₁, hv₁⟩ := setPrev_spec hnode (some head)
  obtain ⟨h₂, hw₂, hn₂, hp₂, hv₂⟩ := setNext_spec (hv₁ ▸ hnode) (some n)
  obtain ⟨h₃, hw₃, hn₃, hp₃, hv₃⟩ := setPrev_spec (h := h₂) (a := n) (by rw [hv₂, hv₁]; exact hnl)
    (some node)
  obtain ⟨h₄, hw₄, hn₄, hp₄, hv₄⟩ := setNext_spec (h := h₃) (a := head)
    (by rw [hv₃, hv₂, hv₁]; exact hhead) (some node)
  have hread₁ : h₁.next head = some n := by rw [hn₁, hn]
  have hread₂ : h₂.next head = some n := by rw [hn₂, Function.update_of_ne hne, hread₁]
  refine ⟨h₄, ?_, ?_, ?_, by rw [hv₄, hv₃, hv₂, hv₁]⟩
  · simp [add, hw₁, hread₁, hw₂, hread₂, hw₃, hw₄]
  · rw [hn₄, hn₃, hn₂, hn₁]
  · rw [hp₄, hp₃, hp₂, hp₁]

theorem addTail_spec {node head p : α} (hnode : (h.val node).isSome) (hp : h.prev head = some p)
    (hpl : (h.val p).isSome) (hne : head ≠ node) :
    ∃ h', h.addTail node head = some h' ∧ Linking h h' p node head := by
  have hhead := isSome_val_of_prev hp
  obtain ⟨h₁, hw₁, hn₁, hp₁, hv₁⟩ := setPrev_spec hnode (some p)
  obtain ⟨h₂, hw₂, hn₂, hp₂, hv₂⟩ := setNext_spec (hv₁ ▸ hnode) (some head)
  obtain ⟨h₃, hw₃, hn₃, hp₃, hv₃⟩ := setNext_spec (h := h₂) (a := p) (by rw [hv₂, hv₁]; exact hpl)
    (some node)
  obtain ⟨h₄, hw₄, hn₄, hp₄, hv₄⟩ := setPrev_spec (h := h₃) (a := head)
    (by rw [hv₃, hv₂, hv₁]; exact hhead) (some node)
  have hread : h₂.prev head = some p := by rw [hp₂, hp₁, Function.update_of_ne hne, hp]
  refine ⟨h₄, ?_, ?_, ?_, by rw [hv₄, hv₃, hv₂, hv₁]⟩
  · simp [addTail, hp, hw₁, hw₂, hread, hw₃, hw₄]
  · rw [hn₄, hn₃, hn₂, hn₁]
  · rw [hp₄, hp₃, hp₂, hp₁]

theorem del_spec {p entry n : α} (hn : h.next entry = some n) (hp : h.prev entry = some p)
    (hnl : (h.val n).isSome) (hpl : (h.val p).isSome) (hne : entry ≠ n) :
    ∃ h', h.del entry = some h' ∧ Unlinking h h' p entry n := by
  have hentry := isSome_val_of_next hn
  obtain ⟨h₁, hw₁, hn₁, hp₁, hv₁⟩ := setPrev_spec hnl (some p)
  have hread₁ : h₁.prev entry = some p := by rw [hp₁, Function.update_of_ne hne, hp]
  have hread₂ : h₁.next entry = some n := by rw [hn₁, hn]
  obtain ⟨h₂, hw₂, hn₂, hp₂, hv₂⟩ := setNext_spec (hv₁ ▸ hpl) (some n)
  obtain ⟨h₃, hw₃, hn₃, hp₃, hv₃⟩ := setNext_spec (h := h₂) (a := entry)
    (by rw [hv₂, hv₁]; exact hentry) none
  obtain ⟨h₄, hw₄, hn₄, hp₄, hv₄⟩ := setPrev_spec (h := h₃) (a := entry)
    (by rw [hv₃, hv₂, hv₁]; exact hentry) none
  refine ⟨h₄, ?_, ?_, ?_, by rw [hv₄, hv₃, hv₂, hv₁]⟩
  · simp [del, hn, hp, hw₁, hread₁, hread₂, hw₂, hw₃, hw₄]
  · rw [hn₄, hn₃, hn₂, hn₁]
  · rw [hp₄, hp₃, hp₂, hp₁]

/-! ## Chains -/

variable {h' : Heap α β}

theorem Linking.isChain {l₁ l₂ : List α} {a node b : α} (hlink : Linking h h' a node b)
    (hchain : (l₁ ++ l₂).IsChain h.Linked) (ha : a ∈ l₁.getLast?) (hb : b ∈ l₂.head?)
    (hb₁ : b ∉ l₁.tail) (hb₂ : b ∉ l₂.tail) (hnode₁ : node ∉ l₁) (hnode₂ : node ∉ l₂) :
    (l₁ ++ node :: l₂).IsChain h'.Linked := by
  obtain ⟨hc₁, hc₂, hab⟩ := List.isChain_append.mp hchain
  obtain ⟨hnext, hprev⟩ := hab a ha b hb
  have hna : a ≠ node := fun he => hnode₁ (he ▸ List.mem_of_mem_getLast? ha)
  have hnb : b ≠ node := fun he => hnode₂ (he ▸ List.mem_of_mem_head? hb)
  -- of the old links only the one from `a` to `b` is cut
  have hkeep {l : List α} (hb : b ∉ l.tail) (hnode : node ∉ l) (hc : l.IsChain h.Linked) :
      l.IsChain h'.Linked := by
    refine hc.imp_of_mem_tail_imp fun x y hx hy hxy => ?_
    have hxn : x ≠ node := fun he => hnode (he ▸ hx)
    have hyn : y ≠ node := fun he => hnode (he ▸ List.mem_of_mem_tail hy)
    have hyb : y ≠ b := fun he => hb (he ▸ hy)
    have hxa : x ≠ a := fun he => hyb (Option.some.inj (by rw [← hxy.1, he, hnext]))
    exact ⟨by simp [hlink.next, hxa, hxn, hxy.1], by simp [hlink.prev, hyb, hyn, hxy.2]⟩
  have hin : h'.Linked a node := by
    have hne : node ≠ b := hnb.symm
    exact ⟨by simp [hlink.next], by simp [hlink.prev, hne]⟩
  have hout : h'.Linked node b := by
    have hne : node ≠ a := hna.symm
    exact ⟨by simp [hlink.next, hne], by simp [hlink.prev]⟩
  refine (hkeep hb₁ hnode₁ hc₁).append ((hkeep hb₂ hnode₂ hc₂).cons ?_) ?_
  · intro y hy
    obtain rfl := Option.mem_unique hb hy
    exact hout
  · intro x hx y hy
    obtain rfl := Option.mem_unique ha hx
    obtain rfl := Option.some.inj hy
    exact hin

theorem Unlinking.isChain {l₁ l₂ : List α} {p entry n : α} (hlink : Unlinking h h' p entry n)
    (hchain : (l₁ ++ entry :: l₂).IsChain h.Linked) (hp : p ∈ l₁.getLast?) (hn : n ∈ l₂.head?)
    (hentry₁ : entry ∉ l₁) (hentry₂ : entry ∉ l₂) : (l₁ ++ l₂).IsChain h'.Linked := by
  obtain ⟨hc₁, hc, hpe⟩ := List.isChain_append.mp hchain
  obtain ⟨hen, hc₂⟩ := List.isChain_cons.mp hc
  obtain ⟨hpnext, -⟩ := hpe p hp entry rfl
  obtain ⟨-, hnprev⟩ := hen n hn
  -- the neighbours of the entry have no other link to this side
  have hkeep {l : List α} (hentry : entry ∉ l) (hc : l.IsChain h.Linked) :
      l.IsChain h'.Linked := by
    refine hc.imp_of_mem_tail_imp fun x y hx hy hxy => ?_
    have hxe : x ≠ entry := fun he => hentry (he ▸ hx)
    have hye : y ≠ entry := fun he => hentry (he ▸ List.mem_of_mem_tail hy)
    have hxp : x ≠ p := fun he => hye (Option.some.inj (by rw [← hxy.1, he, hpnext]))
    have hyn : y ≠ n := fun he => hxe (Option.some.inj (by rw [← hxy.2, he, hnprev]))
    exact ⟨by simp [hlink.next, hxe, hxp, hxy.1], by simp [hlink.prev, hye, hyn, hxy.2]⟩
  refine (hkeep hentry₁ hc₁).append (hkeep hentry₂ hc₂) fun x hx y hy => ?_
  obtain rfl := Option.mem_unique hp hx
  obtain rfl := Option.mem_unique hn hy
  have hpe' : p ≠ entry := fun he => hentry₁ (he ▸ List.mem_of_mem_getLast? hp)
  have hne' : n ≠ entry := fun he => hentry₂ (he ▸ List.mem_of_mem_head? hn)
  exact ⟨by simp [hlink.next, hpe'], by simp [hlink.prev, hne']⟩

end Heap

/-! ## Rings -/

open Heap

variable {α β : Type u} {h h' : Heap α β} {head : α} {as bs xs : List α}

/-- The entries `xs` behind `head`, each linked to the next and the last to the head. -/
structure Ring (h : Heap α β) (head : α) (xs : List α) : Prop where
  nodup : (head :: xs).Nodup
  chain : (head :: xs ++ [head]).IsChain h.Linked

namespace Ring

theorem single (hnext : h.next head = some head) (hprev : h.prev head = some head) :
    Ring h head [] :=
  ⟨List.nodup_cons.mpr ⟨List.not_mem_nil, List.nodup_nil⟩, List.isChain_pair.mpr ⟨hnext, hprev⟩⟩

/-- A ring is what its own cells say. -/
theorem congr (hr : Ring h head xs)
    (heq : ∀ a ∈ head :: xs, h'.next a = h.next a ∧ h'.prev a = h.prev a) : Ring h' head xs := by
  refine ⟨hr.nodup, hr.chain.imp_of_mem_imp fun a b ha hb hab => ?_⟩
  have hmem {a : α} (ha : a ∈ head :: xs ++ [head]) : a ∈ head :: xs := by
    rcases List.mem_append.mp ha with ha | ha
    · exact ha
    · exact List.mem_singleton.mp ha ▸ List.mem_cons_self
  exact ⟨(heq a (hmem ha)).1.trans hab.1, (heq b (hmem hb)).2.trans hab.2⟩

/-- The link between two parts of a ring, the head standing before the first and after the
second. -/
theorem linked (hr : Ring h head (as ++ bs)) :
    h.Linked (as.getLastD head) (bs.headD head) := by
  have hsplit : head :: (as ++ bs) ++ [head] = (head :: as) ++ (bs ++ [head]) := by simp
  have hchain := hr.chain
  rw [hsplit] at hchain
  exact (List.isChain_append.mp hchain).2.2 _ (by simp [List.getLast?_cons]) _
    (by cases bs <;> rfl)

theorem next_head (hr : Ring h head xs) : h.next head = some (xs.headD head) := by
  rw [← List.nil_append xs] at hr
  exact hr.linked.1

theorem prev_head (hr : Ring h head xs) : h.prev head = some (xs.getLastD head) := by
  rw [← List.append_nil xs] at hr
  exact hr.linked.2

theorem next_of_mem {a : α} (hr : Ring h head (as ++ a :: bs)) :
    h.next a = some (bs.headD head) := by
  rw [List.append_cons] at hr
  simpa using hr.linked.1

theorem prev_of_mem {a : α} (hr : Ring h head (as ++ a :: bs)) :
    h.prev a = some (as.getLastD head) := hr.linked.2

theorem last_mem (bs : List α) : as.getLastD head ∈ head :: (as ++ bs) := by
  have hlast : as.getLastD head ∈ (head :: as).getLast? := by simp [List.getLast?_cons]
  rcases List.mem_cons.mp (List.mem_of_mem_getLast? hlast) with he | hmem
  · rw [he]
    exact List.mem_cons_self
  · exact List.mem_cons_of_mem head (List.mem_append_left bs hmem)

theorem first_mem (as : List α) : bs.headD head ∈ head :: (as ++ bs) := by
  cases bs with
  | nil => exact List.mem_cons_self
  | cons b bs => exact List.mem_cons_of_mem head (List.mem_append_right as List.mem_cons_self)

variable [DecidableEq α]

theorem isEmpty (hr : Ring h head xs) : h.isEmpty head = some (decide (xs = [])) := by
  unfold Heap.isEmpty
  rw [hr.next_head]
  cases xs with
  | nil => simp
  | cons x xs =>
    have hne : head ≠ x := fun he => (List.nodup_cons.mp hr.nodup).1 (he ▸ List.mem_cons_self)
    simp [hne]

/-- Linking a new entry in between two parts of a ring. -/
theorem of_linking {node : α} (hr : Ring h head (as ++ bs)) (hnew : node ∉ head :: (as ++ bs))
    (hlink : Linking h h' (as.getLastD head) node (bs.headD head)) :
    Ring h' head (as ++ node :: bs) ∧
      ∀ a ∉ node :: head :: (as ++ bs), h'.next a = h.next a ∧ h'.prev a = h.prev a := by
  have hnodup := hr.nodup
  have hchain := hr.chain
  have hsplit (cs : List α) : head :: (as ++ cs) ++ [head] = (head :: as) ++ (cs ++ [head]) := by
    simp
  rw [hsplit] at hchain
  have hlast : as.getLastD head ∈ (head :: as).getLast? := by simp [List.getLast?_cons]
  have hfirst : bs.headD head ∈ (bs ++ [head]).head? := by cases bs <;> rfl
  have hnode₁ : node ∉ head :: as := by
    simp only [List.mem_cons, List.mem_append, not_or] at hnew ⊢
    exact ⟨hnew.1, hnew.2.1⟩
  have hnode₂ : node ∉ bs ++ [head] := by
    simp only [List.mem_cons, List.mem_append, not_or] at hnew ⊢
    exact ⟨hnew.2.2, hnew.1, List.not_mem_nil⟩
  -- the first cell of the second part stands nowhere else
  have hfirst₁ : bs.headD head ∉ (head :: as).tail := by
    cases bs <;> simp [List.nodup_append, not_or] at hnodup ⊢ <;> grind
  have hfirst₂ : bs.headD head ∉ (bs ++ [head]).tail := by
    cases bs
    · exact List.not_mem_nil
    · simp [List.nodup_append, not_or] at hnodup ⊢
      grind
  refine ⟨⟨?_, ?_⟩, fun a ha => ?_⟩
  · have hperm : (head :: (as ++ node :: bs)).Perm (node :: head :: (as ++ bs)) :=
      (List.perm_middle.cons head).trans (List.Perm.swap node head _)
    exact hperm.nodup_iff.mpr (List.nodup_cons.mpr ⟨hnew, hnodup⟩)
  · rw [hsplit]
    exact hlink.isChain hchain hlast hfirst hfirst₁ hfirst₂ hnode₁ hnode₂
  · have hmem {x : α} (hx : x ∈ head :: (as ++ bs)) : a ≠ x := fun he =>
      ha (List.mem_cons_of_mem node (he ▸ hx))
    have hnode : a ≠ node := fun he => ha (he ▸ List.mem_cons_self)
    rw [hlink.next, hlink.prev, Function.update_of_ne (hmem (last_mem bs)),
      Function.update_of_ne (hmem (first_mem as)), Function.update_of_ne hnode,
      Function.update_of_ne hnode]
    exact ⟨rfl, rfl⟩

/-- The place behind the first part of a ring takes a new entry. -/
theorem add {node : α} (hr : Ring h head (as ++ bs)) (hnode : (h.val node).isSome)
    (hnew : node ∉ head :: (as ++ bs)) :
    ∃ h', h.add node (as.getLastD head) = some h' ∧ Ring h' head (as ++ node :: bs) ∧
      h'.val = h.val ∧
      ∀ a ∉ node :: head :: (as ++ bs), h'.next a = h.next a ∧ h'.prev a = h.prev a := by
  obtain ⟨hnext, hprev⟩ := hr.linked
  have hne : as.getLastD head ≠ node := fun he => hnew (he ▸ last_mem bs)
  obtain ⟨h', hadd, hlink⟩ := add_spec hnode hnext (isSome_val_of_prev hprev) hne
  obtain ⟨hring, hframe⟩ := hr.of_linking hnew hlink
  exact ⟨h', hadd, hring, hlink.val, hframe⟩

theorem addTail {node : α} (hr : Ring h head xs) (hnode : (h.val node).isSome)
    (hnew : node ∉ head :: xs) :
    ∃ h', h.addTail node head = some h' ∧ Ring h' head (xs ++ [node]) ∧ h'.val = h.val ∧
      ∀ a ∉ node :: head :: xs, h'.next a = h.next a ∧ h'.prev a = h.prev a := by
  rw [← List.append_nil xs] at hr hnew
  obtain ⟨hnext, hprev⟩ := hr.linked
  have hne : head ≠ node := fun he => hnew (he ▸ List.mem_cons_self)
  obtain ⟨h', hadd, hlink⟩ := addTail_spec hnode hprev (isSome_val_of_next hnext) hne
  obtain ⟨hring, hframe⟩ := hr.of_linking hnew hlink
  rw [List.append_nil] at hframe
  exact ⟨h', hadd, hring, hlink.val, hframe⟩

theorem del {entry : α} (hr : Ring h head (as ++ entry :: bs)) :
    ∃ h', h.del entry = some h' ∧ Ring h' head (as ++ bs) ∧ h'.val = h.val ∧
      ∀ a ∉ head :: (as ++ entry :: bs), h'.next a = h.next a ∧ h'.prev a = h.prev a := by
  have hnodup := hr.nodup
  have hnext := hr.next_of_mem
  have hprev := hr.prev_of_mem
  have hsplit (cs : List α) : head :: (as ++ cs) ++ [head] = (head :: as) ++ (cs ++ [head]) := by
    simp
  have hchain := hr.chain
  rw [hsplit] at hchain
  have hperm : (head :: (as ++ entry :: bs)).Perm (entry :: head :: (as ++ bs)) :=
    (List.perm_middle.cons head).trans (List.Perm.swap entry head _)
  obtain ⟨hentry, hrest⟩ := List.nodup_cons.mp (hperm.nodup_iff.mp hnodup)
  have hentry₁ : entry ∉ head :: as := fun hmem => hentry <| by
    simp only [List.mem_cons, List.mem_append] at hmem ⊢
    tauto
  have hentry₂ : entry ∉ bs ++ [head] := fun hmem => hentry <| by
    simp only [List.mem_cons, List.mem_append, List.not_mem_nil, or_false] at hmem ⊢
    tauto
  have hlast : as.getLastD head ∈ (head :: as).getLast? := by simp [List.getLast?_cons]
  have hfirst : bs.headD head ∈ (bs ++ [head]).head? := by cases bs <;> rfl
  have hlinked : h.Linked entry (bs.headD head) :=
    (List.isChain_cons.mp (List.isChain_append.mp hchain).2.1).1 _ hfirst
  have hlinked' : h.Linked (as.getLastD head) entry :=
    (List.isChain_append.mp hchain).2.2 _ hlast entry rfl
  have hne : entry ≠ bs.headD head := fun he => hentry (he ▸ first_mem as)
  obtain ⟨h', hdel, hlink⟩ := del_spec hnext hprev (isSome_val_of_prev hlinked.2)
    (isSome_val_of_next hlinked'.1) hne
  refine ⟨h', hdel, ⟨hrest, ?_⟩, hlink.val, fun a ha => ?_⟩
  · rw [hsplit]
    exact hlink.isChain hchain hlast hfirst hentry₁ hentry₂
  · have hmem {x : α} (hx : x ∈ entry :: head :: (as ++ bs)) : a ≠ x := fun he =>
      ha (hperm.mem_iff.mpr (he ▸ hx))
    have hrest {x : α} (hx : x ∈ head :: (as ++ bs)) : a ≠ x := hmem (List.mem_cons_of_mem entry hx)
    have hae : a ≠ entry := hmem List.mem_cons_self
    rw [hlink.next, hlink.prev, Function.update_of_ne hae, Function.update_of_ne hae,
      Function.update_of_ne (hrest (last_mem bs)), Function.update_of_ne (hrest (first_mem as))]
    exact ⟨rfl, rfl⟩

end Ring

/-! ## Several rings in one heap -/

variable {ι : Type*} {head : ι → α} {L : ι → List α}

/-- A ring for every index, no two of them with a common cell. -/
structure Rings (h : Heap α β) (head : ι → α) (L : ι → List α) : Prop where
  ring : ∀ i, Ring h (head i) (L i)
  apart : ∀ i j a, a ∈ head i :: L i → a ∈ head j :: L j → i = j

/-- A cell on none of the rings. -/
def Loose (head : ι → α) (L : ι → List α) (a : α) : Prop := ∀ i, a ∉ head i :: L i

namespace Rings

theorem congr (hr : Rings h head L)
    (heq : ∀ a, ¬ Loose head L a → h'.next a = h.next a ∧ h'.prev a = h.prev a) :
    Rings h' head L :=
  ⟨fun i => (hr.ring i).congr fun a ha => heq a fun hloose => hloose i ha, hr.apart⟩

variable [DecidableEq ι] {i : ι}

/-- One ring changes, keeping its cells or taking loose ones; the others are left alone. -/
theorem replace {ys : List α} (hr : Rings h head L) (hring : Ring h' (head i) ys)
    (hys : ∀ a ∈ ys, a ∈ L i ∨ Loose head L a)
    (heq : ∀ a ∉ ys, a ∉ head i :: L i → h'.next a = h.next a ∧ h'.prev a = h.prev a) :
    Rings h' head (Function.update L i ys) := by
  have hout {j : ι} (hj : j ≠ i) {a : α} (ha : a ∈ head j :: L j) : a ∉ ys ∧ a ∉ head i :: L i := by
    have hi : a ∉ head i :: L i := fun hi => hj (hr.apart j i a ha hi)
    refine ⟨fun hy => ?_, hi⟩
    rcases hys a hy with hy | hy
    · exact hi (List.mem_cons_of_mem _ hy)
    · exact hy j ha
  have hin {a : α} (ha : a ∈ head i :: ys) : a ∈ ys ∨ a ∈ head i :: L i := by
    rcases List.mem_cons.mp ha with rfl | ha
    · exact Or.inr List.mem_cons_self
    · exact Or.inl ha
  refine ⟨fun j => ?_, fun j k a hj hk => ?_⟩
  · by_cases hj : j = i
    · subst hj
      rwa [Function.update_self]
    · rw [Function.update_of_ne hj]
      exact (hr.ring j).congr fun a ha => heq a (hout hj ha).1 (hout hj ha).2
  · by_cases hji : j = i <;> by_cases hki : k = i
    · exact hji.trans hki.symm
    · subst hji
      rw [Function.update_self] at hj
      rw [Function.update_of_ne hki] at hk
      have := hout hki hk
      exact absurd (hin hj) (by tauto)
    · subst hki
      rw [Function.update_self] at hk
      rw [Function.update_of_ne hji] at hj
      have := hout hji hj
      exact absurd (hin hk) (by tauto)
    · rw [Function.update_of_ne hji] at hj
      rw [Function.update_of_ne hki] at hk
      exact hr.apart j k a hj hk

variable [DecidableEq α] {as bs : List α}

theorem del {entry : α} (hr : Rings h head L) (hL : L i = as ++ entry :: bs) :
    ∃ h', h.del entry = some h' ∧ Rings h' head (Function.update L i (as ++ bs)) ∧
      h'.val = h.val ∧ Loose head (Function.update L i (as ++ bs)) entry := by
  have hring := hr.ring i
  rw [hL] at hring
  obtain ⟨h', hdel, hring', hval, heq⟩ := hring.del
  have hsub : ∀ a ∈ as ++ bs, a ∈ L i := fun a ha => by
    rw [hL]
    exact ((List.sublist_cons_self entry bs).append_left as).subset ha
  refine ⟨h', hdel, hr.replace hring' (fun a ha => Or.inl (hsub a ha))
    (fun a _ ha => heq a (hL ▸ ha)), hval, fun j hj => ?_⟩
  have hmem : entry ∈ head i :: L i := by
    rw [hL]
    simp
  by_cases hji : j = i
  · subst hji
    rw [Function.update_self] at hj
    have hperm : (head j :: (as ++ entry :: bs)).Perm (entry :: head j :: (as ++ bs)) :=
      (List.perm_middle.cons (head j)).trans (List.Perm.swap entry (head j) _)
    exact (List.nodup_cons.mp (hperm.nodup_iff.mp hring.nodup)).1 hj
  · rw [Function.update_of_ne hji] at hj
    exact hji (hr.apart j i entry hj hmem)

theorem add {node : α} (hr : Rings h head L) (hL : L i = as ++ bs) (hnode : (h.val node).isSome)
    (hloose : Loose head L node) :
    ∃ h', h.add node (as.getLastD (head i)) = some h' ∧
      Rings h' head (Function.update L i (as ++ node :: bs)) ∧ h'.val = h.val := by
  have hring := hr.ring i
  have hnew := hloose i
  rw [hL] at hring hnew
  obtain ⟨h', hadd, hring', hval, heq⟩ := hring.add hnode hnew
  refine ⟨h', hadd, hr.replace hring' (fun a ha => ?_) (fun a ha hmem => heq a ?_), hval⟩
  · rcases List.mem_cons.mp (List.perm_middle.mem_iff.mp ha) with rfl | ha
    · exact Or.inr hloose
    · exact Or.inl (hL ▸ ha)
  · rw [hL] at hmem
    refine mt List.mem_cons.mp (not_or.mpr ⟨fun he => ha ?_, hmem⟩)
    rw [he]
    simp

theorem addTail {node : α} (hr : Rings h head L) (hnode : (h.val node).isSome)
    (hloose : Loose head L node) :
    ∃ h', h.addTail node (head i) = some h' ∧
      Rings h' head (Function.update L i (L i ++ [node])) ∧ h'.val = h.val := by
  obtain ⟨h', hadd, hring', hval, heq⟩ := (hr.ring i).addTail hnode (hloose i)
  refine ⟨h', hadd, hr.replace hring' (fun a ha => ?_) (fun a ha hmem => heq a ?_), hval⟩
  · rcases List.mem_append.mp ha with ha | ha
    · exact Or.inl ha
    · exact Or.inr (List.mem_singleton.mp ha ▸ hloose)
  · refine mt List.mem_cons.mp (not_or.mpr ⟨fun he => ha ?_, hmem⟩)
    rw [he]
    simp

end Rings

end LuaKcp
