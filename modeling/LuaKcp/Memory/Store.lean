import LuaKcp.Foundations.Ring
import LuaKcp.Ikcp.Control

/-!
# The segments in memory

The four queues of a control block are rings through the segments, each segment allocated on its
own. A `Store` is that memory: the four heads, which lie in the control block, and the segments that
are allocated. `Laid` says what it holds when nothing has gone wrong: four rings apart from each
other, every segment on one of them but for at most one which the program has in its hands.
-/

namespace LuaKcp.Ikcp

/-- The queues of `IKCPCB`. -/
inductive Queue
  | sndQueue
  | rcvQueue
  | sndBuf
  | rcvBuf
  deriving DecidableEq

/-- The address of an `IQUEUEHEAD`: in the control block, or in the `n`-th segment allocated. -/
inductive Addr
  | head (q : Queue)
  | seg (n : ℕ)
  deriving DecidableEq

/-- The heads store no segment. Addresses are not given out twice, those from `fresh` on are new. -/
structure Store where
  heap : Heap Addr (Option Ikcpseg)
  fresh : ℕ

/-- A segment and its address. -/
abbrev Entry := Addr × Ikcpseg

/-- The addresses of the entries. -/
def addrs (E : Queue → List Entry) (q : Queue) : List Addr := (E q).map Prod.fst

/-- The first of some entries at the end of a queue, or its head. -/
def first (q : Queue) (entries : List Entry) : Addr := (entries.map Prod.fst).headD (.head q)

/-- The last of some entries at the start of a queue, or its head. -/
def last (q : Queue) (entries : List Entry) : Addr := (entries.map Prod.fst).getLastD (.head q)

@[simp] theorem first_nil (q : Queue) : first q [] = .head q := rfl

@[simp] theorem first_cons (q : Queue) (e : Entry) (entries : List Entry) :
    first q (e :: entries) = e.1 := rfl

namespace Store

variable (s : Store)

/-- More rounds than a loop over a queue can take. -/
def rounds : ℕ := s.fresh + 1

/-- The segment at an address, as `iqueue_entry` finds it. -/
def segment (a : Addr) : Option Ikcpseg := (s.heap.val a).join

/-- Write to a segment. -/
def setSegment (a : Addr) (seg : Ikcpseg) : Option Store := do
  let _ ← s.segment a
  let heap ← s.heap.setVal a (some seg)
  some { s with heap }

/-- `ikcp_segment_new`, and the fields filled in; the pointers are not. -/
def malloc (seg : Ikcpseg) : Addr × Store :=
  (.seg s.fresh,
    { heap := Function.update s.heap (.seg s.fresh) (some ⟨none, none, some seg⟩)
      fresh := s.fresh + 1 })

/-- `ikcp_segment_delete`. -/
def free (a : Addr) : Option Store := do
  let _ ← s.segment a
  some { s with heap := Function.update s.heap a none }

/-- `iqueue_init`. -/
def init (a : Addr) : Option Store := do
  let heap ← s.heap.init a
  some { s with heap }

/-- `iqueue_add`. -/
def add (node head : Addr) : Option Store := do
  let heap ← s.heap.add node head
  some { s with heap }

/-- `iqueue_add_tail`. -/
def addTail (node head : Addr) : Option Store := do
  let heap ← s.heap.addTail node head
  some { s with heap }

/-- `iqueue_del`. -/
def del (entry : Addr) : Option Store := do
  let heap ← s.heap.del entry
  some { s with heap }

end Store

theorem addrs_update (E : Queue → List Entry) (q : Queue) (entries : List Entry) :
    addrs (Function.update E q entries) =
      Function.update (addrs E) q (entries.map Prod.fst) := by
  funext q'
  by_cases hq : q' = q
  · subst hq
    simp [addrs]
  · simp [addrs, Function.update_of_ne hq]

/-- An address stands in one queue, and there once. -/
theorem eq_of_addr {heap : Heap Addr (Option Ikcpseg)} {E : Queue → List Entry} {q q' : Queue}
    {e e' : Entry} (hr : Rings heap .head (addrs E)) (he : e ∈ E q) (he' : e' ∈ E q')
    (heq : e.1 = e'.1) : e = e' := by
  have hmem : e.1 ∈ addrs E q := List.mem_map_of_mem he
  have hmem' : e.1 ∈ addrs E q' := heq ▸ List.mem_map_of_mem he'
  obtain rfl := hr.apart q q' e.1 (List.mem_cons_of_mem _ hmem) (List.mem_cons_of_mem _ hmem')
  exact List.inj_on_of_nodup_map (List.nodup_cons.mp (hr.ring q).nodup).2 he he' heq

/-- The queues are rings through the entries `E`, and one more segment may be held. -/
structure Laid (s : Store) (E : Queue → List Entry) (held : Option Entry) : Prop where
  rings : Rings s.heap .head (addrs E)
  vals : ∀ q, ∀ e ∈ E q, s.segment e.1 = some e.2
  inHand : ∀ e ∈ held, s.segment e.1 = some e.2 ∧ Loose .head (addrs E) e.1
  live : ∀ n, (s.heap.val (.seg n)).isSome → (∃ e ∈ held, e.1 = .seg n) ∨ ∃ q, .seg n ∈ addrs E q
  fresh : ∀ n, s.fresh ≤ n → s.heap.val (.seg n) = none

namespace Laid

variable {s : Store} {E : Queue → List Entry} {held : Option Entry} {q : Queue} {e : Entry}
  {as bs : List Entry}

/-! ## What is read -/

theorem next_head (hl : Laid s E held) (q : Queue) :
    s.heap.next (.head q) = some (first q (E q)) := (hl.rings.ring q).next_head

theorem prev_head (hl : Laid s E held) (q : Queue) :
    s.heap.prev (.head q) = some (last q (E q)) := (hl.rings.ring q).prev_head

theorem ring_split (hl : Laid s E held) (hE : E q = as ++ e :: bs) :
    Ring s.heap (.head q) (as.map Prod.fst ++ e.1 :: bs.map Prod.fst) := by
  have hring := hl.rings.ring q
  unfold addrs at hring
  rwa [hE, List.map_append, List.map_cons] at hring

theorem next (hl : Laid s E held) (hE : E q = as ++ e :: bs) :
    s.heap.next e.1 = some (first q bs) := (hl.ring_split hE).next_of_mem

theorem prev (hl : Laid s E held) (hE : E q = as ++ e :: bs) :
    s.heap.prev e.1 = some (last q as) := (hl.ring_split hE).prev_of_mem

theorem segment (hl : Laid s E held) (hE : E q = as ++ e :: bs) : s.segment e.1 = some e.2 :=
  hl.vals q e (by rw [hE]; simp)

theorem isEmpty (hl : Laid s E held) (q : Queue) :
    s.heap.isEmpty (.head q) = some (decide (E q = [])) := by
  rw [(hl.rings.ring q).isEmpty]
  simp [addrs]

/-- No entry is a head. -/
theorem ne_head (hl : Laid s E held) (he : e ∈ E q) (q' : Queue) : e.1 ≠ .head q' := by
  intro heq
  have hmem : e.1 ∈ addrs E q := List.mem_map_of_mem he
  rw [heq] at hmem
  obtain rfl := hl.rings.apart q' q _ List.mem_cons_self (List.mem_cons_of_mem _ hmem)
  exact (List.nodup_cons.mp (hl.rings.ring q').nodup).1 hmem

theorem lt_fresh (hl : Laid s E held) (he : e ∈ E q) : ∃ n < s.fresh, e.1 = .seg n := by
  have hval := hl.vals q e he
  cases ha : e.1 with
  | head q' => exact absurd ha (hl.ne_head he q')
  | seg n =>
    refine ⟨n, ?_, rfl⟩
    by_contra hn
    rw [ha] at hval
    simp [Store.segment, hl.fresh n (not_lt.mp hn)] at hval

/-- A queue has no more entries than segments have been allocated. -/
theorem length_le (hl : Laid s E held) (q : Queue) : (E q).length ≤ s.fresh := by
  have hnodup : (addrs E q).Nodup := (List.nodup_cons.mp (hl.rings.ring q).nodup).2
  have hsub : addrs E q ⊆ (List.range s.fresh).map Addr.seg := by
    intro a ha
    obtain ⟨e, he, rfl⟩ := List.mem_map.mp ha
    obtain ⟨n, hn, heq⟩ := hl.lt_fresh he
    exact List.mem_map.mpr ⟨n, List.mem_range.mpr hn, heq.symm⟩
  have hle := (hnodup.subperm hsub).length_le
  simpa [addrs] using hle

theorem lt_rounds (hl : Laid s E held) (q : Queue) : (E q).length < s.rounds :=
  Nat.lt_succ_of_le (hl.length_le q)

/-! ## What is done -/

/-- An entry of one of the queues. -/
def Queued (E : Queue → List Entry) (e : Entry) : Prop := ∃ q, e ∈ E q

theorem queued_iff (q : Queue) : Queued E e ↔ e ∈ E q ∨ ∃ q', q' ≠ q ∧ e ∈ E q' := by
  constructor
  · rintro ⟨q', he⟩
    by_cases hq : q' = q
    · exact Or.inl (hq ▸ he)
    · exact Or.inr ⟨q', hq, he⟩
  · rintro (he | ⟨q', -, he⟩)
    · exact ⟨q, he⟩
    · exact ⟨q', he⟩

theorem queued_update {entries : List Entry} :
    Queued (Function.update E q entries) e ↔ e ∈ entries ∨ ∃ q', q' ≠ q ∧ e ∈ E q' := by
  rw [queued_iff q, Function.update_self]
  refine or_congr_right (exists_congr fun q' => and_congr_right fun hq => ?_)
  rw [Function.update_of_ne hq]

variable {s' : Store}

/-- The pointers change, and with them the place of the entries. -/
theorem of_val {E' : Queue → List Entry} {held' : Option Entry} (hl : Laid s E held)
    (hrings : Rings s'.heap .head (addrs E')) (hval : s'.heap.val = s.heap.val)
    (hfresh : s'.fresh = s.fresh) (hloose : ∀ e ∈ held', Loose .head (addrs E') e.1)
    (hmem : ∀ e, (Queued E' e ∨ e ∈ held') ↔ (Queued E e ∨ e ∈ held)) : Laid s' E' held' := by
  have hsegment {e : Entry} (he : Queued E' e ∨ e ∈ held') : s'.segment e.1 = some e.2 := by
    unfold Store.segment
    rw [hval]
    rcases (hmem e).mp he with ⟨q, he⟩ | he
    · exact hl.vals q e he
    · exact (hl.inHand e he).1
  refine ⟨hrings, fun q e he => hsegment (Or.inl ⟨q, he⟩),
    fun e he => ⟨hsegment (Or.inr he), hloose e he⟩, fun n hn => ?_, fun n hn => ?_⟩
  · rw [hval] at hn
    have hold : ∃ e : Entry, (Queued E e ∨ e ∈ held) ∧ e.1 = .seg n := by
      rcases hl.live n hn with ⟨e, he, heq⟩ | ⟨q, hq⟩
      · exact ⟨e, Or.inr he, heq⟩
      · obtain ⟨e, he, heq⟩ := List.mem_map.mp hq
        exact ⟨e, Or.inl ⟨q, he⟩, heq⟩
    obtain ⟨e, he, heq⟩ := hold
    rcases (hmem e).mpr he with ⟨q, he⟩ | he
    · exact Or.inr ⟨q, List.mem_map.mpr ⟨e, he, heq⟩⟩
    · exact Or.inl ⟨e, he, heq⟩
  · rw [hval]
    exact hl.fresh n (hfresh ▸ hn)

theorem isSome_val (h : s.segment e.1 = some e.2) : (s.heap.val e.1).isSome := by
  unfold Store.segment at h
  cases hv : s.heap.val e.1 with
  | none => simp [hv] at h
  | some v => rfl

theorem del (hl : Laid s E none) (hE : E q = as ++ e :: bs) :
    ∃ s', s.del e.1 = some s' ∧ Laid s' (Function.update E q (as ++ bs)) (some e) := by
  have haddrs : addrs E q = as.map Prod.fst ++ e.1 :: bs.map Prod.fst := by
    rw [addrs, hE, List.map_append, List.map_cons]
  obtain ⟨heap, hdel, hrings, hval, hloose⟩ := hl.rings.del haddrs
  rw [← List.map_append, ← addrs_update] at hrings hloose
  refine ⟨{ s with heap }, by simp [Store.del, hdel], hl.of_val hrings hval rfl ?_ ?_⟩
  · rintro e' he'
    obtain rfl := Option.some.inj he'
    exact hloose
  · intro e'
    rw [queued_update, queued_iff q, hE]
    simp only [List.mem_append, List.mem_cons, Option.mem_some_iff, Option.not_mem_none]
    grind

theorem init (hl : Laid s E (some e)) :
    ∃ s', s.init e.1 = some s' ∧ Laid s' E (some e) := by
  obtain ⟨hseg, hloose⟩ := hl.inHand e rfl
  obtain ⟨heap, hinit, hnext, hprev, hval⟩ := Heap.init_spec (isSome_val hseg)
  refine ⟨{ s with heap }, by simp [Store.init, hinit],
    hl.of_val (hl.rings.congr fun a ha => ?_) hval rfl (fun e' he' => (hl.inHand e' he').2)
      fun _ => Iff.rfl⟩
  have hne : a ≠ e.1 := fun heq => ha (heq ▸ hloose)
  rw [hnext, hprev, Function.update_of_ne hne, Function.update_of_ne hne]
  exact ⟨rfl, rfl⟩

theorem add (hl : Laid s E (some e)) (hE : E q = as ++ bs) :
    ∃ s', s.add e.1 (last q as) = some s' ∧
      Laid s' (Function.update E q (as ++ e :: bs)) none := by
  obtain ⟨hseg, hloose⟩ := hl.inHand e rfl
  have haddrs : addrs E q = as.map Prod.fst ++ bs.map Prod.fst := by
    rw [addrs, hE, List.map_append]
  obtain ⟨heap, hadd, hrings, hval⟩ := hl.rings.add haddrs (isSome_val hseg) hloose
  have hmap : as.map Prod.fst ++ e.1 :: bs.map Prod.fst = (as ++ e :: bs).map Prod.fst := by simp
  rw [hmap, ← addrs_update] at hrings
  change s.heap.add e.1 (last q as) = some heap at hadd
  refine ⟨{ s with heap }, by simp [Store.add, hadd],
    hl.of_val hrings hval rfl (fun _ h => absurd h (Option.not_mem_none _)) fun e' => ?_⟩
  rw [queued_update, queued_iff q, hE]
  simp only [List.mem_append, List.mem_cons, Option.mem_some_iff, Option.not_mem_none]
  grind

theorem addTail (hl : Laid s E (some e)) (q : Queue) :
    ∃ s', s.addTail e.1 (.head q) = some s' ∧
      Laid s' (Function.update E q (E q ++ [e])) none := by
  obtain ⟨hseg, hloose⟩ := hl.inHand e rfl
  obtain ⟨heap, hadd, hrings, hval⟩ := hl.rings.addTail (i := q) (isSome_val hseg) hloose
  have hmap : addrs E q ++ [e.1] = (E q ++ [e]).map Prod.fst := by simp [addrs]
  rw [hmap, ← addrs_update] at hrings
  refine ⟨{ s with heap }, by simp [Store.addTail, hadd],
    hl.of_val hrings hval rfl (fun _ h => absurd h (Option.not_mem_none _)) fun e' => ?_⟩
  rw [queued_update, queued_iff q]
  simp only [List.mem_append, List.mem_cons, List.not_mem_nil, Option.mem_some_iff,
    Option.not_mem_none]
  grind

/-- Writing to one address leaves the cells at the others. -/
theorem update_spec {h : Heap Addr (Option Ikcpseg)} {a x : Addr}
    {c : Option (Cell Addr (Option Ikcpseg))} (hne : x ≠ a) :
    Heap.next (Function.update h a c) x = h.next x ∧
      Heap.prev (Function.update h a c) x = h.prev x ∧
      Heap.val (Function.update h a c) x = h.val x := by
  simp [Heap.next, Heap.prev, Heap.val, hne]

theorem malloc (hl : Laid s E none) (seg : Ikcpseg) :
    Laid (s.malloc seg).2 E (some ((s.malloc seg).1, seg)) := by
  have hnew : Loose .head (addrs E) (.seg s.fresh) := by
    intro q hmem
    rcases List.mem_cons.mp hmem with heq | hmem
    · exact Addr.noConfusion heq
    · obtain ⟨e, he, heq⟩ := List.mem_map.mp hmem
      obtain ⟨n, hn, hseg⟩ := hl.lt_fresh he
      have hn' : n = s.fresh := Addr.seg.inj (hseg.symm.trans heq)
      omega
  refine ⟨hl.rings.congr fun a ha => ?_, fun q e he => ?_, fun e he => ?_, fun n hn => ?_,
    fun n hn => ?_⟩
  · have hne : a ≠ .seg s.fresh := fun heq => ha (heq ▸ hnew)
    exact ⟨(update_spec hne).1, (update_spec hne).2.1⟩
  · have hne : e.1 ≠ .seg s.fresh := fun heq =>
      hnew q (heq ▸ List.mem_cons_of_mem _ (List.mem_map_of_mem he))
    have hval := hl.vals q e he
    unfold Store.segment at hval ⊢
    rw [← hval]
    exact congrArg Option.join (update_spec hne).2.2
  · obtain rfl := Option.some.inj he
    refine ⟨?_, hnew⟩
    simp [Store.segment, Store.malloc, Heap.val]
  · by_cases hfresh : n = s.fresh
    · exact Or.inl ⟨_, rfl, by rw [hfresh]; rfl⟩
    · have hne : Addr.seg n ≠ .seg s.fresh := fun heq => hfresh (Addr.seg.inj heq)
      refine Or.inr ((hl.live n ?_).resolve_left ?_)
      · have hval := (update_spec (h := s.heap) (c := some ⟨none, none, some seg⟩) hne).2.2
        exact hval ▸ hn
      · rintro ⟨e, he, -⟩
        exact Option.not_mem_none e he
  · have hlt : s.fresh < n := hn
    have hne : Addr.seg n ≠ .seg s.fresh := fun heq => hlt.ne' (Addr.seg.inj heq)
    exact (update_spec hne).2.2.trans (hl.fresh n hlt.le)

theorem free (hl : Laid s E (some e)) : ∃ s', s.free e.1 = some s' ∧ Laid s' E none := by
  obtain ⟨hseg, hloose⟩ := hl.inHand e rfl
  refine ⟨{ s with heap := Function.update s.heap e.1 none }, by simp [Store.free, hseg],
    hl.rings.congr fun a ha => ?_, fun q e' he' => ?_, fun e' he' => absurd he' (by simp),
    fun n hn => ?_, fun n hn => ?_⟩
  · have hne : a ≠ e.1 := fun heq => ha (heq ▸ hloose)
    exact ⟨(update_spec hne).1, (update_spec hne).2.1⟩
  · have hne : e'.1 ≠ e.1 := fun heq =>
      hloose q (heq ▸ List.mem_cons_of_mem _ (List.mem_map_of_mem he'))
    have hval := hl.vals q e' he'
    unfold Store.segment at hval ⊢
    rw [← hval]
    exact congrArg Option.join (update_spec hne).2.2
  · by_cases heq : Addr.seg n = e.1
    · simp [Heap.val, heq] at hn
    · right
      refine (hl.live n ?_).resolve_left ?_
      · rwa [(update_spec heq).2.2] at hn
      · rintro ⟨e', he', heq'⟩
        obtain rfl := Option.some.inj he'
        exact heq heq'.symm
  · by_cases heq : Addr.seg n = e.1
    · simp [Heap.val, heq]
    · rw [(update_spec heq).2.2]
      exact hl.fresh n hn

theorem setSegment (hl : Laid s E none) (hE : E q = as ++ e :: bs) (seg : Ikcpseg) :
    ∃ s', s.setSegment e.1 seg = some s' ∧
      Laid s' (Function.update E q (as ++ (e.1, seg) :: bs)) none := by
  have hseg := hl.segment hE
  obtain ⟨heap, hset, hnext, hprev, hval⟩ := Heap.setVal_spec (isSome_val hseg) (some seg)
  have haddrs : addrs (Function.update E q (as ++ (e.1, seg) :: bs)) = addrs E := by
    have hmap : (as ++ (e.1, seg) :: bs).map Prod.fst = addrs E q := by
      rw [addrs, hE]
      simp
    rw [addrs_update, hmap, Function.update_eq_self]
  have hrings : Rings heap .head (addrs (Function.update E q (as ++ (e.1, seg) :: bs))) := by
    rw [haddrs]
    exact hl.rings.congr fun a _ => by rw [hnext, hprev]; exact ⟨rfl, rfl⟩
  refine ⟨{ s with heap }, by simp [Store.setSegment, hseg, hset], ?_, fun q' e' he' => ?_,
    fun e' he' => absurd he' (by simp), fun n hn => ?_, fun n hn => ?_⟩
  · exact hrings
  · by_cases heq : e'.1 = e.1
    · have hmem : (e.1, seg) ∈ Function.update E q (as ++ (e.1, seg) :: bs) q := by simp
      obtain rfl := eq_of_addr hrings he' hmem heq
      simp [Store.segment, hval]
    · have hold : e' ∈ E q' := by
        by_cases hq : q' = q
        · subst hq
          rw [Function.update_self] at he'
          have hne : e' ≠ (e.1, seg) := fun h => heq (by rw [h])
          rw [hE]
          simp only [List.mem_append, List.mem_cons, hne, false_or] at he' ⊢
          tauto
        · rwa [Function.update_of_ne hq] at he'
      have hseg' := hl.vals q' e' hold
      unfold Store.segment at hseg' ⊢
      rwa [hval, Function.update_of_ne heq]
  · rw [haddrs]
    by_cases heq : Addr.seg n = e.1
    · exact Or.inr ⟨q, by rw [heq, addrs, hE]; simp⟩
    · rw [hval, Function.update_of_ne heq] at hn
      exact hl.live n hn
  · have hne : Addr.seg n ≠ e.1 := by
      obtain ⟨k, hk, hek⟩ := hl.lt_fresh (e := e) (q := q) (by rw [hE]; simp)
      intro heq
      have hnk : n = k := Addr.seg.inj (heq.trans hek)
      change s.fresh ≤ n at hn
      omega
    rw [hval, Function.update_of_ne hne]
    exact hl.fresh n hn

end Laid

end LuaKcp.Ikcp
