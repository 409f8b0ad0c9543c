import LuaKcp.Memory.Block

/-!
# The loops over the queues

What each loop of `ikcp.c` does with the entries of the queue it walks: never fails, ends within
`rounds` rounds, and leaves what the loop on lists leaves. A loop at `p` stands before the entries
that begin at `p`; the induction is on these.
-/

namespace LuaKcp.Ikcp.Memory

variable {m : Memory} {E : Queue → List Entry} {q : Queue} {e : Entry} {as bs : List Entry}

/-- The store holds the entries `E`, and the counters count them. -/
structure Holds (m : Memory) (E : Queue → List Entry) : Prop where
  laid : Laid m.store E none
  count : ∀ q, m.count q = BitVec.ofNat 32 (E q).length

namespace Holds

theorem decr {s : Store} (hm : m.Holds E) (hE : E q = as ++ e :: bs)
    (hl : Laid s (Function.update E q (as ++ bs)) none) :
    Holds ({ m with store := s }.decr q) (Function.update E q (as ++ bs)) := by
  refine ⟨hl, fun q' => ?_⟩
  unfold Memory.decr
  by_cases hq : q' = q
  · subst hq
    have hcount := hm.count q'
    rw [hE] at hcount
    simp only [Function.update_self, List.length_append, List.length_cons] at hcount ⊢
    rw [hcount]
    bv_omega
  · simp only [Function.update_of_ne hq]
    exact hm.count q'

theorem incr {s : Store} (hcount : ∀ q, m.count q = BitVec.ofNat 32 (E q).length)
    (hE : E q = as ++ bs)
    (hl : Laid s (Function.update E q (as ++ e :: bs)) none) :
    Holds ({ m with store := s }.incr q) (Function.update E q (as ++ e :: bs)) := by
  refine ⟨hl, fun q' => ?_⟩
  unfold Memory.incr
  by_cases hq : q' = q
  · subst hq
    have hcount := hcount q'
    rw [hE] at hcount
    simp only [Function.update_self, List.length_append, List.length_cons] at hcount ⊢
    rw [hcount]
    bv_omega
  · simp only [Function.update_of_ne hq]
    exact hcount q'

/-- An entry is unlinked and freed. -/
theorem remove (hm : m.Holds E) (hE : E q = as ++ e :: bs) :
    ∃ s₁ s₂, m.store.del e.1 = some s₁ ∧ s₁.free e.1 = some s₂ ∧
      Holds ({ m with store := s₂ }.decr q) (Function.update E q (as ++ bs)) := by
  obtain ⟨s₁, hdel, hl₁⟩ := hm.laid.del hE
  obtain ⟨s₂, hfree, hl₂⟩ := hl₁.free
  exact ⟨s₁, s₂, hdel, hfree, hm.decr hE hl₂⟩

/-- The first entry of a queue moves to the end of another one. -/
theorem transfer (q' : Queue) (hm : m.Holds E) (hE : E q = e :: bs) (hne : q' ≠ q) :
    ∃ s₁ s₂, m.store.del e.1 = some s₁ ∧ s₁.addTail e.1 (.head q') = some s₂ ∧
      Holds (({ m with store := s₂ }.decr q).incr q')
        (Function.update (Function.update E q bs) q' (E q' ++ [e])) := by
  have hfront : E q = [] ++ e :: bs := hE
  obtain ⟨s₁, hdel, hl₁⟩ := hm.laid.del hfront
  obtain ⟨s₂, hadd, hl₂⟩ := hl₁.addTail q'
  rw [List.nil_append, Function.update_of_ne hne] at hl₂
  refine ⟨s₁, s₂, hdel, hadd, hl₂, fun q'' => ?_⟩
  unfold Memory.incr Memory.decr
  have hcount := hm.count q
  have hcount' := hm.count q'
  rw [hE] at hcount
  by_cases hq' : q'' = q'
  · subst hq'
    simp only [Function.update_self, Function.update_of_ne hne, List.length_append,
      List.length_cons, List.length_nil]
    rw [hcount']
    bv_omega
  · by_cases hq : q'' = q
    · subst hq
      simp only [Function.update_self, Function.update_of_ne hq', List.length_cons] at hcount ⊢
      rw [hcount]
      bv_omega
    · simp only [Function.update_of_ne hq, Function.update_of_ne hq']
      exact hm.count q''

/-- A segment is written to. -/
theorem setSegment (hm : m.Holds E) (hE : E q = as ++ e :: bs) (seg : Ikcpseg) :
    ∃ s, m.store.setSegment e.1 seg = some s ∧
      Holds { m with store := s } (Function.update E q (as ++ (e.1, seg) :: bs)) := by
  obtain ⟨s, hset, hl⟩ := hm.laid.setSegment hE seg
  refine ⟨s, hset, hl, fun q' => ?_⟩
  by_cases hq : q' = q
  · subst hq
    have hcount := hm.count q'
    rw [hE] at hcount
    rw [Function.update_self]
    simpa using hcount
  · rw [Function.update_of_ne hq]
    exact hm.count q'

end Holds

/-! ## Acknowledgements -/

theorem unaLoop_spec (una : U32) {fuel : ℕ} (hm : m.Holds E) (hE : E .sndBuf = bs)
    (hfuel : bs.length < fuel) :
    ∃ m' cs, unaLoop una fuel (first .sndBuf bs) m = some m' ∧
      m'.Holds (Function.update E .sndBuf cs) ∧ m'.fixed = m.fixed ∧
      cs.map Prod.snd = (bs.map Prod.snd).dropWhile fun seg => 0 < itimediff una seg.sn := by
  induction bs generalizing m E fuel with
  | nil =>
    obtain ⟨k, rfl⟩ := Nat.exists_eq_succ_of_ne_zero hfuel.ne_bot
    refine ⟨m, [], by simp [unaLoop], ?_, rfl, rfl⟩
    rwa [← hE, Function.update_eq_self]
  | cons e bs ih =>
    obtain ⟨k, rfl⟩ := Nat.exists_eq_succ_of_ne_zero (Nat.ne_zero_of_lt hfuel)
    have hne : e.1 ≠ .head .sndBuf := hm.laid.ne_head (by rw [hE]; simp) _
    have hfront : E .sndBuf = [] ++ e :: bs := hE
    have hseg := hm.laid.segment hfront
    have hnext := hm.laid.next hfront
    by_cases hacked : 0 < itimediff una e.2.sn
    · obtain ⟨s₁, s₂, hdel, hfree, hm'⟩ := hm.remove hfront
      obtain ⟨m', cs, hloop, hholds, hcb, hmap⟩ :=
        ih hm' (by simp) (Nat.lt_of_succ_lt_succ hfuel)
      refine ⟨m', cs, ?_, ?_, hcb, ?_⟩
      · simp [unaLoop, hne, hseg, hnext, hacked, hdel, hfree, hloop]
      · rwa [Function.update_idem] at hholds
      · simp [hacked, hmap]
    · refine ⟨m, e :: bs, by simp [unaLoop, hne, hseg, hnext, hacked], ?_, rfl, by simp [hacked]⟩
      rwa [← hE, Function.update_eq_self]

theorem ackLoop_spec (sn : U32) {fuel : ℕ} (hm : m.Holds E) (hE : E .sndBuf = as ++ bs)
    (hfuel : bs.length < fuel) :
    ∃ m' cs, ackLoop sn fuel (first .sndBuf bs) m = some m' ∧
      m'.Holds (Function.update E .sndBuf (as ++ cs)) ∧ m'.fixed = m.fixed ∧
      cs.map Prod.snd = Ikcp.ackLoop sn (bs.map Prod.snd) := by
  induction bs generalizing m E as fuel with
  | nil =>
    obtain ⟨k, rfl⟩ := Nat.exists_eq_succ_of_ne_zero hfuel.ne_bot
    refine ⟨m, [], by simp [ackLoop], ?_, rfl, rfl⟩
    rwa [← hE, Function.update_eq_self]
  | cons e bs ih =>
    obtain ⟨k, rfl⟩ := Nat.exists_eq_succ_of_ne_zero (Nat.ne_zero_of_lt hfuel)
    obtain ⟨a, seg⟩ := e
    have hmem : (a, seg) ∈ E .sndBuf := by rw [hE]; simp
    have hne : a ≠ .head .sndBuf := hm.laid.ne_head hmem _
    have hseg : m.store.segment a = some seg := hm.laid.segment hE
    have hnext : m.store.heap.next a = some (first .sndBuf bs) := hm.laid.next hE
    by_cases hsn : sn = seg.sn
    · obtain ⟨s₁, s₂, hdel, hfree, hm'⟩ := hm.remove hE
      refine ⟨_, bs, ?_, hm', rfl, by simp [Ikcp.ackLoop, hsn]⟩
      simp [ackLoop, hne, hseg, hnext, hsn, hdel, hfree]
    · -- the segment has been overtaken and stays
      obtain ⟨s₁, hset, hm'⟩ := hm.setSegment hE { seg with fastack := seg.fastack + 1 }
      rw [List.append_cons] at hm'
      dsimp only at hset hm'
      obtain ⟨m', cs, hloop, hholds, hcb, hmap⟩ :=
        ih hm' (Function.update_self _ _ _) (Nat.lt_of_succ_lt_succ hfuel)
      refine ⟨m', (a, { seg with fastack := seg.fastack + 1 }) :: cs, ?_, ?_, hcb, ?_⟩
      · simp only [ackLoop, first_cons, if_neg hne, hseg, hnext, if_neg hsn, hset,
          Option.bind_eq_bind, Option.bind_some]
        exact hloop
      · rwa [Function.update_idem, ← List.append_cons] at hholds
      · simp [Ikcp.ackLoop, hsn, hmap]

/-! ## The receiving side -/

/-- The counter of `rcv_queue` is compared with the window as the length is. -/
theorem Holds.count_lt (hm : m.Holds E) (hlen : (E q).length < 2 ^ 32) (wnd : U32) :
    m.count q < wnd ↔ (E q).length < wnd.toNat := by
  rw [hm.count q, BitVec.lt_def, BitVec.toNat_ofNat, Nat.mod_eq_of_lt hlen]

theorem moveLoop_spec {fuel : ℕ} (hm : m.Holds E) (hE : E .rcvBuf = bs) (hfuel : bs.length < fuel)
    (hlen : (E .rcvQueue).length < 2 ^ 32) :
    ∃ m' cs ds, moveLoop fuel m = some m' ∧
      m'.Holds (Function.update (Function.update E .rcvBuf cs) .rcvQueue ds) ∧
      ds.length < 2 ^ 32 ∧
      (cs.map Prod.snd, ds.map Prod.snd, m'.fixed) =
        let r := Ikcp.moveLoop m.cb.rcvWnd (bs.map Prod.snd) ((E .rcvQueue).map Prod.snd)
          m.cb.rcvNxt
        (r.1, r.2.1, { m.cb with rcvNxt := r.2.2 }, m.acks, m.buffer) := by
  induction bs generalizing m E fuel with
  | nil =>
    obtain ⟨k, rfl⟩ := Nat.exists_eq_succ_of_ne_zero hfuel.ne_bot
    refine ⟨m, [], E .rcvQueue, ?_, ?_, hlen, rfl⟩
    · have hempty := hm.laid.isEmpty .rcvBuf
      simp [moveLoop, hempty, hE]
    · rwa [← hE, Function.update_eq_self, Function.update_eq_self]
  | cons e bs ih =>
    obtain ⟨k, rfl⟩ := Nat.exists_eq_succ_of_ne_zero (Nat.ne_zero_of_lt hfuel)
    have hempty : m.store.heap.isEmpty (.head .rcvBuf) = some false := by
      rw [hm.laid.isEmpty, hE]
      rfl
    have hfirst : m.store.heap.next (.head .rcvBuf) = some e.1 := by
      rw [hm.laid.next_head, hE, first_cons]
    have hfront : E .rcvBuf = [] ++ e :: bs := hE
    have hseg := hm.laid.segment hfront
    have hcount := hm.count_lt hlen m.cb.rcvWnd
    by_cases hmove : e.2.sn = m.cb.rcvNxt ∧ (E .rcvQueue).length < m.cb.rcvWnd.toNat
    · obtain ⟨s₁, s₂, hdel, hadd, hm'⟩ := hm.transfer .rcvQueue hE (by decide)
      have hm'' : Holds { (({ m with store := s₂ }.decr .rcvBuf).incr .rcvQueue) with
          cb := { m.cb with rcvNxt := m.cb.rcvNxt + 1 } } _ := ⟨hm'.laid, hm'.count⟩
      have hne : Queue.rcvBuf ≠ .rcvQueue := by decide
      obtain ⟨m', cs, ds, hloop, hholds, hds, hres⟩ := ih hm''
        (by rw [Function.update_of_ne hne, Function.update_self]) (Nat.lt_of_succ_lt_succ hfuel)
        (by
          rw [Function.update_self, List.length_append]
          have := m.cb.rcvWnd.isLt
          exact Nat.lt_of_le_of_lt hmove.2 this)
      refine ⟨m', cs, ds, ?_, ?_, hds, ?_⟩
      · have hcond := And.intro hmove.1 (hcount.mpr hmove.2)
        simp only [moveLoop, hempty, hfirst, hseg, if_pos hcond, hdel, decr_store, hadd,
          Option.bind_eq_bind, Option.bind_some, Bool.false_eq_true, if_false]
        exact hloop
      · have hupdate : Function.update (Function.update (Function.update (Function.update E .rcvBuf
            bs) .rcvQueue (E .rcvQueue ++ [e])) .rcvBuf cs) .rcvQueue ds =
            Function.update (Function.update E .rcvBuf cs) .rcvQueue ds := by
          funext q
          cases q <;> rfl
        rwa [hupdate] at hholds
      · rw [hres]
        simp only [Ikcp.moveLoop, List.map_cons, Function.update_self, List.map_append,
          List.map_nil, List.length_map, if_pos hmove]
        rfl
    · refine ⟨m, e :: bs, E .rcvQueue, ?_, ?_, hlen, ?_⟩
      · have hcond : ¬ (e.2.sn = m.cb.rcvNxt ∧ m.count .rcvQueue < m.cb.rcvWnd) := by
          rwa [hcount]
        simp [moveLoop, hempty, hfirst, hseg, hcond]
      · rwa [← hE, Function.update_eq_self, Function.update_eq_self]
      · simp only [Ikcp.moveLoop, List.map_cons, List.length_map, if_neg hmove]
        rfl

/-- The search goes from the tail down; what it has passed is above the new segment. -/
theorem searchLoop_spec {s : Store} {held : Option Entry} (newseg : Ikcpseg) {fuel : ℕ}
    (hl : Laid s E held) (hE : E .rcvBuf = as ++ bs) (hfuel : as.length < fuel) :
    ∃ rep p, searchLoop s newseg.sn fuel (last .rcvBuf as) = some (rep, p) ∧
      ((rep = true ∧ insertLoop newseg (as.map Prod.snd).reverse = none) ∨
        rep = false ∧ ∃ as₁ as₂, as = as₁ ++ as₂ ∧ p = last .rcvBuf as₁ ∧
          insertLoop newseg (as.map Prod.snd).reverse =
            some (as₁.map Prod.snd ++ newseg :: as₂.map Prod.snd).reverse) := by
  induction as using List.reverseRecOn generalizing bs fuel with
  | nil =>
    obtain ⟨k, rfl⟩ := Nat.exists_eq_succ_of_ne_zero hfuel.ne_bot
    refine ⟨false, last .rcvBuf [], by simp [searchLoop, last], Or.inr ⟨rfl, [], [], rfl, rfl, ?_⟩⟩
    simp [insertLoop]
  | append_singleton as e ih =>
    obtain ⟨k, rfl⟩ := Nat.exists_eq_succ_of_ne_zero (Nat.ne_zero_of_lt hfuel)
    have hlast : last .rcvBuf (as ++ [e]) = e.1 := by simp [last]
    rw [List.append_assoc, List.singleton_append] at hE
    have hne : e.1 ≠ .head .rcvBuf := hl.ne_head (by rw [hE]; simp) _
    have hseg := hl.segment hE
    have hprev := hl.prev hE
    have hrev : ((as ++ [e]).map Prod.snd).reverse = e.2 :: (as.map Prod.snd).reverse := by simp
    rw [hlast, hrev]
    unfold insertLoop
    by_cases hsn : e.2.sn = newseg.sn
    · refine ⟨true, e.1, ?_, Or.inl ⟨rfl, if_pos hsn⟩⟩
      simp [searchLoop, hne, hseg, hprev, hsn]
    · rw [if_neg hsn]
      by_cases habove : itimediff newseg.sn e.2.sn > 0
      · refine ⟨false, e.1, ?_, Or.inr ⟨rfl, as ++ [e], [], by simp, hlast.symm, ?_⟩⟩
        · simp only [searchLoop, if_neg hne, hseg, hprev, if_neg hsn, if_pos habove,
            Option.bind_eq_bind, Option.bind_some]
        · rw [if_pos habove]
          simp
      · rw [if_neg habove]
        have hlt : as.length < k := by
          rw [List.length_append, List.length_singleton] at hfuel
          omega
        obtain ⟨rep, p, hloop, hres⟩ := ih hE hlt
        refine ⟨rep, p, ?_, ?_⟩
        · simp only [searchLoop, if_neg hne, hseg, hprev, if_neg hsn, if_neg habove,
            Option.bind_eq_bind, Option.bind_some]
          exact hloop
        · rcases hres with ⟨hrep, hnone⟩ | ⟨hrep, as₁, as₂, hsplit, hp, hsome⟩
          · exact Or.inl ⟨hrep, by rw [hnone]; rfl⟩
          · refine Or.inr ⟨hrep, as₁, as₂ ++ [e], by rw [hsplit]; simp, hp, ?_⟩
            rw [hsome]
            simp

theorem peekLoop_spec {s : Store} {held : Option Entry} {fuel : ℕ} (length : ℕ)
    (hl : Laid s E held) (hE : E .rcvQueue = as ++ bs) (hfuel : bs.length < fuel)
    (hlen : length + Ikcp.peekLoop (bs.map Prod.snd) < 2 ^ 31) :
    peekLoop s fuel (first .rcvQueue bs) length =
      some ((length + Ikcp.peekLoop (bs.map Prod.snd) : ℕ) : ℤ) := by
  induction bs generalizing as fuel length with
  | nil =>
    obtain ⟨k, rfl⟩ := Nat.exists_eq_succ_of_ne_zero hfuel.ne_bot
    simp [peekLoop, Ikcp.peekLoop]
  | cons e bs ih =>
    obtain ⟨k, rfl⟩ := Nat.exists_eq_succ_of_ne_zero (Nat.ne_zero_of_lt hfuel)
    have hne : e.1 ≠ .head .rcvQueue := hl.ne_head (by rw [hE]; simp) _
    have hseg := hl.segment hE
    have hnext := hl.next hE
    have hrest := hE
    rw [List.append_cons] at hrest
    rw [List.map_cons, Ikcp.peekLoop] at hlen ⊢
    have hle : length + e.2.data.length < 2 ^ 31 := by
      split_ifs at hlen <;> omega
    have hint : toInt32 (length + e.2.data.length) = ((length + e.2.data.length : ℕ) : ℤ) := by
      rw [← Int.natCast_add, toInt32_of_lt hle]
    by_cases hfrg : e.2.frg = 0
    · simp [peekLoop, hne, hseg, hfrg, hint]
    · rw [if_neg hfrg, ← Nat.add_assoc] at hlen ⊢
      have hloop := ih (length + e.2.data.length) hrest (Nat.lt_of_succ_lt_succ hfuel) hlen
      simp only [peekLoop, first_cons, if_neg hne, hseg, hnext, if_neg hfrg, hint,
        Option.bind_eq_bind, Option.bind_some]
      exact hloop

/-- What a block of the caller holds after a message has been copied to it, `none` for `NULL`. -/
def received (block : Option ℕ) (data : Bytes) : Bytes := if block = none then [] else data

/-- The next fragment is copied, and its length counted. -/
theorem copyTo_received {block : Option ℕ} {done data : Bytes}
    (hblock : ∀ size ∈ block, (done ++ data).length ≤ size) :
    copyTo block (received block done) data = some (received block (done ++ data)) := by
  cases block with
  | none => rfl
  | some size =>
    have hsize := hblock size rfl
    rw [List.length_append] at hsize
    exact if_pos hsize

theorem toInt32_length {done data : Bytes} (h : (done ++ data).length < 2 ^ 31) :
    toInt32 (done.length + data.length) = (done ++ data).length := by
  rw [List.length_append] at h ⊢
  rw [← Int.natCast_add, toInt32_of_lt h]

/-- A fragment that is merged is within what is merged. -/
theorem mergeLoop_cons (done : Bytes) (seg : Ikcpseg) (segs : List Ikcpseg) :
    (done ++ seg.data).length ≤ (done ++ (Ikcp.mergeLoop (seg :: segs)).1).length := by
  unfold Ikcp.mergeLoop
  split_ifs
  · exact le_rfl
  · dsimp only
    rw [← List.append_assoc]
    exact (List.prefix_append (done ++ seg.data) _).length_le

/-- "merge fragment", the segments freed on the way. -/
theorem mergeLoop_spec {block : Option ℕ} {fuel : ℕ} (done : Bytes) (hm : m.Holds E)
    (hE : E .rcvQueue = bs) (hfuel : bs.length < fuel)
    (hblock : ∀ size ∈ block, (done ++ (Ikcp.mergeLoop (bs.map Prod.snd)).1).length ≤ size)
    (hlen : (done ++ (Ikcp.mergeLoop (bs.map Prod.snd)).1).length < 2 ^ 31) :
    ∃ m' cs, mergeLoop block false fuel (first .rcvQueue bs) (received block done) done.length m =
        some (received block (done ++ (Ikcp.mergeLoop (bs.map Prod.snd)).1),
          ((done ++ (Ikcp.mergeLoop (bs.map Prod.snd)).1).length : ℤ), m') ∧
      m'.Holds (Function.update E .rcvQueue cs) ∧ m'.fixed = m.fixed ∧
      cs.map Prod.snd = (Ikcp.mergeLoop (bs.map Prod.snd)).2 := by
  induction bs generalizing m E fuel done with
  | nil =>
    obtain ⟨k, rfl⟩ := Nat.exists_eq_succ_of_ne_zero hfuel.ne_bot
    refine ⟨m, [], by simp [mergeLoop, Ikcp.mergeLoop], ?_, rfl, rfl⟩
    rwa [← hE, Function.update_eq_self]
  | cons e bs ih =>
    obtain ⟨k, rfl⟩ := Nat.exists_eq_succ_of_ne_zero (Nat.ne_zero_of_lt hfuel)
    have hne : e.1 ≠ .head .rcvQueue := hm.laid.ne_head (by rw [hE]; simp) _
    have hfront : E .rcvQueue = [] ++ e :: bs := hE
    have hseg := hm.laid.segment hfront
    have hnext := hm.laid.next hfront
    obtain ⟨s₁, s₂, hdel, hfree, hm'⟩ := hm.remove hfront
    rw [List.map_cons] at hblock hlen ⊢
    have hfirst := mergeLoop_cons done e.2 (bs.map Prod.snd)
    have hcopy := copyTo_received fun size hsize => hfirst.trans (hblock size hsize)
    have hint := toInt32_length (hfirst.trans_lt hlen)
    rw [Ikcp.mergeLoop] at hblock hlen ⊢
    by_cases hfrg : e.2.frg = 0
    · rw [if_pos hfrg]
      refine ⟨_, bs, ?_, hm', rfl, rfl⟩
      simp only [mergeLoop, first_cons, if_neg hne, hseg, hnext, hcopy, hint, hdel, hfree,
        if_pos hfrg, Option.bind_eq_bind, Option.bind_some, Bool.false_eq_true, if_false]
    · rw [if_neg hfrg] at hblock hlen ⊢
      dsimp only at hblock hlen ⊢
      rw [← List.append_assoc] at hblock hlen ⊢
      obtain ⟨m', cs, hloop, hholds, hcb, hmap⟩ :=
        ih (done ++ e.2.data) hm' (by simp) (Nat.lt_of_succ_lt_succ hfuel) hblock hlen
      refine ⟨m', cs, ?_, ?_, hcb, hmap⟩
      · simp only [mergeLoop, first_cons, if_neg hne, hseg, hnext, hcopy, hint, hdel, hfree,
          if_neg hfrg, Option.bind_eq_bind, Option.bind_some, Bool.false_eq_true, if_false]
        exact hloop
      · rwa [Function.update_idem] at hholds

/-- "merge fragment", only peeking. -/
theorem mergeLoop_peek {block : Option ℕ} {fuel : ℕ} (done : Bytes) (hm : m.Holds E)
    (hE : E .rcvQueue = as ++ bs) (hfuel : bs.length < fuel)
    (hblock : ∀ size ∈ block, (done ++ (Ikcp.mergeLoop (bs.map Prod.snd)).1).length ≤ size)
    (hlen : (done ++ (Ikcp.mergeLoop (bs.map Prod.snd)).1).length < 2 ^ 31) :
    mergeLoop block true fuel (first .rcvQueue bs) (received block done) done.length m =
      some (received block (done ++ (Ikcp.mergeLoop (bs.map Prod.snd)).1),
        ((done ++ (Ikcp.mergeLoop (bs.map Prod.snd)).1).length : ℤ), m) := by
  induction bs generalizing as fuel done with
  | nil =>
    obtain ⟨k, rfl⟩ := Nat.exists_eq_succ_of_ne_zero hfuel.ne_bot
    simp [mergeLoop, Ikcp.mergeLoop]
  | cons e bs ih =>
    obtain ⟨k, rfl⟩ := Nat.exists_eq_succ_of_ne_zero (Nat.ne_zero_of_lt hfuel)
    have hne : e.1 ≠ .head .rcvQueue := hm.laid.ne_head (by rw [hE]; simp) _
    have hseg := hm.laid.segment hE
    have hnext := hm.laid.next hE
    have hrest := hE
    rw [List.append_cons] at hrest
    rw [List.map_cons] at hblock hlen ⊢
    have hfirst := mergeLoop_cons done e.2 (bs.map Prod.snd)
    have hcopy := copyTo_received fun size hsize => hfirst.trans (hblock size hsize)
    have hint := toInt32_length (hfirst.trans_lt hlen)
    rw [Ikcp.mergeLoop] at hblock hlen ⊢
    by_cases hfrg : e.2.frg = 0
    · rw [if_pos hfrg]
      simp only [mergeLoop, first_cons, if_neg hne, hseg, hnext, hcopy, hint, if_pos hfrg,
        if_true, Option.bind_eq_bind, Option.bind_some]
    · rw [if_neg hfrg] at hblock hlen ⊢
      dsimp only at hblock hlen ⊢
      rw [← List.append_assoc] at hblock hlen ⊢
      have hloop := ih (done ++ e.2.data) hrest (Nat.lt_of_succ_lt_succ hfuel) hblock hlen
      simp only [mergeLoop, first_cons, if_neg hne, hseg, hnext, hcopy, hint, if_neg hfrg,
        if_true, Option.bind_eq_bind, Option.bind_some]
      exact hloop

/-! ## The sending side -/

theorem sendLoop_spec (mss count len : ℕ) (buffer : Bytes) (hm : m.Holds E)
    (hlen : len ≤ buffer.length) :
    ∃ m' cs, sendLoop mss count buffer len m = some m' ∧
      m'.Holds (Function.update E .sndQueue (E .sndQueue ++ cs)) ∧ m'.fixed = m.fixed ∧
      cs.map Prod.snd = fragments mss count buffer len := by
  induction count generalizing m E buffer len with
  | zero =>
    refine ⟨m, [], rfl, ?_, rfl, rfl⟩
    rwa [List.append_nil, Function.update_eq_self]
  | succ count ih =>
    let size := if len > mss then mss else len
    let seg : Ikcpseg :=
      { conv := 0, cmd := 0, frg := BitVec.ofNat 32 count, wnd := 0, ts := 0, sn := 0, una := 0,
        data := buffer.take size }
    have hsize : size ≤ len := by
      unfold size
      split_ifs with hlt
      · exact hlt.le
      · exact le_rfl
    have hl := hm.laid.malloc seg
    obtain ⟨s₁, hinit, hl₁⟩ := hl.init
    obtain ⟨s₂, hadd, hl₂⟩ := hl₁.addTail .sndQueue
    have hend : E .sndQueue = E .sndQueue ++ [] := (List.append_nil _).symm
    have hm' := Holds.incr hm.count hend hl₂
    obtain ⟨m', cs, hloop, hholds, hcb, hmap⟩ :=
      ih (len - size) (buffer.drop size) hm' (by rw [List.length_drop]; omega)
    refine ⟨m', ((m.store.malloc seg).1, seg) :: cs, ?_, ?_, hcb, ?_⟩
    · have hstep : sendLoop mss (count + 1) buffer len m =
          ((m.store.malloc seg).2.init (m.store.malloc seg).1).bind fun store =>
            (store.addTail (m.store.malloc seg).1 (.head .sndQueue)).bind fun store =>
              sendLoop mss count (buffer.drop size) (len - size)
                ({ m with store }.incr .sndQueue) := by
        rw [sendLoop]
        exact if_neg (by omega)
      rw [hstep, hinit, Option.bind_some, hadd, Option.bind_some]
      exact hloop
    · rwa [Function.update_self, Function.update_idem, ← List.append_cons] at hholds
    · rw [List.map_cons, hmap]
      rfl

/-- What `ikcp_flush` makes of a segment of `snd_queue`. -/
theorem moveToBuf_spec {kcp : Ikcpcb} (wnd cwnd : U32) {nxt : U32} {fuel : ℕ} (hm : m.Holds E)
    (hcb : m.cb = { kcp.bare with sndNxt := nxt }) (hE : E .sndQueue = bs)
    (hfuel : bs.length < fuel) :
    ∃ m' cs ds, moveToBuf wnd cwnd fuel m = some m' ∧
      m'.Holds (Function.update (Function.update E .sndQueue cs) .sndBuf ds) ∧
      (cs.map Prod.snd, ds.map Prod.snd, m'.fixed) =
        let r := Ikcp.moveToBuf kcp wnd cwnd (bs.map Prod.snd) ((E .sndBuf).map Prod.snd) nxt
        (r.1, r.2.1, { kcp.bare with sndNxt := r.2.2 }, m.acks, m.buffer) := by
  induction bs generalizing m E fuel nxt with
  | nil =>
    obtain ⟨k, rfl⟩ := Nat.exists_eq_succ_of_ne_zero hfuel.ne_bot
    refine ⟨m, [], E .sndBuf, ?_, ?_, by rw [fixed, hcb]; rfl⟩
    · have hempty := hm.laid.isEmpty .sndQueue
      simp [moveToBuf, hempty, hE]
    · rwa [← hE, Function.update_eq_self, Function.update_eq_self]
  | cons e bs ih =>
    obtain ⟨k, rfl⟩ := Nat.exists_eq_succ_of_ne_zero (Nat.ne_zero_of_lt hfuel)
    obtain ⟨a, newseg⟩ := e
    have hempty : m.store.heap.isEmpty (.head .sndQueue) = some false := by
      rw [hm.laid.isEmpty, hE]
      rfl
    have hfirst : m.store.heap.next (.head .sndQueue) = some a := by
      rw [hm.laid.next_head, hE, first_cons]
    have hcond : itimediff m.cb.sndNxt (m.cb.sndUna + cwnd) < 0 ↔
        itimediff nxt (kcp.sndUna + cwnd) < 0 := by
      rw [hcb]
      rfl
    by_cases hmove : itimediff nxt (kcp.sndUna + cwnd) < 0
    · obtain ⟨s₁, s₂, hdel, hadd, hm'⟩ := hm.transfer .sndBuf hE (by decide)
      have hseg : s₂.segment a = some newseg := hm'.laid.segment (Function.update_self _ _ _)
      let seg : Ikcpseg := { newseg with
        conv := m.cb.conv, cmd := cmdPush, wnd := wnd, ts := m.cb.current, sn := m.cb.sndNxt,
        una := m.cb.rcvNxt, resendts := m.cb.current, rto := m.cb.rxRto, fastack := 0, xmit := 0 }
      obtain ⟨s₃, hset, hm''⟩ := hm'.setSegment (Function.update_self _ _ _) seg
      rw [Function.update_idem] at hm''
      let m₁ : Memory := { (({ m with store := s₂ }.decr .sndQueue).incr .sndBuf) with
        store := s₃, cb := { m.cb with sndNxt := m.cb.sndNxt + 1 } }
      have hcb₁ : m₁.cb = { kcp.bare with sndNxt := nxt + 1 } := by
        change ({ m.cb with sndNxt := m.cb.sndNxt + 1 } : Ikcpcb) = _
        rw [hcb]
      have hm₁ : m₁.Holds _ := ⟨hm''.laid, hm''.count⟩
      have hne : Queue.sndQueue ≠ .sndBuf := by decide
      obtain ⟨m', cs, ds, hloop, hholds, hres⟩ := ih hm₁ hcb₁
        (by rw [Function.update_of_ne hne, Function.update_self]) (Nat.lt_of_succ_lt_succ hfuel)
      refine ⟨m', cs, ds, ?_, ?_, ?_⟩
      · simp only [moveToBuf, if_pos (hcond.mpr hmove), hempty, hfirst, hdel, hadd, hseg,
          incr_store, decr_store, Option.bind_eq_bind, Option.bind_some, Bool.false_eq_true,
          if_false]
        have hset' : s₂.setSegment a seg = some s₃ := hset
        change (s₂.setSegment a seg).bind _ = some m'
        rw [hset', Option.bind_some]
        exact hloop
      · have hupdate : Function.update (Function.update (Function.update (Function.update E
            .sndQueue bs) .sndBuf (E .sndBuf ++ [(a, seg)])) .sndQueue cs) .sndBuf ds =
            Function.update (Function.update E .sndQueue cs) .sndBuf ds := by
          funext q
          cases q <;> rfl
        rwa [hupdate] at hholds
      · rw [hres]
        have hseg' : seg = { newseg with
            conv := kcp.conv, cmd := cmdPush, wnd := wnd, ts := kcp.current, sn := nxt,
            una := kcp.rcvNxt, resendts := kcp.current, rto := kcp.rxRto, fastack := 0,
            xmit := 0 } := by
          unfold seg
          rw [hcb]
          rfl
        simp only [Ikcp.moveToBuf, List.map_cons, Function.update_self, List.map_append,
          List.map_nil, if_pos hmove, hseg']
        rfl
    · refine ⟨m, (a, newseg) :: bs, E .sndBuf, ?_, ?_, ?_⟩
      · simp only [moveToBuf, if_neg (mt hcond.mp hmove)]
      · rwa [← hE, Function.update_eq_self, Function.update_eq_self]
      · simp only [Ikcp.moveToBuf, List.map_cons, if_neg hmove, fixed, hcb]

/-- The buffer never holds more than a unit, or one segment. -/
theorem put_spec (b : FlushBuf) {need : ℕ} {bytes : Bytes} (hmtu : m.cb.mtu.toNat ≤ m.buffer)
    (hneed : need ≤ m.buffer) (hbytes : bytes.length = need) :
    m.put true b need bytes = some (b.put m.cb.mtu need bytes) ∧
      (b.put m.cb.mtu need bytes).buf.length ≤ m.buffer := by
  have hlen : (b.put m.cb.mtu need bytes).buf.length ≤ m.buffer := by
    unfold FlushBuf.put
    split_ifs with hfull
    · exact hbytes.trans_le hneed
    · rw [List.length_append, hbytes]
      exact (not_lt.mp hfull).trans hmtu
  refine ⟨?_, hlen⟩
  unfold put FlushBuf.within
  rw [if_neg (fun h => Bool.noConfusion h.2), if_pos hlen]

theorem length_encodeAck (seg : Ikcpseg) (hseg : seg.data = []) :
    (encodeSeg seg).length = overhead := by
  rw [length_encodeSeg, hseg]
  rfl

/-- The acknowledgements are read back from the block. -/
theorem flushAcks_spec {acks acks' : List (U32 × U32)} (seg : Ikcpseg) {b : FlushBuf}
    (ha : m.acks.Represents (acks ++ acks')) (hfew : (acks ++ acks').length ≤ 2 ^ 30)
    (hseg : seg.data = []) (hmtu : m.cb.mtu.toNat ≤ m.buffer) (hroom : overhead ≤ m.buffer)
    (hb : b.buf.length ≤ m.buffer) :
    m.flushAcks true acks'.length acks.length seg b =
        some (Ikcp.flushAcks m.cb.mtu acks' seg b) ∧
      (Ikcp.flushAcks m.cb.mtu acks' seg b).1.data = [] ∧
      (Ikcp.flushAcks m.cb.mtu acks' seg b).2.buf.length ≤ m.buffer := by
  induction acks' generalizing acks seg b with
  | nil => exact ⟨rfl, hseg, hb⟩
  | cons ack acks' ih =>
    obtain ⟨sn, ts⟩ := ack
    obtain ⟨hput, hlen⟩ := put_spec b hmtu hroom
      (length_encodeAck { seg with sn := sn, ts := ts } hseg)
    have hget := ha.get hfew
    rw [List.append_cons] at ha hfew
    obtain ⟨hloop, hdata, hlen'⟩ := ih { seg with sn := sn, ts := ts } ha hfew hseg hlen
    rw [List.length_append, List.length_singleton] at hloop
    refine ⟨?_, hdata, hlen'⟩
    simp only [Memory.flushAcks, List.length_cons, hget, hput, Option.bind_eq_bind,
      Option.bind_some]
    exact hloop

theorem flushProbes_spec {seg : Ikcpseg} {b : FlushBuf} (hseg : seg.data = [])
    (hmtu : m.cb.mtu.toNat ≤ m.buffer) (hroom : overhead ≤ m.buffer)
    (hb : b.buf.length ≤ m.buffer) :
    m.flushProbes true seg b = some (m.cb.flushProbes seg b) ∧
      (m.cb.flushProbes seg b).buf.length ≤ m.buffer := by
  -- one command, when it is asked for
  have hput {b : FlushBuf} (cmd : U32) (ask : Prop) [Decidable ask] (hb : b.buf.length ≤ m.buffer) :
      (if ask then m.put true b overhead (encodeSeg { seg with cmd := cmd }) else some b) =
        some (if ask then b.put m.cb.mtu overhead (encodeSeg { seg with cmd := cmd }) else b) ∧
      (if ask then b.put m.cb.mtu overhead (encodeSeg { seg with cmd := cmd })
        else b).buf.length ≤ m.buffer := by
    have hwithin := put_spec b hmtu hroom (length_encodeAck { seg with cmd := cmd } hseg)
    split_ifs
    · exact hwithin
    · exact ⟨rfl, hb⟩
  obtain ⟨hask, hlen⟩ := hput cmdWask (m.cb.probe &&& askSend ≠ 0) hb
  obtain ⟨htell, hlen'⟩ := hput cmdWins (m.cb.probe &&& askTell ≠ 0) hlen
  refine ⟨?_, hlen'⟩
  unfold Memory.flushProbes Ikcpcb.flushProbes
  rw [hask]
  exact htell

/-- A segment that is sent fits in the buffer when its data does. -/
theorem flushSegment_spec (wnd resent rtomin : U32) {seg : Ikcpseg} {acc : FlushAcc}
    (hmtu : m.cb.mtu.toNat ≤ m.buffer) (hseg : overhead + seg.data.length ≤ m.buffer)
    (hacc : acc.buf.buf.length ≤ m.buffer) :
    (if (resendSegment m.cb resent rtomin seg).isSome then
        m.put true acc.buf (overhead + seg.data.length)
          (encodeSeg (flushSegment m.cb wnd resent rtomin seg acc).1)
      else some acc.buf) = some (flushSegment m.cb wnd resent rtomin seg acc).2.buf ∧
      (flushSegment m.cb wnd resent rtomin seg acc).2.buf.buf.length ≤ m.buffer := by
  unfold flushSegment
  cases hresend : resendSegment m.cb resent rtomin seg with
  | none => exact ⟨rfl, hacc⟩
  | some seg' =>
    have hdata : seg'.data = seg.data := data_eq_of_content (content_resendSegment hresend)
    have hneed : overhead + seg'.data.length ≤ m.buffer := by rwa [hdata]
    rw [← hdata]
    exact put_spec acc.buf hmtu hneed (length_encodeSeg _)

/-- A segment sent again is written back where it lies. -/
theorem flushLoop_spec {kcp : Ikcpcb} (wnd resent rtomin : U32) {fuel : ℕ} (acc : FlushAcc)
    (hm : m.Holds E) (hcb : m.cb = kcp.bare) (hE : E .sndBuf = as ++ bs)
    (hfuel : bs.length < fuel) (hmtu : kcp.mtu.toNat ≤ m.buffer)
    (hroom : ∀ e ∈ bs, overhead + e.2.data.length ≤ m.buffer)
    (hacc : acc.buf.buf.length ≤ m.buffer) :
    ∃ m' cs, flushLoop true wnd resent rtomin fuel (first .sndBuf bs) acc m =
        some ((flushData kcp wnd resent rtomin (bs.map Prod.snd) acc).2, m') ∧
      m'.Holds (Function.update E .sndBuf (as ++ cs)) ∧ m'.fixed = m.fixed ∧
      cs.map Prod.snd = (flushData kcp wnd resent rtomin (bs.map Prod.snd) acc).1 := by
  induction bs generalizing m E as fuel acc with
  | nil =>
    obtain ⟨k, rfl⟩ := Nat.exists_eq_succ_of_ne_zero hfuel.ne_bot
    refine ⟨m, [], by simp [flushLoop, flushData], ?_, rfl, rfl⟩
    rwa [← hE, Function.update_eq_self]
  | cons e bs ih =>
    obtain ⟨k, rfl⟩ := Nat.exists_eq_succ_of_ne_zero (Nat.ne_zero_of_lt hfuel)
    have hne : e.1 ≠ .head .sndBuf := hm.laid.ne_head (by rw [hE]; simp) _
    have hseg := hm.laid.segment hE
    have hround : flushSegment m.cb wnd resent rtomin e.2 acc =
        flushSegment kcp wnd resent rtomin e.2 acc := by
      rw [hcb]
      rfl
    have hmtu' : m.cb.mtu.toNat ≤ m.buffer := by
      rw [hcb]
      exact hmtu
    obtain ⟨hput, hlen⟩ := flushSegment_spec wnd resent rtomin hmtu'
      (hroom e List.mem_cons_self) hacc
    rw [hround] at hput hlen
    obtain ⟨s₁, hset, hm'⟩ := hm.setSegment hE (flushSegment kcp wnd resent rtomin e.2 acc).1
    have hnext := hm'.laid.next (Function.update_self _ _ _)
    rw [List.append_cons] at hm'
    obtain ⟨m', cs, hloop, hholds, hcb', hmap⟩ :=
      ih (flushSegment kcp wnd resent rtomin e.2 acc).2 hm' hcb
        (Function.update_self _ _ _) (Nat.lt_of_succ_lt_succ hfuel) hmtu
        (fun e' he' => hroom e' (List.mem_cons_of_mem e he')) hlen
    refine ⟨m', (e.1, (flushSegment kcp wnd resent rtomin e.2 acc).1) :: cs, ?_, ?_, hcb', ?_⟩
    · simp only [flushLoop, first_cons, if_neg hne, hseg, hround, hput, hset, hnext,
        Option.bind_eq_bind, Option.bind_some]
      exact hloop
    · rwa [Function.update_idem, ← List.append_cons] at hholds
    · simp only [List.map_cons, hmap, flushData]

theorem checkLoop_spec {s : Store} {held : Option Entry} (current : U32) {fuel : ℕ}
    (tmPacket : ℤ) (hl : Laid s E held) (hE : E .sndBuf = as ++ bs) (hfuel : bs.length < fuel) :
    checkLoop s current fuel (first .sndBuf bs) tmPacket =
      some (Ikcpcb.checkLoop current (bs.map Prod.snd) tmPacket) := by
  induction bs generalizing as fuel tmPacket with
  | nil =>
    obtain ⟨k, rfl⟩ := Nat.exists_eq_succ_of_ne_zero hfuel.ne_bot
    simp [checkLoop, Ikcpcb.checkLoop]
  | cons e bs ih =>
    obtain ⟨k, rfl⟩ := Nat.exists_eq_succ_of_ne_zero (Nat.ne_zero_of_lt hfuel)
    have hne : e.1 ≠ .head .sndBuf := hl.ne_head (by rw [hE]; simp) _
    have hseg := hl.segment hE
    have hnext := hl.next hE
    have hrest := hE
    rw [List.append_cons] at hrest
    rw [List.map_cons, Ikcpcb.checkLoop]
    by_cases hdue : itimediff e.2.resendts current ≤ 0
    · simp [checkLoop, hne, hseg, hdue]
    · have hloop := ih (if itimediff e.2.resendts current < tmPacket then
        itimediff e.2.resendts current else tmPacket) hrest (Nat.lt_of_succ_lt_succ hfuel)
      simp only [checkLoop, first_cons, if_neg hne, hseg, hnext, if_neg hdue, Option.bind_eq_bind,
        Option.bind_some]
      exact hloop

/-! ## Release -/

theorem releaseLoop_spec {s : Store} {fuel : ℕ} (hl : Laid s E none) (hE : E q = bs)
    (hfuel : bs.length < fuel) :
    ∃ s', releaseLoop q fuel s = some s' ∧ Laid s' (Function.update E q []) none := by
  induction bs generalizing s E fuel with
  | nil =>
    obtain ⟨k, rfl⟩ := Nat.exists_eq_succ_of_ne_zero hfuel.ne_bot
    refine ⟨s, ?_, ?_⟩
    · have hempty := hl.isEmpty q
      simp [releaseLoop, hempty, hE]
    · rwa [← hE, Function.update_eq_self]
  | cons e bs ih =>
    obtain ⟨k, rfl⟩ := Nat.exists_eq_succ_of_ne_zero (Nat.ne_zero_of_lt hfuel)
    have hempty : s.heap.isEmpty (.head q) = some false := by
      rw [hl.isEmpty, hE]
      rfl
    have hfirst : s.heap.next (.head q) = some e.1 := by
      rw [hl.next_head, hE, first_cons]
    have hfront : E q = [] ++ e :: bs := hE
    obtain ⟨s₁, hdel, hl₁⟩ := hl.del hfront
    obtain ⟨s₂, hfree, hl₂⟩ := hl₁.free
    obtain ⟨s', hloop, hl'⟩ := ih hl₂ (Function.update_self _ _ _) (Nat.lt_of_succ_lt_succ hfuel)
    refine ⟨s', ?_, ?_⟩
    · simp only [releaseLoop, hempty, hfirst, hdel, hfree, Option.bind_eq_bind, Option.bind_some,
        Bool.false_eq_true, if_false]
      exact hloop
    · rwa [Function.update_idem] at hl'

end LuaKcp.Ikcp.Memory
