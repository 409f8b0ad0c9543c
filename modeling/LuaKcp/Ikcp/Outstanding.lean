import LuaKcp.Ikcp.Settings

/-!
# The outstanding segments

`Ikcpcb.Outstanding` says which numbers the segments of `snd_buf` have: they rise, `snd_una` is the
first of them, or the number of the next segment when there is none, and the next number is no more
than a send window above it. Whatever comes in, the numbers that go are those that the remote tells
to be taken in (`Outstanding.inputSegment`); a flush adds the next ones (`Outstanding.flush`).
-/

namespace LuaKcp.Ikcp

theorem ackLoop_sns (sn : U32) (buf : List Ikcpseg) :
    (ackLoop sn buf).map Ikcpseg.sn = (buf.map Ikcpseg.sn).erase sn := by
  induction buf with
  | nil => rfl
  | cons seg p ih =>
    unfold ackLoop
    rw [List.map_cons, List.erase_cons]
    by_cases h : sn = seg.sn
    · rw [if_pos h, if_pos (beq_iff_eq.mpr h.symm)]
    · have hne : ¬ (seg.sn == sn) = true := fun he => h (beq_iff_eq.mp he).symm
      rw [if_neg h, if_neg hne, List.map_cons, ih]

namespace Ikcpcb

variable (kcp : Ikcpcb)

/-- The segments numbered `is` are outstanding, `n` being the next number. -/
structure Outstanding (n : ℕ) (is : List ℕ) : Prop where
  nxt : kcp.sndNxt = BitVec.ofNat 32 n
  sns : kcp.sndBuf.map Ikcpseg.sn = is.map (BitVec.ofNat 32)
  sorted : is.Pairwise (· < ·)
  bounds : ∀ i ∈ is, i < n
  una : kcp.sndUna = BitVec.ofNat 32 (is.headD n)
  width : n ≤ is.headD n + kcp.sndWnd.toNat

/-- The fields that tell which segments are outstanding. -/
def outstanding : U32 × U32 × U32 × List Ikcpseg :=
  (kcp.sndUna, kcp.sndNxt, kcp.sndWnd, kcp.sndBuf)

theorem outstanding_updateAck (rtt : ℤ) :
    (kcp.updateAck rtt).outstanding = kcp.outstanding := by
  unfold updateAck
  split_ifs <;> rfl

theorem outstanding_parseData (seg : Ikcpseg) :
    (kcp.parseData seg).outstanding = kcp.outstanding := by
  unfold parseData
  split_ifs
  · rfl
  · dsimp only
    cases insertLoop seg kcp.rcvBuf.reverse <;> rfl

theorem outstanding_inputPush (seg : Ikcpseg) :
    (kcp.inputPush seg).outstanding = kcp.outstanding := by
  unfold inputPush
  dsimp only
  split_ifs
  · rw [outstanding_parseData]
    rfl
  · rfl
  · rfl

theorem outstanding_growCwnd (una : U32) :
    (kcp.growCwnd una).outstanding = kcp.outstanding := by
  unfold growCwnd stepCwnd
  dsimp only
  split_ifs <;> rfl

theorem outstanding_send (buffer : Bytes) (len : ℤ) :
    (kcp.send buffer len).2.outstanding = kcp.outstanding := by
  unfold send
  split_ifs
  · rfl
  · dsimp only
    split_ifs <;> rfl

theorem outstanding_recv (len : ℤ) : (kcp.recv len).2.2.outstanding = kcp.outstanding := by
  unfold recv dropMerged fastRecover
  dsimp only
  split_ifs <;> rfl

theorem outstanding_probeWindow : kcp.probeWindow.outstanding = kcp.outstanding := by
  unfold probeWindow
  split_ifs <;> rfl

namespace Outstanding

variable {kcp} {kcp' : Ikcpcb} {n : ℕ} {is is' : List ℕ}

theorem head_le (h : kcp.Outstanding n is) : is.headD n ≤ n := by
  cases is with
  | nil => exact le_rfl
  | cons i is => exact (h.bounds i List.mem_cons_self).le

/-- The first number is the least. -/
theorem head_le_of_mem (h : kcp.Outstanding n is) {i : ℕ} (hi : i ∈ is) : is.headD n ≤ i := by
  cases is with
  | nil => exact absurd hi List.not_mem_nil
  | cons j is =>
    rcases List.mem_cons.mp hi with rfl | hi
    · exact le_rfl
    · exact (List.rel_of_pairwise_cons h.sorted hi).le

/-- The number of outstanding segments is at most the send window. -/
theorem length_le (h : kcp.Outstanding n is) : kcp.sndBuf.length ≤ kcp.sndWnd.toNat := by
  have hlen := congrArg List.length h.sns
  rw [List.length_map, List.length_map] at hlen
  have hsub : is.toFinset ⊆ Finset.Ico (is.headD n) n := fun i hi => by
    rw [List.mem_toFinset] at hi
    exact Finset.mem_Ico.mpr ⟨h.head_le_of_mem hi, h.bounds i hi⟩
  have hcard := Finset.card_le_card hsub
  rw [List.toFinset_card_of_nodup (h.sorted.imp fun hlt => hlt.ne), Nat.card_Ico] at hcard
  have hwidth := h.width
  omega

theorem congr (h : kcp.Outstanding n is) (he : kcp'.outstanding = kcp.outstanding) :
    kcp'.Outstanding n is := by
  simp only [outstanding, Prod.mk.injEq] at he
  obtain ⟨huna, hnxt, hwnd, hbuf⟩ := he
  exact ⟨hnxt.trans h.nxt, by rw [hbuf]; exact h.sns, h.sorted, h.bounds, huna.trans h.una,
    by rw [hwnd]; exact h.width⟩

/-- **Deleting segments**, with `snd_una` moved up by `ikcp_shrink_buf`. -/
theorem shrinkBuf (h : kcp.Outstanding n is) (hsub : is'.Sublist is)
    (hsns : kcp'.sndBuf.map Ikcpseg.sn = is'.map (BitVec.ofNat 32))
    (hnxt : kcp'.sndNxt = kcp.sndNxt) (hwnd : kcp'.sndWnd = kcp.sndWnd) :
    kcp'.shrinkBuf.Outstanding n is' := by
  have hbounds : ∀ i ∈ is', i < n := fun i hi => h.bounds i (hsub.subset hi)
  have hhead : is.headD n ≤ is'.headD n := by
    cases is' with
    | nil => exact h.head_le
    | cons i is' => exact h.head_le_of_mem (hsub.subset List.mem_cons_self)
  refine ⟨hnxt.trans h.nxt, hsns, h.sorted.sublist hsub, hbounds, ?_, ?_⟩
  · unfold Ikcpcb.shrinkBuf
    cases hbuf : kcp'.sndBuf with
    | nil =>
      rw [hbuf] at hsns
      obtain rfl := List.map_eq_nil_iff.mp hsns.symm
      exact hnxt.trans h.nxt
    | cons seg p =>
      rw [hbuf] at hsns
      cases is' with
      | nil => exact absurd hsns (by simp)
      | cons i is' => exact (List.cons.inj hsns).1
  · change n ≤ is'.headD n + kcp'.sndWnd.toNat
    rw [hwnd]
    exact h.width.trans (Nat.add_le_add_right hhead _)

theorem parseUna (h : kcp.Outstanding n is) (una : U32) :
    (kcp.parseUna una).shrinkBuf.Outstanding n
      (is.dropWhile fun i => 0 < itimediff una (BitVec.ofNat 32 i)) := by
  refine h.shrinkBuf (List.dropWhile_sublist _) ?_ rfl rfl
  unfold Ikcpcb.parseUna
  have hdrop (buf : List Ikcpseg) (is : List ℕ)
      (hsns : buf.map Ikcpseg.sn = is.map (BitVec.ofNat 32)) :
      (buf.dropWhile fun seg => 0 < itimediff una seg.sn).map Ikcpseg.sn =
        (is.dropWhile fun i => 0 < itimediff una (BitVec.ofNat 32 i)).map (BitVec.ofNat 32) := by
    induction buf generalizing is with
    | nil =>
      obtain rfl := List.map_eq_nil_iff.mp hsns.symm
      rfl
    | cons seg buf ih =>
      cases is with
      | nil => exact absurd hsns (by simp)
      | cons i is =>
        obtain ⟨hsn, hrest⟩ := List.cons.inj hsns
        rw [List.dropWhile_cons, List.dropWhile_cons, hsn]
        split_ifs
        · exact ih is hrest
        · exact hsns
  exact hdrop _ _ h.sns

/-- The numbers are less than `2 ^ 32` apart. -/
theorem eq_of_ofNat (h : kcp.Outstanding n is) {i j : ℕ} (hi : i ∈ is) (hj : j ∈ is)
    (he : BitVec.ofNat 32 i = BitVec.ofNat 32 j) : i = j := by
  have hwidth := h.width
  have hlt := kcp.sndWnd.isLt
  have hi' := h.head_le_of_mem hi
  have hj' := h.head_le_of_mem hj
  have hin := h.bounds i hi
  have hjn := h.bounds j hj
  exact (ofNat_eq_ofNat_iff (by omega) (by omega)).mp he

/-- An acknowledgement deletes at most the segment that it names. -/
theorem parseAck (h : kcp.Outstanding n is) (sn : U32) :
    ∃ is', (kcp.parseAck sn).shrinkBuf.Outstanding n is' ∧ is'.Sublist is ∧
      ∀ i ∈ is, i ∈ is' ∨ sn = BitVec.ofNat 32 i := by
  unfold Ikcpcb.parseAck
  split_ifs
  · exact ⟨is, h.shrinkBuf (List.Sublist.refl is) h.sns rfl rfl, List.Sublist.refl is,
      fun i hi => Or.inl hi⟩
  · have hsns := ackLoop_sns sn kcp.sndBuf
    rw [h.sns] at hsns
    -- the numbers left are a sublist of those before
    have hsub : ((is.map (BitVec.ofNat 32)).erase sn).Sublist (is.map (BitVec.ofNat 32)) :=
      List.erase_sublist
    obtain ⟨is', hsub', his'⟩ := List.sublist_map_iff.mp hsub
    refine ⟨is', h.shrinkBuf hsub' (hsns.trans his') rfl rfl, hsub', fun i hi => ?_⟩
    by_cases hsn : sn = BitVec.ofNat 32 i
    · exact Or.inr hsn
    · have hmem : BitVec.ofNat 32 i ∈ is'.map (BitVec.ofNat 32) := by
        rw [← his']
        exact (List.mem_erase_of_ne fun he => hsn he.symm).mpr (List.mem_map_of_mem hi)
      obtain ⟨j, hj, he⟩ := List.mem_map.mp hmem
      rw [← h.eq_of_ofNat (hsub'.subset hj) hi he]
      exact Or.inl hj

/-- **A segment received** deletes the segments that it tells to be taken in: those before the
number expected next and, if it is an acknowledgement, the one that it names. -/
theorem inputSegment (h : kcp.Outstanding n is) (seg : Ikcpseg) :
    ∃ is', (kcp.inputSegment seg).Outstanding n is' ∧
      is'.Sublist (is.dropWhile fun i => 0 < itimediff seg.una (BitVec.ofNat 32 i)) ∧
      ∀ i ∈ is.dropWhile fun i => 0 < itimediff seg.una (BitVec.ofNat 32 i),
        i ∈ is' ∨ (seg.cmd = cmdAck ∧ seg.sn = BitVec.ofNat 32 i) := by
  have hrmt : ({ kcp with rmtWnd := seg.wnd } : Ikcpcb).Outstanding n is := h.congr rfl
  have h₁ := hrmt.parseUna seg.una
  set is₁ := is.dropWhile fun i => 0 < itimediff seg.una (BitVec.ofNat 32 i)
  set kcp₁ := (({ kcp with rmtWnd := seg.wnd } : Ikcpcb).parseUna seg.una).shrinkBuf with hkcp₁
  have hsame {kcp' : Ikcpcb} (he : kcp'.outstanding = kcp₁.outstanding) :
      ∃ is', kcp'.Outstanding n is' ∧ is'.Sublist is₁ ∧
        ∀ i ∈ is₁, i ∈ is' ∨ (seg.cmd = cmdAck ∧ seg.sn = BitVec.ofNat 32 i) :=
    ⟨is₁, h₁.congr he, List.Sublist.refl is₁, fun i hi => Or.inl hi⟩
  unfold Ikcpcb.inputSegment
  dsimp only
  rw [← hkcp₁]
  split_ifs with hack hpush
  · have hack' {kcp₂ : Ikcpcb} (h₂ : kcp₂.Outstanding n is₁) :
        ∃ is', (kcp₂.parseAck seg.sn).shrinkBuf.Outstanding n is' ∧ is'.Sublist is₁ ∧
          ∀ i ∈ is₁, i ∈ is' ∨ (seg.cmd = cmdAck ∧ seg.sn = BitVec.ofNat 32 i) := by
      obtain ⟨is', h', hsub, hmem⟩ := h₂.parseAck seg.sn
      exact ⟨is', h', hsub, fun i hi => (hmem i hi).imp_right fun hsn => ⟨hack, hsn⟩⟩
    unfold Ikcpcb.inputAck
    dsimp only
    split_ifs
    · exact hack' (h₁.congr (outstanding_updateAck kcp₁ _))
    · exact hack' h₁
  · exact hsame (outstanding_inputPush kcp₁ seg)
  · exact hsame rfl
  · exact hsame rfl

/-- **Input** of any bytes deletes segments only. -/
theorem input (h : kcp.Outstanding n is) (data : Bytes) :
    ∃ is', (kcp.input data).2.Outstanding n is' ∧ is'.Sublist is := by
  refine input_rule (P := fun kcp => ∃ is', kcp.Outstanding n is' ∧ is'.Sublist is)
    (fun kcp seg _ hk => ?_) (fun kcp una hk => ?_) ⟨is, h, List.Sublist.refl is⟩ data
  · obtain ⟨is₁, h₁, hsub₁⟩ := hk
    obtain ⟨is₂, h₂, hsub₂, -⟩ := h₁.inputSegment seg
    exact ⟨is₂, h₂, hsub₂.trans ((List.dropWhile_sublist _).trans hsub₁)⟩
  · obtain ⟨is₁, h₁, hsub₁⟩ := hk
    exact ⟨is₁, h₁.congr (outstanding_growCwnd kcp una), hsub₁⟩

end Outstanding

/-! ## Flush -/

/-- The window of a flush is not above the send window. -/
theorem flushCwnd_le_sndWnd : kcp.flushCwnd.toNat ≤ kcp.sndWnd.toNat := by
  have himin (a b : U32) : (imin a b).toNat ≤ a.toNat ∧ (imin a b).toNat ≤ b.toNat := by
    unfold imin
    split_ifs with h
    · exact ⟨le_rfl, BitVec.le_def.mp h⟩
    · exact ⟨(BitVec.lt_def.mp (BitVec.not_le.mp h)).le, le_rfl⟩
  unfold flushCwnd
  dsimp only
  split_ifs
  · exact (himin _ _).2.trans (himin _ _).1
  · exact (himin _ _).1

/-- **The move to `snd_buf`** takes segments from the front of the queue and gives them the next
numbers; it takes one when there is one and the window is open. -/
theorem moveToBuf_numbers (wnd : U32) {cwnd : U32} (hcwnd : cwnd.toNat ≤ 2 ^ 30) {u : ℕ}
    (hu : kcp.sndUna = BitVec.ofNat 32 u) (que buf : List Ikcpseg) {nxt : U32} {n : ℕ}
    (hnxt : nxt = BitVec.ofNat 32 n) (hle : u ≤ n) (hwidth : n ≤ u + 2 ^ 30) :
    ∃ k ≤ que.length, (moveToBuf kcp wnd cwnd que buf nxt).1 = que.drop k ∧
      (moveToBuf kcp wnd cwnd que buf nxt).2.1.map Ikcpseg.sn =
        buf.map Ikcpseg.sn ++ (List.range' n k).map (BitVec.ofNat 32) ∧
      (moveToBuf kcp wnd cwnd que buf nxt).2.2 = BitVec.ofNat 32 (n + k) ∧
      n + k ≤ max n (u + cwnd.toNat) ∧ (que ≠ [] → n < u + cwnd.toNat → 0 < k) := by
  have hopen {n : ℕ} (hle : u ≤ n) (hwidth : n ≤ u + 2 ^ 30) :
      itimediff (BitVec.ofNat 32 n) (kcp.sndUna + cwnd) < 0 ↔ n < u + cwnd.toNat := by
    have hsum : kcp.sndUna + cwnd = BitVec.ofNat 32 (u + cwnd.toNat) := by
      rw [hu, BitVec.ofNat_add, BitVec.ofNat_toNat, BitVec.setWidth_eq]
    rw [hsum, itimediff, serialDiff_ofNat (by push_cast; omega) (by push_cast; omega)]
    push_cast
    omega
  induction que generalizing buf nxt n with
  | nil => exact ⟨0, le_rfl, rfl, by simp [moveToBuf], hnxt, le_max_left _ _, by simp⟩
  | cons newseg que ih =>
    have hiff := hopen hle hwidth
    rw [← hnxt] at hiff
    unfold moveToBuf
    split_ifs with hlt
    · have hn := hiff.mp hlt
      have hnext : nxt + 1 = BitVec.ofNat 32 (n + 1) := by
        rw [hnxt, BitVec.ofNat_add]
        rfl
      obtain ⟨k, hk, hque, hsns, hnxt', hmax, -⟩ := ih (buf ++ [{ newseg with
        conv := kcp.conv, cmd := cmdPush, wnd := wnd, ts := kcp.current, sn := nxt,
        una := kcp.rcvNxt, resendts := kcp.current, rto := kcp.rxRto, fastack := 0, xmit := 0 }])
        hnext (by omega) (by omega)
      refine ⟨k + 1, Nat.succ_le_succ hk, hque, ?_, ?_, by omega, fun _ _ => Nat.succ_pos k⟩
      · rw [hsns, List.map_append, List.map_singleton, List.append_assoc, List.range'_succ,
          List.map_cons, ← hnxt]
        rfl
      · rw [hnxt']
        congr 1
        omega
    · refine ⟨0, Nat.zero_le _, rfl, by simp, hnxt, le_max_left _ _, fun _ hn => ?_⟩
      exact absurd (hiff.mpr hn) hlt

/-- The control block in which a flush moves segments. -/
theorem outstanding_probed : kcp.probed.outstanding = kcp.outstanding :=
  outstanding_probeWindow { kcp with acklist := [] }

namespace Outstanding

variable {kcp} {n : ℕ} {is : List ℕ}

/-- Numbering more leaves the first number. -/
theorem headD_append_range' (is : List ℕ) (n k : ℕ) :
    (is ++ List.range' n k).headD (n + k) = is.headD n := by
  cases is with
  | nil => cases k <;> rfl
  | cons i is => rfl

/-- **A flush** adds the next numbers, as many as it takes from the queue. -/
theorem flush (h : kcp.Outstanding n is) (hW : kcp.sndWnd.toNat ≤ 2 ^ 30)
    (hu : kcp.updated ≠ 0) : ∃ k ≤ kcp.sndQueue.length,
      kcp.flush.1.Outstanding (n + k) (is ++ List.range' n k) ∧
      kcp.flush.1.sndQueue = kcp.sndQueue.drop k ∧
      (kcp.sndQueue ≠ [] → n < is.headD n + kcp.probed.flushCwnd.toNat → 0 < k) := by
  have hp : kcp.probed.Outstanding n is := h.congr kcp.outstanding_probed
  have hwnd : kcp.probed.sndWnd = kcp.sndWnd :=
    congrArg (fun p => p.2.2.1) kcp.outstanding_probed
  have hquekcp : kcp.probed.sndQueue = kcp.sndQueue :=
    congrArg SendSide.sndQueue kcp.sendSide_probed
  have hcwnd := kcp.probed.flushCwnd_le_sndWnd
  have hwidth := hp.width
  rw [hwnd] at hcwnd hwidth
  obtain ⟨k, hk, hque, hsns, hnxt, hmax, hpos⟩ := kcp.probed.moveToBuf_numbers kcp.wndUnused
    (hcwnd.trans hW) hp.una kcp.probed.sndQueue kcp.probed.sndBuf hp.nxt hp.head_le (by omega)
  rw [hquekcp] at hk hpos
  have hhead := headD_append_range' is n k
  have hside : kcp.flush.1.sendSide = { kcp.loaded.sendSide with sndBuf := kcp.flushed.1 } := by
    rw [kcp.flush_eq hu]
    simp only [sendSide_minCwnd, sendSide_onLost, sendSide_onChange]
    rfl
  have hpace : kcp.flush.1.pace = kcp.loaded.pace := by
    rw [kcp.flush_eq hu]
    simp only [pace_minCwnd, pace_onLost, pace_onChange]
    rfl
  have hsnd : kcp.flush.1.sndWnd = kcp.sndWnd := congrArg Settings.sndWnd kcp.settings_flush
  refine ⟨k, hk, ⟨(congrArg SendSide.sndNxt hside).trans hnxt, ?_, ?_, fun i hi => ?_, ?_, ?_⟩, ?_,
    hpos⟩
  · rw [kcp.sndBuf_flush hu, List.map_map, List.map_append, ← hp.sns]
    refine (List.map_congr_left fun seg _ => ?_).trans hsns
    exact sn_eq_of_content (kcp.content_afterFlush seg)
  · refine List.pairwise_append.mpr ⟨h.sorted, List.pairwise_lt_range', fun i hi j hj => ?_⟩
    have hj := (List.mem_range'_1.mp hj).1
    exact (h.bounds i hi).trans_le hj
  · rcases List.mem_append.mp hi with hi | hi
    · exact (h.bounds i hi).trans_le (Nat.le_add_right n k)
    · exact (List.mem_range'_1.mp hi).2
  · rw [hhead]
    exact (congrArg Prod.fst hpace).trans hp.una
  · rw [hhead, hsnd]
    omega
  · refine (congrArg SendSide.sndQueue hside).trans (hque.trans ?_)
    rw [hquekcp]

end Outstanding

end Ikcpcb

end LuaKcp.Ikcp
