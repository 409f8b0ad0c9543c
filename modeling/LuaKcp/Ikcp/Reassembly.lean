import LuaKcp.Ikcp.Receiver

/-!
# Reassembly of what anybody sent

The fragment numbers and the lengths in `rcv_queue` are the sender's. Whatever they are,
`ikcp_peeksize` and the merge loop of `ikcp_recv` stop at the same segment; and as long as the
datagrams fed are no longer than UDP allows, `rcv_queue` holds at most a window of segments of
bounded length (`Contained`), so that neither sum of lengths leaves the range of an `int`.
-/

namespace LuaKcp.Ikcp

/-! ## The loops in C's integers -/

/-- The loop of `ikcp_peeksize`, adding up in an `int`. -/
def peekInt : List Ikcpseg → (length : U32) → U32
  | [], length => length
  | seg :: p, length =>
    let length := length + BitVec.ofNat 32 seg.data.length
    if seg.frg = 0 then length else peekInt p length

/-- The merge loop of `ikcp_recv`: the bytes written to `buffer`, their number counted in an `int`,
and the queue left. -/
def copyInt : List Ikcpseg → (buffer : Bytes) → (len : U32) → Bytes × U32 × List Ikcpseg
  | [], buffer, len => (buffer, len, [])
  | seg :: p, buffer, len =>
    let buffer := buffer ++ seg.data
    let len := len + BitVec.ofNat 32 seg.data.length
    if seg.frg = 0 then (buffer, len, p) else copyInt p buffer len

/-- `ikcp_peeksize`, in `int`. -/
def Ikcpcb.peeksizeInt (kcp : Ikcpcb) : ℤ :=
  match kcp.rcvQueue with
  | [] => -1
  | seg :: _ =>
    if seg.frg = 0 then (BitVec.ofNat 32 seg.data.length).toInt
    else if BitVec.ofNat 32 kcp.nrcvQue < seg.frg + 1 then -1
    else (peekInt kcp.rcvQueue 0).toInt

/-- The loop of `ikcp_input`, for a number of rounds; `none` when it has not ended by then. -/
def inputRounds : (rounds : ℕ) → Ikcpcb → Bytes → Option (ℤ × Ikcpcb)
  | 0, _, _ => none
  | rounds + 1, kcp, data =>
    if data.length < overhead then some (0, kcp)
    else
      let hd := decodeHeader data
      let len := hd.2.1.toNat
      if hd.1.conv ≠ kcp.conv then some (-1, kcp)
      else if hd.2.2.length < len then some (-2, kcp)
      else if hd.1.cmd ≠ cmdPush ∧ hd.1.cmd ≠ cmdAck ∧ hd.1.cmd ≠ cmdWask ∧
          hd.1.cmd ≠ cmdWins then
        some (-3, kcp)
      else
        inputRounds rounds (kcp.inputSegment { hd.1 with data := hd.2.2.take len })
          (hd.2.2.drop len)

theorem length_decodeHeader (data : Bytes) :
    (decodeHeader data).2.2.length = data.length - overhead := by
  simp only [decodeHeader, decode32u, decode16u, decode8u, List.length_drop, overhead]
  omega

/-- **The parsing loop ends**: each round takes a header at least off the datagram. -/
theorem inputRounds_eq {rounds : ℕ} {data : Bytes} (h : data.length < rounds * overhead)
    (kcp : Ikcpcb) : inputRounds rounds kcp data = some (kcp.inputLoop data) := by
  induction rounds generalizing kcp data with
  | zero => omega
  | succ rounds ih =>
    have hrest := length_decodeHeader data
    unfold inputRounds Ikcpcb.inputLoop
    dsimp only
    split_ifs with hlt hconv hlen hcmd
    · rfl
    · rfl
    · rfl
    · rfl
    · refine ih ?_ _
      rw [List.length_drop]
      rw [Nat.succ_mul] at h
      omega

/-- The sum in an `int` is the sum, when it stays in range. -/
theorem peekInt_eq {que : List Ikcpseg} {length : U32} (h : length.toNat + peekLoop que < 2 ^ 31) :
    (peekInt que length).toNat = length.toNat + peekLoop que := by
  induction que generalizing length with
  | nil => rfl
  | cons seg p ih =>
    unfold peekInt peekLoop
    unfold peekLoop at h
    have hstep (hseg : length.toNat + seg.data.length < 2 ^ 31) :
        (length + BitVec.ofNat 32 seg.data.length).toNat = length.toNat + seg.data.length := by
      rw [BitVec.toNat_add, BitVec.toNat_ofNat]
      omega
    by_cases hfrg : seg.frg = 0
    · rw [if_pos hfrg] at h
      simp only [hfrg, if_true]
      exact hstep h
    · rw [if_neg hfrg] at h
      simp only [hfrg, if_false]
      rw [ih (by rw [hstep (by omega)]; omega), hstep (by omega)]
      omega

/-- **The merge loop** copies what `mergeLoop` says and counts what `ikcp_peeksize` adds up: both
loops stop at the same segment. -/
theorem copyInt_eq (que : List Ikcpseg) (buffer : Bytes) (len : U32) : copyInt que buffer len =
    (buffer ++ (mergeLoop que).1, peekInt que len, (mergeLoop que).2) := by
  induction que generalizing buffer len with
  | nil => simp [copyInt, mergeLoop, peekInt]
  | cons seg p ih =>
    unfold copyInt mergeLoop peekInt
    by_cases hfrg : seg.frg = 0
    · simp only [hfrg, if_true]
    · simp only [hfrg, if_false]
      rw [ih, List.append_assoc]

/-! ## What the receiving side can hold -/

/-- The most data that a segment in a datagram of 65535 bytes can have. -/
def segmentMax : ℕ := 65535 - overhead

/-- The receive queue is no longer than the window, and no segment is larger than a datagram. -/
structure Contained (side : RecvSide) : Prop where
  queue : side.rcvQueue.length ≤ side.rcvWnd.toNat
  data : ∀ seg ∈ side.rcvQueue ++ side.rcvBuf, seg.data.length ≤ segmentMax

/-- Segments move from `rcv_buf` to the end of `rcv_queue`. -/
theorem append_moveLoop (rcvWnd : U32) (buf que : List Ikcpseg) (nxt : U32) :
    (moveLoop rcvWnd buf que nxt).2.1 ++ (moveLoop rcvWnd buf que nxt).1 = que ++ buf := by
  induction buf generalizing que nxt with
  | nil => rfl
  | cons seg buf ih =>
    unfold moveLoop
    split_ifs
    · rw [ih, List.append_assoc]
      rfl
    · rfl

theorem length_moveLoop_le {rcvWnd : U32} {que : List Ikcpseg} (h : que.length ≤ rcvWnd.toNat)
    (buf : List Ikcpseg) (nxt : U32) :
    (moveLoop rcvWnd buf que nxt).2.1.length ≤ rcvWnd.toNat := by
  induction buf generalizing que nxt with
  | nil => exact h
  | cons seg buf ih =>
    unfold moveLoop
    split_ifs with hmove
    · refine ih ?_ _
      rw [List.length_append]
      exact hmove.2
    · exact h

theorem mergeLoop_suffix (que : List Ikcpseg) : (mergeLoop que).2 <:+ que := by
  induction que with
  | nil => exact List.suffix_refl []
  | cons seg p ih =>
    unfold mergeLoop
    split_ifs
    · exact List.suffix_cons seg p
    · exact ih.trans (List.suffix_cons seg p)

theorem mem_of_insertLoop {newseg seg : Ikcpseg} {buf buf' : List Ikcpseg}
    (h : insertLoop newseg buf = some buf') (hseg : seg ∈ buf') : seg = newseg ∨ seg ∈ buf := by
  induction buf generalizing buf' with
  | nil =>
    obtain rfl := Option.some.inj h
    exact Or.inl (List.mem_singleton.mp hseg)
  | cons old buf ih =>
    unfold insertLoop at h
    split_ifs at h
    · obtain rfl := Option.some.inj h
      exact List.mem_cons.mp hseg
    · obtain ⟨rest, hrest, rfl⟩ := Option.map_eq_some_iff.mp h
      rcases List.mem_cons.mp hseg with rfl | hseg
      · exact Or.inr (List.mem_cons_self ..)
      · exact (ih hrest hseg).imp_right (List.mem_cons_of_mem old)

namespace Contained

variable {kcp : Ikcpcb}

theorem moveAvailable (h : Contained kcp.recvSide) : Contained kcp.moveAvailable.recvSide := by
  refine ⟨length_moveLoop_le h.queue _ _, ?_⟩
  intro seg hseg
  refine h.data seg ?_
  change seg ∈ (moveLoop kcp.rcvWnd kcp.rcvBuf kcp.rcvQueue kcp.rcvNxt).2.1 ++
    (moveLoop kcp.rcvWnd kcp.rcvBuf kcp.rcvQueue kcp.rcvNxt).1 at hseg
  rwa [append_moveLoop] at hseg

theorem parseData (h : Contained kcp.recvSide) {newseg : Ikcpseg}
    (hnew : newseg.data.length ≤ segmentMax) : Contained (kcp.parseData newseg).recvSide := by
  unfold Ikcpcb.parseData
  split_ifs
  · exact h
  · dsimp only
    refine moveAvailable ?_
    cases hins : insertLoop newseg kcp.rcvBuf.reverse with
    | none => exact h
    | some rev =>
      refine ⟨h.queue, fun seg hseg => ?_⟩
      rcases List.mem_append.mp hseg with hseg | hseg
      · exact h.data seg (List.mem_append_left _ hseg)
      · rcases mem_of_insertLoop hins (List.mem_reverse.mp hseg) with rfl | hseg
        · exact hnew
        · exact h.data seg (List.mem_append_right _ (List.mem_reverse.mp hseg))

theorem inputPush (h : Contained kcp.recvSide) {seg : Ikcpseg}
    (hseg : seg.data.length ≤ segmentMax) : Contained (kcp.inputPush seg).recvSide := by
  unfold Ikcpcb.inputPush
  dsimp only
  split_ifs
  · refine parseData ?_ hseg
    exact h
  · exact h
  · exact h

theorem inputSegment (h : Contained kcp.recvSide) {seg : Ikcpseg}
    (hseg : seg.data.length ≤ segmentMax) : Contained (kcp.inputSegment seg).recvSide := by
  unfold Ikcpcb.inputSegment
  dsimp only
  split_ifs
  · rw [Ikcpcb.recvSide_inputAck]
    exact h
  · refine inputPush ?_ hseg
    exact h
  · exact h
  · exact h

/-- A datagram of the size that UDP allows, whatever it says. -/
theorem input (h : Contained kcp.recvSide) {data : Bytes} (hdata : data.length ≤ 65535) :
    Contained (kcp.input data).2.recvSide := by
  have hloop : Contained (kcp.inputLoop data).2.recvSide := by
    fun_induction Ikcpcb.inputLoop kcp data with
    | case1 kcp data hlt => exact h
    | case2 kcp data hlt hd hconv => exact h
    | case3 kcp data hlt hd len hconv hlen => exact h
    | case4 kcp data hlt hd len hconv hlen hcmd => exact h
    | case5 kcp data hlt hd len hconv hlen hcmd ih =>
      have hrest : hd.2.2.length = data.length - overhead := length_decodeHeader data
      refine ih (h.inputSegment ?_) ?_
      · simp only [List.length_take, segmentMax]
        omega
      · rw [List.length_drop]
        omega
  unfold Ikcpcb.input
  dsimp only
  split_ifs
  · exact h
  · exact hloop
  · rw [Ikcpcb.recvSide_growCwnd]
    exact hloop

/-- What `ikcp_recv` leaves. -/
theorem recv (h : Contained kcp.recvSide) (len : ℤ) : Contained (kcp.recv len).2.2.recvSide := by
  unfold Ikcpcb.recv
  split_ifs
  · exact h
  · exact h
  · exact h
  · dsimp only
    rw [Ikcpcb.recvSide_fastRecover]
    refine moveAvailable ?_
    unfold Ikcpcb.dropMerged
    split_ifs
    · exact h
    · have hsuf := mergeLoop_suffix kcp.rcvQueue
      refine ⟨hsuf.length_le.trans h.queue, fun seg hseg => h.data seg ?_⟩
      rcases List.mem_append.mp hseg with hseg | hseg
      · exact List.mem_append_left _ (hsuf.subset hseg)
      · exact List.mem_append_right _ hseg

/-- **The message at the head is bounded**: a window of the largest segments. -/
theorem peekLoop_le (h : Contained kcp.recvSide) :
    peekLoop kcp.rcvQueue ≤ kcp.rcvWnd.toNat * segmentMax := by
  have hque {que : List Ikcpseg} (hdata : ∀ seg ∈ que, seg.data.length ≤ segmentMax) :
      peekLoop que ≤ que.length * segmentMax := by
    induction que with
    | nil => exact Nat.zero_le _
    | cons seg p ih =>
      have hseg := hdata seg (List.mem_cons_self ..)
      have hp := ih fun seg' h' => hdata seg' (List.mem_cons_of_mem seg h')
      unfold peekLoop
      rw [List.length_cons, Nat.succ_mul]
      split_ifs <;> omega
  have hsum := hque fun seg hseg => h.data seg (List.mem_append_left _ hseg)
  exact hsum.trans (Nat.mul_le_mul_right _ h.queue)

end Contained

/-! ## Receiving -/

theorem toInt_of_toNat {w : U32} {n : ℕ} (hw : w.toNat = n) (hn : n < 2 ^ 31) : w.toInt = n := by
  rw [BitVec.toInt_eq_toNat_of_lt (by omega), hw]

/-- The sum in an `int` is what the model's `peeksize` says. -/
theorem peeksizeInt_eq {kcp : Ikcpcb} (h : Contained kcp.recvSide)
    (hwnd : kcp.rcvWnd.toNat * segmentMax < 2 ^ 31) : kcp.peeksizeInt = kcp.peeksize := by
  have hsum := h.peekLoop_le
  have hn : (BitVec.ofNat 32 kcp.nrcvQue).toNat = kcp.nrcvQue := by
    have hlt : kcp.nrcvQue < 2 ^ 32 := h.queue.trans_lt (BitVec.isLt _)
    rw [BitVec.toNat_ofNat, Nat.mod_eq_of_lt hlt]
  have hfew (frg : U32) : BitVec.ofNat 32 kcp.nrcvQue < frg + 1 ↔
      kcp.nrcvQue < (frg + 1).toNat := by
    rw [BitVec.lt_def, hn]
  unfold Ikcpcb.peeksizeInt Ikcpcb.peeksize
  cases hque : kcp.rcvQueue with
  | nil => rfl
  | cons seg que =>
    have hmem : seg ∈ kcp.rcvQueue := hque ▸ List.mem_cons_self ..
    have hlen : seg.data.length < 2 ^ 31 :=
      (h.data seg (List.mem_append_left _ hmem)).trans_lt (by decide)
    rw [hque] at hsum
    have hzero : (0 : U32).toNat = 0 := rfl
    have hpeek : (0 : U32).toNat + peekLoop (seg :: que) < 2 ^ 31 := by omega
    simp only [hfew]
    split_ifs
    · refine toInt_of_toNat ?_ hlen
      rw [BitVec.toNat_ofNat, Nat.mod_eq_of_lt (by omega)]
    · rfl
    · refine toInt_of_toNat ((peekInt_eq hpeek).trans ?_) (by omega)
      rw [hzero, Nat.zero_add]

/-- What receiving into a buffer of `len` bytes guarantees, whatever has been sent: the message that
fits is copied whole, the length counted while copying being the size computed before, and a larger
one is refused and stays. -/
structure ReceivesExactly (kcp : Ikcpcb) (len : ℤ) : Prop where
  peeked : kcp.peeksizeInt = kcp.peeksize
  counted : 0 ≤ kcp.peeksize →
    ((copyInt kcp.rcvQueue [] 0).2.1.toInt = kcp.peeksize ∧
      ((copyInt kcp.rcvQueue [] 0).1.length : ℤ) = kcp.peeksize)
  copied : 0 ≤ kcp.peeksize → kcp.peeksize ≤ len →
    (kcp.recv len).1 = kcp.peeksize ∧ (kcp.recv len).2.1 = (copyInt kcp.rcvQueue [] 0).1
  refused : kcp.peeksize < 0 ∨ len < kcp.peeksize →
    (kcp.recv len).1 < 0 ∧ (kcp.recv len).2.1 = [] ∧ (kcp.recv len).2.2 = kcp

/-- **Receiving is exact** whatever the queue holds, as long as a window of the largest segments
fits an `int`. -/
theorem receivesExactly_of_contained {kcp : Ikcpcb} (h : Contained kcp.recvSide)
    (hwnd : kcp.rcvWnd.toNat * segmentMax < 2 ^ 31) {len : ℤ} (hlen : 0 ≤ len) :
    ReceivesExactly kcp len := by
  have hsum := h.peekLoop_le
  have hcopy := copyInt_eq kcp.rcvQueue [] 0
  rw [List.nil_append] at hcopy
  have hzero : (0 : U32).toNat = 0 := rfl
  refine ⟨peeksizeInt_eq h hwnd, fun hpos => ?_, fun hpos hfits => ?_, fun hno => ?_⟩
  · have hsize := length_mergeLoop hpos
    rw [hcopy]
    refine ⟨?_, hsize⟩
    have hpeek : (peekInt kcp.rcvQueue 0).toNat = peekLoop kcp.rcvQueue := by
      rw [peekInt_eq (by omega), hzero, Nat.zero_add]
    dsimp only
    rw [toInt_of_toNat hpeek (by omega), peekLoop_eq, hsize]
  · rcases recv_cases kcp hlen with ⟨-, -, hneg | hlt⟩ | ⟨-, -, hret, -⟩
    · omega
    · omega
    · refine ⟨hret, ?_⟩
      rw [hcopy]
      unfold Ikcpcb.recv at hret ⊢
      split_ifs at hret ⊢ with hempty hneg hlarge
      · dsimp only at hret; omega
      · dsimp only at hret; omega
      · dsimp only at hret; omega
      · rfl
  · rcases recv_cases kcp hlen with ⟨hret, hsame, -⟩ | ⟨hpos, hfits, -⟩
    · refine ⟨hret, ?_, hsame⟩
      unfold Ikcpcb.recv at hret ⊢
      split_ifs at hret ⊢ with hempty hneg hlarge
      · rfl
      · rfl
      · rfl
      · dsimp only at hret; omega
    · omega

end LuaKcp.Ikcp
