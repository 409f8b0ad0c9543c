import LuaKcp.Ikcp.Sender

/-!
# The segments pending in `snd_buf`

`Ikcpcb.Window` says which sequence numbers the segments of `snd_buf` have: different ones, between
`snd_una` and `snd_nxt`, which are never more than a window of 16 bits apart. Input deletes segments
of `snd_buf` and counts how often the others have been overtaken; it changes nothing that decides
when they are sent again (`Ikcpcb.Trims`).
-/

namespace LuaKcp.Ikcp

/-- A segment without the count of how often it has been overtaken. -/
def timing (seg : Ikcpseg) : Ikcpseg := { seg with fastack := 0 }

theorem eq_of_timing {seg seg' : Ikcpseg} (h : timing seg' = timing seg) :
    seg'.sn = seg.sn ∧ seg'.cmd = seg.cmd ∧ seg'.data = seg.data ∧
      seg'.resendts = seg.resendts := by
  simp only [timing, Ikcpseg.mk.injEq] at h
  obtain ⟨-, hcmd, -, -, -, hsn, -, hresendts, -, -, -, hdata⟩ := h
  exact ⟨hsn, hcmd, hdata, hresendts⟩

theorem ackLoop_timing (sn : U32) (buf : List Ikcpseg) :
    ((ackLoop sn buf).map timing).Sublist (buf.map timing) := by
  induction buf with
  | nil => exact .slnil
  | cons seg p ih =>
    unfold ackLoop
    split_ifs
    · exact List.sublist_cons_self _ _
    · exact ih.cons_cons (timing seg)

/-- The window read from a header has 16 bits. -/
theorem wnd_decodeHeader_le (data : Bytes) : (decodeHeader data).1.wnd.toNat ≤ 65535 := by
  have h (p : Bytes) : (decode16u p).1.toNat ≤ 65535 := by
    have hval := leValue_lt (p.take 2)
    have hlen : (p.take 2).length ≤ 2 := List.length_take_le 2 p
    have hpow : 256 ^ (p.take 2).length ≤ 256 ^ 2 := Nat.pow_le_pow_right (by norm_num) hlen
    unfold decode16u
    rw [BitVec.toNat_ofNat, Nat.mod_eq_of_lt (by omega)]
    omega
  exact h _

/-! ## The sequence numbers -/

namespace Ikcpcb

variable (kcp : Ikcpcb)

/-- What limits the sequence numbers taken by a flush: `snd_una` and `rmt_wnd`. -/
def pace : U32 × U32 := (kcp.sndUna, kcp.rmtWnd)

@[simp] theorem pace_probeWindow : kcp.probeWindow.pace = kcp.pace := by
  unfold probeWindow
  split_ifs <;> rfl

@[simp] theorem pace_onChange (resent : U32) (change : ℕ) :
    (kcp.onChange resent change).pace = kcp.pace := by
  unfold onChange
  split_ifs <;> rfl

@[simp] theorem pace_onLost (cwnd : U32) (lost : Bool) :
    (kcp.onLost cwnd lost).pace = kcp.pace := by
  unfold onLost
  split_ifs <;> rfl

@[simp] theorem pace_minCwnd : kcp.minCwnd.pace = kcp.pace := by
  unfold minCwnd
  split_ifs <;> rfl

@[simp] theorem pace_send (buffer : Bytes) (len : ℤ) : (kcp.send buffer len).2.pace = kcp.pace := by
  unfold send
  split_ifs
  · rfl
  · dsimp only
    split_ifs <;> rfl

@[simp] theorem pace_recv (len : ℤ) : (kcp.recv len).2.2.pace = kcp.pace := by
  unfold recv dropMerged fastRecover
  dsimp only
  split_ifs <;> rfl

@[simp] theorem pace_updateAck (rtt : ℤ) : (kcp.updateAck rtt).pace = kcp.pace := by
  unfold updateAck
  split_ifs <;> rfl

@[simp] theorem pace_parseAck (sn : U32) : (kcp.parseAck sn).pace = kcp.pace := by
  unfold parseAck
  split_ifs <;> rfl

@[simp] theorem pace_parseData (seg : Ikcpseg) : (kcp.parseData seg).pace = kcp.pace := by
  unfold parseData
  split_ifs
  · rfl
  · dsimp only
    cases insertLoop seg kcp.rcvBuf.reverse <;> rfl

@[simp] theorem pace_inputPush (seg : Ikcpseg) : (kcp.inputPush seg).pace = kcp.pace := by
  unfold inputPush
  dsimp only
  split_ifs
  · rw [pace_parseData]
    rfl
  · rfl
  · rfl

@[simp] theorem pace_growCwnd (una : U32) : (kcp.growCwnd una).pace = kcp.pace := by
  unfold growCwnd stepCwnd
  dsimp only
  split_ifs <;> rfl

/-- The window of a flush is not above the one that the remote tells. -/
theorem flushCwnd_le : kcp.flushCwnd.toNat ≤ kcp.rmtWnd.toNat := by
  have himin (a b : U32) : (imin a b).toNat ≤ b.toNat := by
    unfold imin
    split_ifs with h
    · exact BitVec.le_def.mp h
    · exact le_rfl
  unfold flushCwnd
  dsimp only
  split_ifs
  · exact (himin _ _).trans (himin _ _)
  · exact himin _ _

/-- The segments of `snd_buf` have the numbers `is`, each once, between the one of `snd_una` and the
one of `snd_nxt`; what the remote tells of its window has 16 bits, so there are fewer than that. -/
structure Window (u n : ℕ) (is : List ℕ) : Prop where
  una : kcp.sndUna = BitVec.ofNat 32 u
  nxt : kcp.sndNxt = BitVec.ofNat 32 n
  sns : kcp.sndBuf.map Ikcpseg.sn = is.map (BitVec.ofNat 32)
  sorted : is.Pairwise (· < ·)
  bounds : ∀ i ∈ is, u ≤ i ∧ i < n
  le : u ≤ n
  width : n ≤ u + 65535
  rmtWnd : kcp.rmtWnd.toNat ≤ 65535

namespace Window

variable {kcp} {kcp' : Ikcpcb} {u n : ℕ} {is : List ℕ}

/-- No two segments have the same number. -/
theorem nodup (h : kcp.Window u n is) : (kcp.sndBuf.map Ikcpseg.sn).Nodup := by
  rw [h.sns]
  refine (List.nodup_map_iff_inj_on (h.sorted.imp fun hlt => hlt.ne)).mpr fun i hi j hj hij => ?_
  have hi := h.bounds i hi
  have hj := h.bounds j hj
  have hwidth := h.width
  exact (ofNat_eq_ofNat_iff (w := 32) (by omega) (by omega)).mp hij

theorem congr (h : kcp.Window u n is) (hpace : kcp'.pace = kcp.pace)
    (hnxt : kcp'.sndNxt = kcp.sndNxt)
    (hbuf : kcp'.sndBuf.map Ikcpseg.sn = kcp.sndBuf.map Ikcpseg.sn) : kcp'.Window u n is := by
  obtain ⟨huna, hrmt⟩ := Prod.mk.inj hpace
  exact ⟨huna.trans h.una, hnxt.trans h.nxt, hbuf.trans h.sns, h.sorted, h.bounds, h.le, h.width,
    by rw [hrmt]; exact h.rmtWnd⟩

theorem of_sides (h : kcp.Window u n is) (hpace : kcp'.pace = kcp.pace)
    (hside : kcp'.sendSide = kcp.sendSide) : kcp'.Window u n is := by
  have hbuf : kcp'.sndBuf = kcp.sndBuf := congrArg SendSide.sndBuf hside
  exact h.congr hpace (congrArg SendSide.sndNxt hside) (by rw [hbuf])

/-- Segments may be deleted. -/
theorem keeps (h : kcp.Window u n is) (hk : kcp.Keeps kcp') (huna : kcp'.sndUna = kcp.sndUna)
    (hrmt : kcp'.rmtWnd.toNat ≤ 65535) : ∃ is', kcp'.Window u n is' := by
  have hnxt : kcp'.sndNxt = kcp.sndNxt := congrArg SendSide.sndNxt hk.1
  have hbuf : (kcp'.sndBuf.map Ikcpseg.sn).Sublist (kcp.sndBuf.map Ikcpseg.sn) := by
    have := hk.2.map Ikcpseg.sn
    rwa [List.map_map, List.map_map] at this
  rw [h.sns] at hbuf
  obtain ⟨is', hsub, his'⟩ := List.sublist_map_iff.mp hbuf
  exact ⟨is', huna.trans h.una, hnxt.trans h.nxt, his', h.sorted.sublist hsub,
    fun i hi => h.bounds i (hsub.subset hi), h.le, h.width, hrmt⟩

/-- `ikcp_shrink_buf` moves `snd_una` up to the first segment left. -/
theorem shrinkBuf (h : kcp.Window u n is) : ∃ u', kcp.shrinkBuf.Window u' n is := by
  have hsns := h.sns
  have hle := h.le
  have hwidth := h.width
  cases hbuf : kcp.sndBuf with
  | nil =>
    have his : is = [] := by
      rw [hbuf] at hsns
      exact List.map_eq_nil_iff.mp hsns.symm
    subst his
    refine ⟨n, ?_, h.nxt, hsns, h.sorted, by simp, le_rfl, by omega, h.rmtWnd⟩
    unfold Ikcpcb.shrinkBuf
    rw [hbuf]
    exact h.nxt
  | cons seg p =>
    rw [hbuf] at hsns
    cases is with
    | nil => exact absurd hsns (by simp)
    | cons i is =>
      obtain ⟨hi, -⟩ := List.cons.inj hsns
      have hbi := h.bounds i List.mem_cons_self
      refine ⟨i, ?_, h.nxt, h.sns, h.sorted, fun j hj => ⟨?_, (h.bounds j hj).2⟩, hbi.2.le,
        by omega, h.rmtWnd⟩
      · unfold Ikcpcb.shrinkBuf
        rw [hbuf]
        exact hi
      · rcases List.mem_cons.mp hj with rfl | hj
        · exact le_rfl
        · exact (List.rel_of_pairwise_cons h.sorted hj).le

theorem inputAck (h : kcp.Window u n is) (seg : Ikcpseg) :
    ∃ u' is', (kcp.inputAck seg).Window u' n is' := by
  have hack {kcp : Ikcpcb} (h : kcp.Window u n is) :
      ∃ u' is', (kcp.parseAck seg.sn).shrinkBuf.Window u' n is' := by
    obtain ⟨huna, hrmt⟩ := Prod.mk.inj (pace_parseAck kcp seg.sn)
    obtain ⟨is', h'⟩ := h.keeps (keeps_parseAck kcp seg.sn) huna (by rw [hrmt]; exact h.rmtWnd)
    obtain ⟨u', h''⟩ := h'.shrinkBuf
    exact ⟨u', is', h''⟩
  unfold Ikcpcb.inputAck
  dsimp only
  split_ifs
  · exact hack (h.of_sides (pace_updateAck kcp _) (sendSide_updateAck kcp _))
  · exact hack h

/-- A segment received, whose window has 16 bits. -/
theorem inputSegment (h : kcp.Window u n is) (seg : Ikcpseg) (hwnd : seg.wnd.toNat ≤ 65535) :
    ∃ u' is', (kcp.inputSegment seg).Window u' n is' := by
  have hrmt : ({ kcp with rmtWnd := seg.wnd } : Ikcpcb).Window u n is :=
    ⟨h.una, h.nxt, h.sns, h.sorted, h.bounds, h.le, h.width, hwnd⟩
  obtain ⟨is₁, h₁⟩ := hrmt.keeps (keeps_parseUna _ seg.una) rfl hwnd
  obtain ⟨u₂, h₂⟩ := h₁.shrinkBuf
  unfold Ikcpcb.inputSegment
  dsimp only
  split_ifs
  · exact h₂.inputAck seg
  · exact ⟨u₂, is₁, h₂.of_sides (pace_inputPush _ _) (sendSide_inputPush _ _)⟩
  · exact ⟨u₂, is₁, h₂.of_sides rfl rfl⟩
  · exact ⟨u₂, is₁, h₂⟩

theorem inputLoop (h : kcp.Window u n is) (data : Bytes) :
    ∃ u' is', (kcp.inputLoop data).2.Window u' n is' := by
  fun_induction Ikcpcb.inputLoop kcp data generalizing u is with
  | case1 kcp data _ => exact ⟨u, is, h⟩
  | case2 kcp data _ => exact ⟨u, is, h⟩
  | case3 kcp data _ => exact ⟨u, is, h⟩
  | case4 kcp data _ => exact ⟨u, is, h⟩
  | case5 kcp data _ hd len =>
    rename_i ih
    obtain ⟨u', is', h'⟩ := h.inputSegment { hd.1 with data := hd.2.2.take len }
      (wnd_decodeHeader_le data)
    exact ih h'

/-- **Input** keeps the numbers in a window. -/
theorem input (h : kcp.Window u n is) (data : Bytes) :
    ∃ u' is', (kcp.input data).2.Window u' n is' := by
  unfold Ikcpcb.input
  dsimp only
  split_ifs
  · exact ⟨u, is, h⟩
  · exact h.inputLoop data
  · obtain ⟨u', is', h'⟩ := h.inputLoop data
    exact ⟨u', is', h'.of_sides (pace_growCwnd _ _) (sendSide_growCwnd _ _)⟩

/-- A segment may be numbered when `snd_nxt` is within the window of the flush. -/
theorem lt_of_itimediff (h : kcp.Window u n is) {cwnd : U32} (hcwnd : cwnd.toNat ≤ 65535)
    (hlt : itimediff kcp.sndNxt (kcp.sndUna + cwnd) < 0) : n < u + cwnd.toNat := by
  have hle := h.le
  have hwidth := h.width
  have hsum : kcp.sndUna + cwnd = BitVec.ofNat 32 (u + cwnd.toNat) := by
    rw [h.una, BitVec.ofNat_add, BitVec.ofNat_toNat, BitVec.setWidth_eq]
  rw [h.nxt, hsum, itimediff, serialDiff_ofNat (by omega) (by omega)] at hlt
  omega

/-- The next segment is numbered. -/
theorem push (h : kcp.Window u n is) (seg : Ikcpseg) (hsn : seg.sn = kcp.sndNxt)
    (hlt : n < u + 65535) :
    ({ kcp with sndBuf := kcp.sndBuf ++ [seg], sndNxt := kcp.sndNxt + 1 } : Ikcpcb).Window u (n + 1)
      (is ++ [n]) := by
  have hle := h.le
  refine ⟨h.una, ?_, ?_, ?_, fun i hi => ?_, by omega, by omega, h.rmtWnd⟩
  · change kcp.sndNxt + 1 = _
    rw [h.nxt, BitVec.ofNat_add]
    rfl
  · rw [List.map_append, List.map_append, h.sns, List.map_singleton, List.map_singleton, hsn, h.nxt]
  · refine List.pairwise_append.mpr ⟨h.sorted, List.pairwise_singleton _ _, fun i hi j hj => ?_⟩
    rw [List.mem_singleton.mp hj]
    exact (h.bounds i hi).2
  · rcases List.mem_append.mp hi with hi | hi
    · have := h.bounds i hi
      omega
    · rw [List.mem_singleton.mp hi]
      omega

end Window

/-- **The move from `snd_queue` to `snd_buf`** numbers segments of the queue that have not been
transmitted, as far as the window of the flush goes. -/
theorem moveToBuf_window (wnd : U32) {cwnd : U32} (hcwnd : cwnd.toNat ≤ 65535)
    (que buf : List Ikcpseg) (nxt : U32) {u n : ℕ} {is : List ℕ}
    (h : ({ kcp with sndBuf := buf, sndNxt := nxt } : Ikcpcb).Window u n is) :
    ∃ moved n' is', (moveToBuf kcp wnd cwnd que buf nxt).2.1 = buf ++ moved ∧
      (∀ seg ∈ moved, seg.xmit = 0 ∧ seg.cmd = cmdPush ∧ ∃ q ∈ que, seg.data = q.data) ∧
      (∀ q ∈ (moveToBuf kcp wnd cwnd que buf nxt).1, q ∈ que) ∧
      ({ kcp with
        sndBuf := (moveToBuf kcp wnd cwnd que buf nxt).2.1
        sndNxt := (moveToBuf kcp wnd cwnd que buf nxt).2.2 } : Ikcpcb).Window u n' is' := by
  induction que generalizing buf nxt n is with
  | nil => exact ⟨[], n, is, (List.append_nil buf).symm, by simp, by simp [moveToBuf], h⟩
  | cons newseg que ih =>
    unfold moveToBuf
    split_ifs with hlt
    · have hn := h.lt_of_itimediff hcwnd hlt
      obtain ⟨moved, n', is', hbuf, hmoved, hque, hwin⟩ := ih _ _ (h.push { newseg with
        conv := kcp.conv, cmd := cmdPush, wnd := wnd, ts := kcp.current, sn := nxt,
        una := kcp.rcvNxt, resendts := kcp.current, rto := kcp.rxRto, fastack := 0, xmit := 0 }
        rfl (by omega))
      refine ⟨_ :: moved, n', is', hbuf.trans (List.append_assoc _ _ _), fun seg hseg => ?_,
        fun q hq => List.mem_cons_of_mem _ (hque q hq), hwin⟩
      rcases List.mem_cons.mp hseg with rfl | hseg
      · exact ⟨rfl, rfl, newseg, List.mem_cons_self, rfl⟩
      · obtain ⟨h₁, h₂, q, hq, h₃⟩ := hmoved seg hseg
        exact ⟨h₁, h₂, q, List.mem_cons_of_mem _ hq, h₃⟩
    · exact ⟨[], n, is, (List.append_nil buf).symm, by simp, fun q hq => hq, h⟩

/-! ## Times -/

/-- `kcp'` has the segments of `kcp` in `snd_queue`, and in `snd_buf` those of `kcp` but for
deleted ones and for how often they have been overtaken. -/
def Trims (kcp' : Ikcpcb) : Prop :=
  kcp'.sndQueue = kcp.sndQueue ∧ (kcp'.sndBuf.map timing).Sublist (kcp.sndBuf.map timing)

theorem Trims.refl : kcp.Trims kcp := ⟨rfl, List.Sublist.refl _⟩

variable {kcp} in
theorem Trims.trans {kcp₁ kcp₂ : Ikcpcb} (h₁ : kcp.Trims kcp₁) (h₂ : kcp₁.Trims kcp₂) :
    kcp.Trims kcp₂ := ⟨h₂.1.trans h₁.1, h₂.2.trans h₁.2⟩

variable {kcp} in
theorem Trims.of_sendSide {kcp' : Ikcpcb} (h : kcp'.sendSide = kcp.sendSide) :
    kcp.Trims kcp' := by
  have hque : kcp'.sndQueue = kcp.sndQueue := congrArg SendSide.sndQueue h
  have hbuf : kcp'.sndBuf = kcp.sndBuf := congrArg SendSide.sndBuf h
  exact ⟨hque, by rw [hbuf]⟩

theorem trims_parseUna (una : U32) : kcp.Trims (kcp.parseUna una) :=
  ⟨rfl, (List.dropWhile_sublist _).map _⟩

theorem trims_parseAck (sn : U32) : kcp.Trims (kcp.parseAck sn) := by
  unfold parseAck
  split_ifs
  · exact .refl kcp
  · exact ⟨rfl, ackLoop_timing sn kcp.sndBuf⟩

theorem trims_inputAck (seg : Ikcpseg) : kcp.Trims (kcp.inputAck seg) := by
  unfold inputAck
  dsimp only
  split_ifs
  · exact (Trims.of_sendSide (sendSide_updateAck kcp _)).trans
      ((trims_parseAck _ seg.sn).trans (.of_sendSide rfl))
  · exact (trims_parseAck kcp seg.sn).trans (.of_sendSide rfl)

theorem trims_inputSegment (seg : Ikcpseg) : kcp.Trims (kcp.inputSegment seg) := by
  have h : kcp.Trims (({ kcp with rmtWnd := seg.wnd }).parseUna seg.una).shrinkBuf :=
    trims_parseUna { kcp with rmtWnd := seg.wnd } seg.una
  unfold inputSegment
  dsimp only
  split_ifs
  · exact h.trans (trims_inputAck _ seg)
  · exact h.trans (.of_sendSide (sendSide_inputPush _ seg))
  · exact h
  · exact h

theorem trims_inputLoop (data : Bytes) : kcp.Trims (kcp.inputLoop data).2 := by
  fun_induction inputLoop kcp data with
  | case1 kcp data _ => exact .refl kcp
  | case2 kcp data _ => exact .refl kcp
  | case3 kcp data _ => exact .refl kcp
  | case4 kcp data _ => exact .refl kcp
  | case5 kcp data _ hd len _ _ _ ih => exact (trims_inputSegment kcp _).trans ih

/-- **Input** does not change when the segments left are sent again. -/
theorem trims_input (data : Bytes) : kcp.Trims (kcp.input data).2 := by
  unfold input
  dsimp only
  split_ifs
  · exact .refl kcp
  · exact trims_inputLoop kcp data
  · exact (trims_inputLoop kcp data).trans (.of_sendSide (sendSide_growCwnd _ _))

end Ikcpcb

end LuaKcp.Ikcp
