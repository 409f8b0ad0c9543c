import LuaKcp.Ikcp.Settings

/-!
# Window probes

When the remote tells that its window is closed, `ikcp_flush` arms a timer and asks for the window
when it runs out; the remote then tells its window with its next flush. The window is open again
after the first segment that tells so.
-/

namespace LuaKcp.Ikcp

/-- The bits of a probe that has been asked for. -/
theorem or_and_self (probe ask : U32) : (probe ||| ask) &&& ask = ask := by
  ext i hi
  simp only [BitVec.getElem_and, BitVec.getElem_or]
  cases probe[i] <;> cases ask[i] <;> rfl

/-- What has been asked for stays asked for. -/
theorem or_and_ne_zero {probe ask : U32} (h : probe &&& ask ≠ 0) (other : U32) :
    (probe ||| other) &&& ask ≠ 0 := by
  intro h0
  refine h (BitVec.eq_of_getElem_eq fun i hi => ?_)
  have hbit : ((probe ||| other) &&& ask)[i] = (0 : U32)[i] := by rw [h0]
  simp only [BitVec.getElem_and, BitVec.getElem_or] at hbit ⊢
  cases hp : probe[i]
  · exact (BitVec.getElem_zero hi).symm
  · simpa [hp] using hbit

namespace Ikcpcb

variable (kcp : Ikcpcb)

/-! ## Asking -/

/-- The probe timer. -/
def probeTimer : U32 × U32 × U32 := (kcp.rmtWnd, kcp.probeWait, kcp.tsProbe)

theorem probeTimer_flush (hu : kcp.updated ≠ 0) :
    kcp.flush.1.probeTimer = ({ kcp with acklist := [] } : Ikcpcb).probeWindow.probeTimer := by
  have hend (kcp : Ikcpcb) (resent cwnd : U32) (change : ℕ) (lost : Bool) :
      ((kcp.onChange resent change).onLost cwnd lost).minCwnd.probeTimer = kcp.probeTimer := by
    unfold minCwnd onLost onChange
    split_ifs <;> rfl
  rw [kcp.flush_eq hu, hend]
  rfl

/-- A timer that has not run out goes on. -/
theorem probeTimer_flush_of_not_due (hu : kcp.updated ≠ 0) (hrmt : kcp.rmtWnd = 0)
    (hwait : kcp.probeWait ≠ 0) (hdue : ¬ 0 ≤ itimediff kcp.current kcp.tsProbe) :
    kcp.flush.1.probeTimer = kcp.probeTimer := by
  rw [kcp.probeTimer_flush hu]
  unfold probeWindow
  rw [if_pos hrmt, if_neg hwait, if_neg hdue]
  rfl

theorem rmtWnd_flush : kcp.flush.1.rmtWnd = kcp.rmtWnd := by
  by_cases hu : kcp.updated = 0
  · unfold flush
    rw [if_pos hu]
  · rw [show kcp.flush.1.rmtWnd = kcp.flush.1.probeTimer.1 from rfl, kcp.probeTimer_flush hu]
    exact congrArg Prod.snd ({ kcp with acklist := [] } : Ikcpcb).pace_probeWindow

/-- The wait for the next probe is none, or between the first and the last one. -/
def Paced : Prop := kcp.probeWait = 0 ∨ (probeInit ≤ kcp.probeWait ∧ kcp.probeWait ≤ probeLimit)

variable {kcp} in
/-- A wait is followed by one that is half as long again, up to the last one. -/
theorem Paced.nextProbeWait_eq (h : kcp.Paced) (hne : kcp.probeWait ≠ 0) :
    kcp.nextProbeWait.toNat = min (kcp.probeWait.toNat + kcp.probeWait.toNat / 2) 120000 := by
  obtain ⟨hlow, hhigh⟩ := h.resolve_left hne
  have hlow' : 7000 ≤ kcp.probeWait.toNat := BitVec.le_def.mp hlow
  have hhigh' : kcp.probeWait.toNat ≤ 120000 := BitVec.le_def.mp hhigh
  have hsum : (kcp.probeWait + kcp.probeWait / 2).toNat =
      kcp.probeWait.toNat + kcp.probeWait.toNat / 2 := by
    rw [BitVec.toNat_add, BitVec.toNat_udiv]
    exact Nat.mod_eq_of_lt (by simp; omega)
  have hlimit : probeLimit.toNat = 120000 := rfl
  unfold nextProbeWait imin
  dsimp only
  rw [if_neg (BitVec.not_lt.mpr hlow)]
  split_ifs with hle
  · rw [BitVec.le_def, hsum, hlimit] at hle
    rw [hsum, min_eq_left hle]
  · rw [BitVec.le_def, hsum, hlimit] at hle
    rw [hlimit, min_eq_right (by omega)]

variable {kcp} in
theorem Paced.probeWindow (h : kcp.Paced) : kcp.probeWindow.Paced := by
  unfold Ikcpcb.probeWindow
  split_ifs with hrmt hwait
  · exact Or.inr ⟨show probeInit ≤ probeInit by decide, show probeInit ≤ probeLimit by decide⟩
  · have hnext := h.nextProbeWait_eq hwait
    obtain ⟨hlow, -⟩ := h.resolve_left hwait
    have hlow' : 7000 ≤ kcp.probeWait.toNat := BitVec.le_def.mp hlow
    refine Or.inr ⟨BitVec.le_def.mpr ?_, BitVec.le_def.mpr ?_⟩
    · change 7000 ≤ kcp.nextProbeWait.toNat
      omega
    · change kcp.nextProbeWait.toNat ≤ 120000
      omega
  · exact h
  · exact Or.inl rfl

theorem Paced.congr {kcp kcp' : Ikcpcb} (h : kcp.Paced) (hw : kcp'.probeWait = kcp.probeWait) :
    kcp'.Paced := by
  unfold Paced
  rw [hw]
  exact h

variable {kcp} in
theorem Paced.flush (h : kcp.Paced) : kcp.flush.1.Paced := by
  by_cases hu : kcp.updated = 0
  · unfold Ikcpcb.flush
    rw [if_pos hu]
    exact h
  · have hacks : ({ kcp with acklist := [] } : Ikcpcb).Paced := h
    exact hacks.probeWindow.congr (congrArg (fun p => p.2.1) (kcp.probeTimer_flush hu))

variable {kcp} in
/-- A flush with the remote window closed arms the timer. -/
theorem Paced.probeWait_flush (h : kcp.Paced) (hu : kcp.updated ≠ 0) (hrmt : kcp.rmtWnd = 0) :
    kcp.flush.1.probeWait ≠ 0 := by
  have htimer : kcp.flush.1.probeWait =
      ({ kcp with acklist := [] } : Ikcpcb).probeWindow.probeWait :=
    congrArg (fun p => p.2.1) (kcp.probeTimer_flush hu)
  rw [htimer]
  unfold Ikcpcb.probeWindow
  rw [if_pos hrmt]
  split_ifs with hwait
  · exact show probeInit ≠ 0 by decide
  · intro h0
    have hnext := h.nextProbeWait_eq hwait
    have hzero : kcp.nextProbeWait.toNat = 0 := congrArg BitVec.toNat h0
    obtain ⟨hlow, -⟩ := h.resolve_left hwait
    have hlow' : 7000 ≤ kcp.probeWait.toNat := BitVec.le_def.mp hlow
    omega
  · exact hwait

/-! ### The timer in the other operations -/

/-- The wait for the next probe and its end. -/
def waiting : U32 × U32 := (kcp.probeWait, kcp.tsProbe)

theorem waiting_send (buffer : Bytes) (len : ℤ) :
    (kcp.send buffer len).2.waiting = kcp.waiting := by
  unfold send
  split_ifs
  · rfl
  · dsimp only
    split_ifs <;> rfl

theorem waiting_recv (len : ℤ) : (kcp.recv len).2.2.waiting = kcp.waiting := by
  unfold recv dropMerged fastRecover
  dsimp only
  split_ifs <;> rfl

theorem waiting_inputPush (seg : Ikcpseg) : (kcp.inputPush seg).waiting = kcp.waiting := by
  have hdata (kcp : Ikcpcb) : (kcp.parseData seg).waiting = kcp.waiting := by
    unfold parseData
    split_ifs
    · rfl
    · dsimp only
      cases insertLoop seg kcp.rcvBuf.reverse <;> rfl
  unfold inputPush
  dsimp only
  split_ifs
  · rw [hdata]
    rfl
  · rfl
  · rfl

theorem waiting_inputSegment (seg : Ikcpseg) :
    (kcp.inputSegment seg).waiting = kcp.waiting := by
  have hack (kcp : Ikcpcb) : (kcp.inputAck seg).waiting = kcp.waiting := by
    unfold inputAck updateAck parseAck
    dsimp only
    split_ifs <;> rfl
  unfold inputSegment
  dsimp only
  split_ifs
  · rw [hack]
    rfl
  · rw [waiting_inputPush]
    rfl
  · rfl
  · rfl

theorem waiting_growCwnd (una : U32) : (kcp.growCwnd una).waiting = kcp.waiting := by
  unfold growCwnd stepCwnd
  dsimp only
  split_ifs <;> rfl

theorem waiting_input (data : Bytes) : (kcp.input data).2.waiting = kcp.waiting :=
  input_rule (P := fun kcp' => kcp'.waiting = kcp.waiting)
    (fun kcp' seg _ h => (waiting_inputSegment kcp' seg).trans h)
    (fun kcp' una h => (waiting_growCwnd kcp' una).trans h) rfl data

variable {kcp} in
theorem Paced.update (h : kcp.Paced) (current : U32) : (kcp.update current).1.Paced := by
  obtain ⟨u, ts, he | he⟩ := kcp.update_eq current
  · have htick : ({ kcp with current := current, updated := u, tsFlush := ts } : Ikcpcb).Paced := h
    rw [he]
    exact htick.flush
  · rw [he]
    exact h

/-- When the timer runs out, a flush asks for the window. -/
theorem asked_of_due (hrmt : kcp.rmtWnd = 0) (hwait : kcp.probeWait ≠ 0)
    (hdue : 0 ≤ itimediff kcp.current kcp.tsProbe) : kcp.asked &&& askSend ≠ 0 := by
  have hasked : kcp.asked = kcp.probe ||| askSend := by
    unfold asked probeWindow
    rw [if_pos hrmt, if_neg hwait, if_pos hdue]
    rfl
  rw [hasked, or_and_self]
  decide

/-- What has been asked for before the flush is asked for in it. -/
theorem asked_of_probe {ask : U32} (h : kcp.probe &&& ask ≠ 0) : kcp.asked &&& ask ≠ 0 := by
  unfold asked probeWindow
  split_ifs
  · exact or_and_ne_zero h 0
  · exact or_and_ne_zero h askSend
  · exact h
  · exact h

/-- A probe asked for is handed over. -/
theorem mem_flush_of_asked (hu : kcp.updated ≠ 0)
    (hshort : ∀ seg ∈ kcp.loaded.sndBuf, seg.data.length < 2 ^ 32) {cmd : U32}
    (h : (cmd = cmdWask ∧ kcp.asked &&& askSend ≠ 0) ∨
      (cmd = cmdWins ∧ kcp.asked &&& askTell ≠ 0)) :
    ∃ d ∈ kcp.flush.2, ∃ seg ∈ decodeSegs d, seg.cmd = cmd := by
  have hemits := kcp.flush_emits hu hshort
  have hmem : kcp.probeSeg kcp.lastAck.1 kcp.lastAck.2 cmd ∈
      kcp.probeSegs kcp.asked kcp.lastAck.1 kcp.lastAck.2 := by
    rw [mem_probeSegs]
    obtain ⟨rfl, hask⟩ | ⟨rfl, hask⟩ := h
    · exact Or.inl ⟨hask, rfl⟩
    · exact Or.inr ⟨hask, rfl⟩
  have hout : onWire (kcp.probeSeg kcp.lastAck.1 kcp.lastAck.2 cmd) ∈
      kcp.flush.2.flatMap decodeSegs := by
    rw [hemits]
    exact List.mem_map_of_mem (List.mem_append_left _ (List.mem_append_right _ hmem))
  obtain ⟨d, hd, hseg⟩ := List.mem_flatMap.mp hout
  refine ⟨d, hd, _, hseg, ?_⟩
  have hcmd : IsCmd (kcp.probeSeg kcp.lastAck.1 kcp.lastAck.2 cmd).cmd := by
    obtain ⟨rfl, -⟩ | ⟨rfl, -⟩ := h
    · exact Or.inr (Or.inr (Or.inl rfl))
    · exact Or.inr (Or.inr (Or.inr rfl))
  exact hcmd.onWire

/-! ## Telling -/

/-- Segments add to what is to be told. -/
theorem probe_inputSegment (seg : Ikcpseg) : (kcp.inputSegment seg).probe =
    if seg.cmd = cmdWask then kcp.probe ||| askTell else kcp.probe := by
  have hdata (kcp : Ikcpcb) (seg : Ikcpseg) : (kcp.parseData seg).probe = kcp.probe := by
    unfold parseData
    split_ifs
    · rfl
    · dsimp only
      cases insertLoop seg kcp.rcvBuf.reverse <;> rfl
  have hpush (kcp : Ikcpcb) (seg : Ikcpseg) : (kcp.inputPush seg).probe = kcp.probe := by
    unfold inputPush
    dsimp only
    split_ifs
    · rw [hdata]
      rfl
    · rfl
    · rfl
  have hack (kcp : Ikcpcb) (seg : Ikcpseg) : (kcp.inputAck seg).probe = kcp.probe := by
    unfold inputAck updateAck parseAck
    dsimp only
    split_ifs <;> rfl
  have h₁ : cmdAck ≠ cmdWask := by decide
  have h₂ : cmdPush ≠ cmdWask := by decide
  unfold inputSegment
  dsimp only
  split_ifs with ha hw hp hw hw
  · exact absurd (ha.symm.trans hw) h₁
  · rw [hack]
    rfl
  · exact absurd (hp.symm.trans hw) h₂
  · rw [hpush]
    rfl
  · rfl
  · rfl

/-- **A window probe** received is to be answered. -/
theorem probe_input {segs : List Ikcpseg} (hsend : ∀ seg ∈ segs, Sendable kcp.conv seg)
    {seg : Ikcpseg} (hmem : seg ∈ segs) (hcmd : (onWire seg).cmd = cmdWask) :
    (kcp.input (encodeSegs segs)).2.probe &&& askTell ≠ 0 := by
  refine (input_encode_rule (P := fun _ => True) (Q := fun kcp => kcp.probe &&& askTell ≠ 0) hmem
    (fun _ _ _ _ => trivial) (fun kcp _ => ?_) (fun kcp _ hQ seg _ => ?_) (fun kcp una _ hQ => ?_)
    trivial hsend).2
  · rw [probe_inputSegment, if_pos hcmd, or_and_self]
    decide
  · rw [probe_inputSegment]
    split_ifs
    · exact or_and_ne_zero hQ askTell
    · exact hQ
  · have hgrow : (kcp.growCwnd una).probe = kcp.probe := by
      unfold growCwnd stepCwnd
      dsimp only
      split_ifs <;> rfl
    exact ⟨trivial, hgrow ▸ hQ⟩

/-- Reading keeps what is to be told. -/
theorem probe_recv {ask : U32} (h : kcp.probe &&& ask ≠ 0) (len : ℤ) :
    (kcp.recv len).2.2.probe &&& ask ≠ 0 := by
  have hrecover (kcp : Ikcpcb) (recover : Bool) (h : kcp.probe &&& ask ≠ 0) :
      (kcp.fastRecover recover).probe &&& ask ≠ 0 := by
    unfold fastRecover
    split_ifs
    · exact or_and_ne_zero h askTell
    · exact h
  have hdrop (ispeek : Bool) : (kcp.dropMerged ispeek).moveAvailable.probe = kcp.probe := by
    unfold dropMerged
    split_ifs <;> rfl
  unfold recv
  split_ifs
  · exact h
  · exact h
  · exact h
  · refine hrecover _ _ ?_
    rw [hdrop]
    exact h

theorem tell_ne_zero (probe : U32) : (probe ||| askTell) &&& askTell ≠ 0 := by
  rw [or_and_self]
  decide

/-- **What a read asks to be told**: the window, when it makes room in a queue as long as that. -/
theorem probe_recv_iff (len : ℤ) : (kcp.recv len).2.2.probe &&& askTell ≠ 0 ↔
    kcp.probe &&& askTell ≠ 0 ∨
      (kcp.rcvWnd.toNat ≤ kcp.nrcvQue ∧ (kcp.recv len).2.2.nrcvQue < kcp.rcvWnd.toNat) := by
  have hsame : kcp.probe &&& askTell ≠ 0 ↔ kcp.probe &&& askTell ≠ 0 ∨
      (kcp.rcvWnd.toNat ≤ kcp.nrcvQue ∧ kcp.nrcvQue < kcp.rcvWnd.toNat) :=
    ⟨Or.inl, fun h => h.resolve_right fun h => absurd h.2 (not_lt.mpr h.1)⟩
  have hrecover (kcp : Ikcpcb) (recover : Bool) :
      ((kcp.fastRecover recover).probe &&& askTell ≠ 0 ↔ kcp.probe &&& askTell ≠ 0 ∨
          (recover = true ∧ kcp.nrcvQue < kcp.rcvWnd.toNat)) ∧
        (kcp.fastRecover recover).nrcvQue = kcp.nrcvQue := by
    unfold fastRecover
    split_ifs with h
    · exact ⟨iff_of_true (tell_ne_zero _) (Or.inr h.symm), rfl⟩
    · exact ⟨⟨Or.inl, fun h' => h'.resolve_right fun h' => h h'.symm⟩, rfl⟩
  have hdrop (ispeek : Bool) : (kcp.dropMerged ispeek).moveAvailable.probe = kcp.probe ∧
      (kcp.dropMerged ispeek).moveAvailable.rcvWnd = kcp.rcvWnd := by
    unfold dropMerged
    split_ifs <;> exact ⟨rfl, rfl⟩
  unfold recv
  split_ifs
  · exact hsame
  · exact hsame
  · exact hsame
  · obtain ⟨hprobe, hwnd⟩ := hdrop (decide (len < 0))
    obtain ⟨hiff, hque⟩ := hrecover (kcp.dropMerged (decide (len < 0))).moveAvailable
      (decide (kcp.nrcvQue ≥ kcp.rcvWnd.toNat))
    rw [hiff, hque, hprobe, hwnd, decide_eq_true_iff]

/-- **What a datagram asks to be told**: the window, when one of its segments asks for it. -/
theorem probe_input_iff (data : Bytes) : (kcp.input data).2.probe &&& askTell ≠ 0 ↔
    kcp.probe &&& askTell ≠ 0 ∨ ∃ seg ∈ appliedSegs kcp.conv data, seg.cmd = cmdWask := by
  have hfold (segs : List Ikcpseg) (kcp : Ikcpcb) :
      (segs.foldl inputSegment kcp).probe &&& askTell ≠ 0 ↔
        kcp.probe &&& askTell ≠ 0 ∨ ∃ seg ∈ segs, seg.cmd = cmdWask := by
    induction segs generalizing kcp with
    | nil => simp
    | cons seg segs ih =>
      rw [List.foldl_cons, ih, probe_inputSegment, List.exists_mem_cons_iff]
      split_ifs with hcmd
      · exact iff_of_true (Or.inl (tell_ne_zero _)) (Or.inr (Or.inl hcmd))
      · simp only [hcmd, false_or]
  have hgrow (kcp : Ikcpcb) (una : U32) : (kcp.growCwnd una).probe = kcp.probe := by
    unfold growCwnd stepCwnd
    dsimp only
    split_ifs <;> rfl
  rw [← hfold, ← inputLoop_eq]
  unfold input
  dsimp only
  split_ifs with hshort
  · rw [inputLoop, if_pos (by unfold overhead; exact hshort)]
  · rfl
  · rw [hgrow]

/-- There is room in the window as long as the queue is shorter than it. -/
theorem wndUnused_ne_zero (h : kcp.nrcvQue < kcp.rcvWnd.toNat) : kcp.wndUnused ≠ 0 := by
  have hlt := kcp.rcvWnd.isLt
  have hque : (BitVec.ofNat 32 kcp.nrcvQue).toNat = kcp.nrcvQue := by
    rw [BitVec.toNat_ofNat, Nat.mod_eq_of_lt (by omega)]
  unfold wndUnused
  rw [if_pos h]
  intro h0
  have hsub := congrArg BitVec.toNat h0
  rw [BitVec.toNat_sub_of_le (BitVec.le_def.mpr (by omega)), hque] at hsub
  have hzero : (0 : U32).toNat = 0 := rfl
  omega

@[simp] theorem rmtWnd_inputSegment (seg : Ikcpseg) : (kcp.inputSegment seg).rmtWnd = seg.wnd := by
  have hack (kcp : Ikcpcb) : (kcp.inputAck seg).rmtWnd = kcp.rmtWnd := by
    unfold inputAck updateAck parseAck
    dsimp only
    split_ifs <;> rfl
  unfold inputSegment
  dsimp only
  split_ifs
  · rw [hack]
    rfl
  · exact congrArg Prod.snd (pace_inputPush _ seg)
  · rfl
  · rfl

/-- **The window of the remote** after a datagram all of whose segments tell the same. -/
theorem rmtWnd_input {segs : List Ikcpseg} (hsend : ∀ seg ∈ segs, Sendable kcp.conv seg)
    (hne : segs ≠ []) {wnd : U32} (hwnd : ∀ seg ∈ segs, (onWire seg).wnd = wnd) :
    (kcp.input (encodeSegs segs)).2.rmtWnd = wnd := by
  obtain ⟨seg, hmem⟩ := List.exists_mem_of_ne_nil segs hne
  refine (input_encode_rule (P := fun _ => True) (Q := fun kcp => kcp.rmtWnd = wnd) hmem
    (fun _ _ _ _ => trivial) (fun kcp _ => ?_) (fun kcp _ _ seg hseg => ?_)
    (fun kcp una _ hQ => ⟨trivial, ?_⟩) trivial hsend).2
  · rw [rmtWnd_inputSegment, hwnd seg hmem]
  · rw [rmtWnd_inputSegment, hwnd seg hseg]
  · exact (congrArg Prod.snd (pace_growCwnd kcp una)).trans hQ

end Ikcpcb

end LuaKcp.Ikcp
