import LuaKcp.Ikcp.Probing
import LuaKcp.Session.Buffers

/-!
# The window probes of an endpoint

In every state that an endpoint reaches, whatever it is fed: a flush asks for the remote window once
exactly when that window is closed and the probe timer has run out, and tells its own window once
exactly when that has been asked for since the last flush, by a datagram of the other end or by a
read that has made room in a full queue. The timer runs while the remote window is closed: first for
seven seconds, then half as long again each time up to two minutes (`probes_of_reaches`).
-/

namespace LuaKcp

open Ikcp

namespace Ikcp.Ikcpcb

variable (kcp : Ikcpcb)

/-! ## What is asked for -/

/-- The probe timer has run out. -/
def ProbeDue : Prop :=
  kcp.rmtWnd = 0 ∧ kcp.probeWait ≠ 0 ∧ 0 ≤ itimediff kcp.current kcp.tsProbe

instance : Decidable kcp.ProbeDue := inferInstanceAs (Decidable (_ ∧ _))

/-- Adding one request leaves the other one as it is. -/
theorem or_and_other {probe ask other : U32} (h : other &&& ask = 0) :
    (probe ||| other) &&& ask = probe &&& ask := by
  refine BitVec.eq_of_getElem_eq fun i hi => ?_
  have hbit : (other &&& ask)[i] = (0 : U32)[i] := by rw [h]
  have hzero : (0 : U32)[i] = false := BitVec.getElem_zero hi
  rw [BitVec.getElem_and, hzero] at hbit
  rw [BitVec.getElem_and, BitVec.getElem_or, BitVec.getElem_and, Bool.and_or_distrib_right, hbit,
    Bool.or_false]

/-- A flush adds the request for the window to what has been asked for. -/
theorem asked_eq : kcp.asked = if kcp.ProbeDue then kcp.probe ||| askSend else kcp.probe := by
  have hprobe (kcp : Ikcpcb) : kcp.probeWindow.probe =
      if kcp.ProbeDue then kcp.probe ||| askSend else kcp.probe := by
    unfold probeWindow
    by_cases hrmt : kcp.rmtWnd = 0
    · rw [if_pos hrmt]
      by_cases hwait : kcp.probeWait = 0
      · have hnot : ¬ kcp.ProbeDue := fun h => h.2.1 hwait
        rw [if_pos hwait, if_neg hnot]
        exact BitVec.or_zero
      · by_cases hdue : 0 ≤ itimediff kcp.current kcp.tsProbe
        · have hyes : kcp.ProbeDue := ⟨hrmt, hwait, hdue⟩
          rw [if_neg hwait, if_pos hdue, if_pos hyes]
          rfl
        · have hnot : ¬ kcp.ProbeDue := fun h => hdue h.2.2
          rw [if_neg hwait, if_neg hdue, if_neg hnot]
    · have hnot : ¬ kcp.ProbeDue := fun h => hrmt h.1
      rw [if_neg hrmt, if_neg hnot]
  exact hprobe { kcp with acklist := [] }

/-- The request for the remote window is made and answered within a flush. -/
def Unasked : Prop := kcp.probe &&& askSend = 0

variable {kcp} in
theorem Unasked.asked_send (h : kcp.Unasked) : kcp.asked &&& askSend ≠ 0 ↔ kcp.ProbeDue := by
  rw [asked_eq]
  split_ifs with hdue
  · rw [or_and_self]
    exact iff_of_true (by decide) hdue
  · exact iff_of_false (not_not.mpr h) hdue

theorem asked_tell : kcp.asked &&& askTell = kcp.probe &&& askTell := by
  rw [asked_eq]
  split_ifs
  · exact or_and_other (by decide)
  · rfl

/-! ## What a flush hands over -/

/-- The segments with a command that a flush hands over. -/
def handedOver (cmd : U32) : ℕ := (kcp.flush.2.flatMap decodeSegs).countP fun seg => seg.cmd = cmd

/-- **The probes handed over** are those asked for, once each. -/
theorem handedOver_probes (h : kcp.Queued) (hu : kcp.updated ≠ 0) :
    kcp.handedOver cmdWask = (if kcp.asked &&& askSend ≠ 0 then 1 else 0) ∧
      kcp.handedOver cmdWins = if kcp.asked &&& askTell ≠ 0 then 1 else 0 := by
  have hemits := kcp.flush_emits hu fun seg hseg =>
    h.loaded.short seg (List.mem_append_right _ hseg)
  set sn := kcp.lastAck.1
  set ts := kcp.lastAck.2
  -- neither acknowledgements nor data segments count
  have hacks {cmd : U32} (hcmd : cmd ≠ cmdAck) :
      ((kcp.ackSegs.map onWire).countP fun seg => seg.cmd = cmd) = 0 := by
    rw [List.countP_eq_zero]
    intro seg hseg
    obtain ⟨ack, hack, rfl⟩ := List.mem_map.mp hseg
    obtain ⟨a, -, rfl⟩ := List.mem_map.mp hack
    simpa using fun he => hcmd (he.symm.trans (IsCmd.onWire (Or.inr (Or.inl rfl))))
  have hdata {cmd : U32} (hcmd : cmd ≠ cmdPush) :
      (((kcp.loaded.sndBuf.filterMap kcp.transmit).map onWire).countP fun seg => seg.cmd = cmd) =
        0 := by
    rw [List.countP_eq_zero]
    intro seg hseg
    obtain ⟨sent, hsent, rfl⟩ := List.mem_map.mp hseg
    obtain ⟨old, hold, htransmit⟩ := List.mem_filterMap.mp hsent
    have hpush : sent.cmd = cmdPush :=
      (cmd_eq_of_content (kcp.content_transmit htransmit)).trans (h.loaded.push old hold)
    simpa using fun he =>
      hcmd (he.symm.trans ((IsCmd.onWire (Or.inl hpush)).trans hpush))
  have hwask : (onWire (kcp.probeSeg sn ts cmdWask)).cmd = cmdWask :=
    IsCmd.onWire (show IsCmd (kcp.probeSeg sn ts cmdWask).cmd from Or.inr (Or.inr (Or.inl rfl)))
  have hwins : (onWire (kcp.probeSeg sn ts cmdWins)).cmd = cmdWins :=
    IsCmd.onWire (show IsCmd (kcp.probeSeg sn ts cmdWins).cmd from Or.inr (Or.inr (Or.inr rfl)))
  have hne : cmdWask ≠ cmdWins := by decide
  have hsplit (cmd : U32) (hack : cmd ≠ cmdAck) (hpush : cmd ≠ cmdPush) : kcp.handedOver cmd =
      ((kcp.probeSegs kcp.asked sn ts).map onWire).countP fun seg => seg.cmd = cmd := by
    unfold handedOver
    rw [hemits]
    unfold flushSegs preambleSegs
    rw [List.map_append, List.map_append, List.countP_append, List.countP_append, hacks hack,
      hdata hpush, Nat.zero_add, Nat.add_zero]
  rw [hsplit cmdWask (by decide) (by decide), hsplit cmdWins (by decide) (by decide)]
  unfold probeSegs
  split_ifs <;> simp [hwask, hwins, hne, hne.symm]

/-- **The window probes of the next flush**: what it hands over, when its window `asked` for has
been, and how it sets the timer. -/
structure Probes (asked : Bool) : Prop where
  asks : kcp.handedOver cmdWask = if kcp.ProbeDue then 1 else 0
  tells : kcp.handedOver cmdWins = if asked then 1 else 0
  cleared : kcp.flush.1.probe = 0
  opened : kcp.rmtWnd ≠ 0 → kcp.flush.1.waiting = (0, 0)
  armed : kcp.rmtWnd = 0 → kcp.probeWait = 0 → kcp.flush.1.waiting = (7000, kcp.current + 7000)
  running : kcp.rmtWnd = 0 → kcp.probeWait ≠ 0 → ¬ kcp.ProbeDue →
    kcp.flush.1.waiting = kcp.waiting
  again : kcp.ProbeDue → ∃ wait : U32, kcp.flush.1.waiting = (wait, kcp.current + wait) ∧
    wait.toNat = min (kcp.probeWait.toNat + kcp.probeWait.toNat / 2) 120000
  paced : kcp.probeWait = 0 ∨ (7000 ≤ kcp.probeWait.toNat ∧ kcp.probeWait.toNat ≤ 120000)

theorem waiting_flush (hu : kcp.updated ≠ 0) :
    kcp.flush.1.waiting = ({ kcp with acklist := [] } : Ikcpcb).probeWindow.waiting :=
  congrArg Prod.snd (kcp.probeTimer_flush hu)

theorem probe_flush (hu : kcp.updated ≠ 0) : kcp.flush.1.probe = 0 := by
  have hend (kcp : Ikcpcb) (resent cwnd : U32) (change : ℕ) (lost : Bool) :
      ((kcp.onChange resent change).onLost cwnd lost).minCwnd.probe = kcp.probe := by
    unfold minCwnd onLost onChange
    split_ifs <;> rfl
  rw [kcp.flush_eq hu, hend]
  rfl

variable {kcp} in
theorem probes_of_queued (hq : kcp.Queued) (hask : kcp.Unasked) (hp : kcp.Paced)
    (hu : kcp.updated ≠ 0) {asked : Bool} (htell : kcp.probe &&& askTell ≠ 0 ↔ asked = true) :
    kcp.Probes asked := by
  obtain ⟨hwask, hwins⟩ := kcp.handedOver_probes hq hu
  have htimer := kcp.waiting_flush hu
  refine ⟨?_, ?_, kcp.probe_flush hu, fun hrmt => ?_, fun hrmt hwait => ?_,
    fun hrmt hwait hdue => ?_,
    fun hdue => ⟨kcp.nextProbeWait, ?_, hp.nextProbeWait_eq hdue.2.1⟩, hp⟩
  · rw [hwask]
    exact if_congr hask.asked_send rfl rfl
  · rw [hwins, asked_tell]
    exact if_congr htell rfl rfl
  · rw [htimer]
    unfold probeWindow
    rw [if_neg hrmt]
    rfl
  · rw [htimer]
    unfold probeWindow
    rw [if_pos hrmt, if_pos hwait]
    rfl
  · exact congrArg Prod.snd
      (kcp.probeTimer_flush_of_not_due hu hrmt hwait fun h => hdue ⟨hrmt, hwait, h⟩)
  · rw [htimer]
    unfold probeWindow
    rw [if_pos hdue.1, if_neg hdue.2.1, if_pos hdue.2.2]
    rfl

/-! ## Requests in the other operations -/

theorem probe_send (buffer : Bytes) (len : ℤ) : (kcp.send buffer len).2.probe = kcp.probe := by
  unfold send
  dsimp only
  split_ifs <;> rfl

namespace Unasked

variable {kcp}

theorem or_tell {probe : U32} (h : probe &&& askSend = 0) :
    (probe ||| askTell) &&& askSend = 0 := (or_and_other (by decide)).trans h

theorem send (h : kcp.Unasked) (buffer : Bytes) (len : ℤ) : (kcp.send buffer len).2.Unasked := by
  unfold Unasked
  rw [probe_send]
  exact h

theorem recv (h : kcp.Unasked) (len : ℤ) : (kcp.recv len).2.2.Unasked := by
  have hdrop (ispeek : Bool) : (kcp.dropMerged ispeek).moveAvailable.probe = kcp.probe := by
    unfold dropMerged
    split_ifs <;> rfl
  have hrecover (kcp : Ikcpcb) (recover : Bool) (h : kcp.Unasked) :
      (kcp.fastRecover recover).Unasked := by
    unfold fastRecover
    split_ifs
    · exact or_tell h
    · exact h
  unfold Ikcpcb.recv
  split_ifs
  · exact h
  · exact h
  · exact h
  · refine hrecover _ _ ?_
    unfold Unasked
    rw [hdrop]
    exact h

theorem input (h : kcp.Unasked) (data : Bytes) : (kcp.input data).2.Unasked := by
  refine input_rule (P := Unasked) (fun kcp seg _ hk => ?_) (fun kcp una hk => ?_) h data
  · unfold Unasked
    rw [probe_inputSegment]
    split_ifs
    · exact or_tell hk
    · exact hk
  · have hgrow : (kcp.growCwnd una).probe = kcp.probe := by
      unfold growCwnd stepCwnd
      dsimp only
      split_ifs <;> rfl
    unfold Unasked
    rw [hgrow]
    exact hk

end Unasked

end Ikcp.Ikcpcb

namespace Endpoint

variable (s : Endpoint)

/-- The call asks the endpoint to tell its window: a datagram of which a segment asks for it, or a
read that makes room in a queue as long as the window. -/
def asksWindow : EndpointCall → Bool
  | .recv => decide (s.kcp.rcvWnd.toNat ≤ s.kcp.nrcvQue) &&
      decide ((s.call .recv).kcp.nrcvQue < s.kcp.rcvWnd.toNat)
  | .input data => (appliedSegs s.kcp.conv data).any fun seg => decide (seg.cmd = cmdWask)
  | _ => false

/-- Whether the window has been asked for since the last flush. -/
def asked (before : Bool) (c : EndpointCall) : Bool :=
  (s.flushing c).isNone && (before || s.asksWindow c)

/-- An update that does not flush sets the clock and the flush timer. -/
theorem call_update_of_flushing {current : ℤ} (h : s.flushing (.update current) = none) :
    ∃ u ts, (s.call (.update current)).kcp =
      { s.kcp with current := BitVec.ofInt 32 current, updated := u, tsFlush := ts } := by
  obtain ⟨u, ts, -, hticked⟩ := s.kcp.ticked_eq (BitVec.ofInt 32 current)
  unfold flushing at h
  dsimp only at h
  split_ifs at h with hdue
  refine ⟨u, ts, ?_⟩
  unfold call Ikcpcb.lkcpUpdate
  dsimp only
  rw [Ikcpcb.update_ticked, if_neg hdue, hticked]

/-- A flush that hands nothing over changes nothing. -/
theorem call_flush_of_flushing (h : s.flushing .flush = none) : s.call .flush = s := by
  refine Acks.call_flush_eq s ?_
  by_contra hu
  unfold flushing at h
  rw [if_neg hu] at h
  contradiction

/-- **The request to tell the window** is what has been asked for since the last flush. -/
theorem tell_call {before : Bool} (h : s.kcp.probe &&& askTell ≠ 0 ↔ before = true)
    (c : EndpointCall) : (s.call c).kcp.probe &&& askTell ≠ 0 ↔ s.asked before c = true := by
  obtain ⟨kcp, hflush, hu, hcall, -⟩ | ⟨hnone, -⟩ := s.call_flushing c
  · -- the flush tells what has been asked for
    have hzero : ¬ ((0 : U32) &&& askTell ≠ 0) := by decide
    rw [hcall, kcp.probe_flush hu]
    exact iff_of_false hzero (by simp [asked, hflush])
  · have hasked : s.asked before c = (before || s.asksWindow c) := by simp [asked, hnone]
    rw [hasked, Bool.or_eq_true, ← h]
    cases c with
    | send m =>
      have hprobe : (s.call (.send m)).kcp.probe = s.kcp.probe := s.kcp.probe_send m _
      simp [hprobe, asksWindow]
    | recv =>
      have hread := s.kcp.probe_recv_iff recvBufferLen
      change (s.call .recv).kcp.probe &&& askTell ≠ 0 ↔ _ ∨ _ ∧
        (s.call .recv).kcp.nrcvQue < s.kcp.rcvWnd.toNat at hread
      simpa [asksWindow] using hread
    | input data =>
      have hfed := s.kcp.probe_input_iff data
      change (s.call (.input data)).kcp.probe &&& askTell ≠ 0 ↔ _ at hfed
      simpa [asksWindow] using hfed
    | update current =>
      obtain ⟨u, ts, hkcp⟩ := s.call_update_of_flushing hnone
      simp [hkcp, asksWindow]
    | flush =>
      rw [s.call_flush_of_flushing hnone]
      simp [asksWindow]

/-- Between flushes the timer is left as it is. -/
theorem waiting_call {c : EndpointCall} (h : s.flushing c = none) :
    (s.call c).kcp.waiting = s.kcp.waiting := by
  cases c with
  | send m => exact s.kcp.waiting_send m _
  | recv => exact s.kcp.waiting_recv _
  | input data => exact s.kcp.waiting_input data
  | update current =>
    obtain ⟨u, ts, hkcp⟩ := s.call_update_of_flushing h
    rw [hkcp]
    rfl
  | flush => rw [s.call_flush_of_flushing h]

/-- The control block that a call flushes: the one before the call, but for its clock. -/
theorem flushing_eq {c : EndpointCall} {kcp : Ikcpcb} (h : s.flushing c = some kcp) :
    ∃ current u ts, kcp = { s.kcp with current := current, updated := u, tsFlush := ts } := by
  cases c with
  | send m => contradiction
  | recv => contradiction
  | input data => contradiction
  | update current =>
    obtain ⟨u, ts, -, hticked⟩ := s.kcp.ticked_eq (BitVec.ofInt 32 current)
    unfold flushing at h
    dsimp only at h
    split_ifs at h
    exact ⟨_, u, ts, (Option.some.inj h).symm.trans hticked⟩
  | flush =>
    unfold flushing at h
    split_ifs at h
    exact ⟨_, _, _, (Option.some.inj h).symm⟩

end Endpoint

/-- The runs of an endpoint with any parameters, and whether its window has been asked for since
its last flush. -/
def askedMachine (conv : U32) (sndwnd rcvwnd nodelay interval resend nc : ℤ) :
    Machine (Endpoint × Bool) EndpointCall :=
  (endpointMadeWith conv sndwnd rcvwnd nodelay interval resend nc).recording false
    fun before s c => s.asked before c

/-- **Window probes**: in every state that an endpoint reaches, what a call that flushes does about
the windows; the other calls hand nothing over and leave the timer alone. -/
theorem probes_of_reaches {conv : U32} {sndwnd rcvwnd nodelay interval resend nc : ℤ} {s : Endpoint}
    {asked : Bool} (h : (askedMachine conv sndwnd rcvwnd nodelay interval resend nc).Reaches
      Machine.anyStep (s, asked)) (c : EndpointCall) :
    (∃ kcp, s.flushing c = some kcp ∧ (s.call c).kcp = kcp.flush.1 ∧
        (s.call c).sent = s.sent ++ kcp.flush.2 ∧ kcp.Probes asked) ∨
      s.flushing c = none ∧ (s.call c).sent = s.sent ∧
        (s.call c).kcp.waiting = s.kcp.waiting := by
  obtain ⟨hq, hask, hp⟩ : s.kcp.Queued ∧ s.kcp.Unasked ∧ s.kcp.Paced := by
    refine invariant_madeWith (P := fun kcp => kcp.Queued ∧ kcp.Unasked ∧ kcp.Paced)
      ?_ ?_ ?_ ?_ ?_ ?_ h.recorded
    · rw [madeWith_eq]
      exact ⟨⟨fun seg hseg => absurd hseg List.not_mem_nil,
        fun seg hseg => absurd hseg List.not_mem_nil⟩, (rfl : (0 : U32) &&& askSend = 0),
        Or.inl rfl⟩
    · rintro kcp buffer len ⟨hq, hask, hp⟩
      exact ⟨hq.send buffer len, hask.send buffer len,
        hp.congr (congrArg Prod.fst (kcp.waiting_send buffer len))⟩
    · rintro kcp len ⟨hq, hask, hp⟩
      exact ⟨hq.trims (.of_sendSide (kcp.sendSide_recv len)), hask.recv len,
        hp.congr (congrArg Prod.fst (kcp.waiting_recv len))⟩
    · rintro kcp data ⟨hq, hask, hp⟩
      exact ⟨hq.trims (kcp.trims_input data), hask.input data,
        hp.congr (congrArg Prod.fst (kcp.waiting_input data))⟩
    · rintro kcp current u ts ⟨hq, hask, hp⟩
      exact ⟨⟨hq.short, hq.push⟩, hask, hp⟩
    · rintro kcp hu ⟨hq, hask, hp⟩
      refine ⟨hq.flush hu, ?_, hp.flush⟩
      unfold Ikcpcb.Unasked
      rw [kcp.probe_flush hu]
      rfl
  have htell : s.kcp.probe &&& askTell ≠ 0 ↔ asked = true := by
    refine h.recording_invariant
      (I := fun s asked => s.kcp.probe &&& askTell ≠ 0 ↔ asked = true) ?_ fun s k e t hs hstep => ?_
    · change (madeWith conv sndwnd rcvwnd nodelay interval resend nc).probe &&& askTell ≠ 0 ↔ _
      rw [madeWith_eq]
      exact iff_of_false (by decide : ¬ ((0 : U32) &&& askTell ≠ 0)) Bool.false_ne_true
    · obtain rfl : s.call e = t := Option.some.inj hstep
      exact s.tell_call hs e
  obtain ⟨kcp, hflush, hu, hkcp, hsent⟩ | ⟨hnone, hsent⟩ := s.call_flushing c
  · refine Or.inl ⟨kcp, hflush, hkcp, hsent, ?_⟩
    obtain ⟨hq, hask, hp, htell⟩ : kcp.Queued ∧ kcp.Unasked ∧ kcp.Paced ∧
        (kcp.probe &&& askTell ≠ 0 ↔ asked = true) := by
      obtain ⟨current, u, ts, rfl⟩ := s.flushing_eq hflush
      exact ⟨⟨hq.short, hq.push⟩, hask, hp, htell⟩
    exact Ikcpcb.probes_of_queued hq hask hp hu htell
  · exact Or.inr ⟨hnone, hsent, s.waiting_call hnone⟩

/-- The remote window has been closed for nine seconds, and the remote asks for the window of the
endpoint: the next flush asks for the one and tells the other. -/
theorem probes_of_reaches_due : ∃ s kcp, (askedMachine 1 128 128 0 5000 0 1).Reaches
    Machine.anyStep (s, true) ∧ s.flushing .flush = some kcp ∧ kcp.Probes true ∧
      kcp.handedOver cmdWask = 1 ∧ kcp.handedOver cmdWins = 1 := by
  have h : ((askedMachine 1 128 128 0 5000 0 1).run (fun _ _ => true)
      (askedMachine 1 128 128 0 5000 0 1).init
      [.update 0, .input (encodeSegs [{ soleSegment 1 0 0 0 [] with wnd := 0 }]), .flush,
        .update 5000, .update 9000,
        .input (encodeSegs [{ soleSegment 1 0 0 0 [] with cmd := cmdWask, wnd := 0 }])]).any
      (fun s => s.2 && decide s.1.kcp.ProbeDue && s.1.kcp.updated == 1) = true := by
    decide +kernel
  obtain ⟨⟨s, asked⟩, hrun, hs⟩ := Option.any_eq_true _ _ |>.mp h
  simp only [Bool.and_eq_true, decide_eq_true_eq, beq_iff_eq] at hs
  obtain ⟨⟨rfl, hdue⟩, hu⟩ := hs
  have hreach : (askedMachine 1 128 128 0 5000 0 1).Reaches Machine.anyStep (s, true) :=
    Machine.path_of_run (fun _ _ _ => trivial) _ hrun
  have hflush : s.flushing .flush = some s.kcp := by
    refine if_neg ?_
    rw [hu]
    decide
  obtain ⟨kcp, hkcp, -, -, hprobes⟩ | ⟨hnone, -⟩ := probes_of_reaches hreach .flush
  · obtain rfl : s.kcp = kcp := Option.some.inj (hflush.symm.trans hkcp)
    exact ⟨s, s.kcp, hreach, hflush, hprobes, hprobes.asks.trans (if_pos hdue),
      hprobes.tells.trans (if_pos rfl)⟩
  · exact absurd (hflush.symm.trans hnone) (Option.some_ne_none s.kcp)

end LuaKcp
