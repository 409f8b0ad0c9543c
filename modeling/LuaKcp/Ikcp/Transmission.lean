import LuaKcp.Ikcp.Pending

/-!
# What a flush transmits

The datagrams that `ikcp_flush` hands over are encoded segments: acknowledgements, probes and the
segments of `snd_buf` that the resend decision takes (`flush_spec`). The segments of `snd_buf` have
different sequence numbers (`Ikcpcb.Window`), so a number in the datagrams tells which segment has
been transmitted.
-/

namespace LuaKcp.Ikcp

/-! ## The segments in a datagram -/

/-- The segments encoded in a datagram, read header by header. -/
def decodeSegs (data : Bytes) : List Ikcpseg :=
  if data.length < overhead then []
  else
    let hd := decodeHeader data
    let len := hd.2.1.toNat
    { hd.1 with data := hd.2.2.take len } :: decodeSegs (hd.2.2.drop len)
termination_by data.length
decreasing_by
  simp only [decodeHeader, decode32u, decode16u, decode8u, List.length_drop, overhead] at *
  omega

/-- The sequence numbers of the data segments in some datagrams. -/
def pushedSns (out : List Bytes) : List U32 :=
  ((out.flatMap decodeSegs).filter fun seg => seg.cmd = cmdPush).map Ikcpseg.sn

theorem decodeSegs_encodeSegs {segs : List Ikcpseg} (h : ∀ seg ∈ segs, seg.data.length < 2 ^ 32) :
    decodeSegs (encodeSegs segs) = segs.map onWire := by
  induction segs with
  | nil =>
    rw [decodeSegs, if_pos (by simp [overhead])]
    rfl
  | cons seg segs ih =>
    have hlen : (BitVec.ofNat 32 seg.data.length).toNat = seg.data.length := by
      simpa using Nat.mod_eq_of_lt (h seg List.mem_cons_self)
    rw [encodeSegs_cons, decodeSegs]
    simp only [decodeHeader_encodeSeg, hlen, List.length_append, length_encodeSeg,
      List.take_left, List.drop_left]
    rw [if_neg (by omega), ih fun seg' hseg' => h seg' (List.mem_cons_of_mem seg hseg')]
    rfl

/-! ## The segments written by a flush -/

namespace FlushBuf

/-- The buffer and the datagrams handed over are the encodings of some segments, in order. -/
def Wrote (b : FlushBuf) (segs : List Ikcpseg) : Prop :=
  ∃ (parts : List (List Ikcpseg)) (last : List Ikcpseg), b.out = parts.map encodeSegs ∧
    b.buf = encodeSegs last ∧ parts.flatten ++ last = segs

variable {b : FlushBuf} {segs : List Ikcpseg}

theorem wrote_empty : (⟨[], []⟩ : FlushBuf).Wrote [] := ⟨[], [], rfl, rfl, rfl⟩

theorem encodeSegs_eq_nil {last : List Ikcpseg} (h : encodeSegs last = []) : last = [] := by
  cases last with
  | nil => rfl
  | cons seg segs =>
    have := congrArg List.length h
    rw [encodeSegs_cons, List.length_append, length_encodeSeg, overhead, List.length_nil] at this
    omega

theorem Wrote.output (h : b.Wrote segs) :
    ∃ parts : List (List Ikcpseg), b.output = parts.map encodeSegs ∧ parts.flatten = segs := by
  obtain ⟨parts, last, hout, hbuf, rfl⟩ := h
  unfold FlushBuf.output
  split_ifs with hempty
  · obtain rfl := encodeSegs_eq_nil (hbuf.symm.trans hempty)
    exact ⟨parts, hout, (List.append_nil _).symm⟩
  · refine ⟨parts ++ [last], ?_, ?_⟩
    · rw [hout, hbuf, List.map_append, List.map_singleton]
    · rw [List.flatten_append, List.flatten_singleton]

theorem Wrote.put (h : b.Wrote segs) (mtu : U32) (need : ℕ) (seg : Ikcpseg) :
    (b.put mtu need (encodeSeg seg)).Wrote (segs ++ [seg]) := by
  unfold FlushBuf.put
  split_ifs
  · obtain ⟨parts, hout, hparts⟩ := h.output
    exact ⟨parts, [seg], hout, by simp, by rw [hparts]⟩
  · obtain ⟨parts, last, hout, hbuf, rfl⟩ := h
    refine ⟨parts, last ++ [seg], hout, ?_, (List.append_assoc _ _ _).symm⟩
    rw [encodeSegs_append, encodeSegs_cons, encodeSegs_nil, List.append_nil, ← hbuf]

/-- The segments written, read back from the datagrams. -/
theorem Wrote.decoded (h : b.Wrote segs) (hlen : ∀ seg ∈ segs, seg.data.length < 2 ^ 32) :
    b.output.flatMap decodeSegs = segs.map onWire := by
  obtain ⟨parts, hout, rfl⟩ := h.output
  rw [hout]
  clear h hout
  induction parts with
  | nil => rfl
  | cons part parts ih =>
    rw [List.flatten_cons] at hlen ⊢
    rw [List.map_cons, List.flatMap_cons, List.map_append,
      decodeSegs_encodeSegs fun seg hseg => hlen seg (List.mem_append_left _ hseg),
      ih fun seg hseg => hlen seg (List.mem_append_right part hseg)]

end FlushBuf

/-- The acknowledgements and probes that precede the data segments carry no data. -/
def Bare (seg : Ikcpseg) : Prop :=
  (seg.cmd = cmdAck ∨ seg.cmd = cmdWask ∨ seg.cmd = cmdWins) ∧ seg.data = []

theorem wrote_flushAcks (mtu : U32) (acks : List (U32 × U32)) (seg : Ikcpseg) {b : FlushBuf}
    {segs : List Ikcpseg} (hb : b.Wrote segs) (hsegs : ∀ seg ∈ segs, Bare seg) (hseg : Bare seg) :
    Bare (flushAcks mtu acks seg b).1 ∧
      ∃ segs', (flushAcks mtu acks seg b).2.Wrote segs' ∧ ∀ seg ∈ segs', Bare seg := by
  induction acks generalizing seg b segs with
  | nil => exact ⟨hseg, segs, hb, hsegs⟩
  | cons a acks ih =>
    refine ih _ (hb.put mtu overhead _) (fun seg' hseg' => ?_) hseg
    rcases List.mem_append.mp hseg' with h | h
    · exact hsegs seg' h
    · rw [List.mem_singleton.mp h]
      exact hseg

theorem wrote_flushProbes (kcp : Ikcpcb) {seg : Ikcpseg} {b : FlushBuf} {segs : List Ikcpseg}
    (hb : b.Wrote segs) (hsegs : ∀ seg ∈ segs, Bare seg) (hseg : Bare seg) :
    ∃ segs', (kcp.flushProbes seg b).Wrote segs' ∧ ∀ seg ∈ segs', Bare seg := by
  have hput {b : FlushBuf} {segs : List Ikcpseg} (hb : b.Wrote segs)
      (hsegs : ∀ seg ∈ segs, Bare seg) {cmd : U32} (hcmd : cmd = cmdWask ∨ cmd = cmdWins) :
      (b.put kcp.mtu overhead (encodeSeg { seg with cmd := cmd })).Wrote
          (segs ++ [{ seg with cmd := cmd }]) ∧
        ∀ seg' ∈ segs ++ [{ seg with cmd := cmd }], Bare seg' := by
    refine ⟨hb.put _ _ _, fun seg' hseg' => ?_⟩
    rcases List.mem_append.mp hseg' with h | h
    · exact hsegs seg' h
    · rw [List.mem_singleton.mp h]
      exact ⟨Or.inr hcmd, hseg.2⟩
  unfold Ikcpcb.flushProbes
  dsimp only
  split_ifs
  · obtain ⟨h₁, h₂⟩ := hput hb hsegs (Or.inl rfl)
    obtain ⟨h₃, h₄⟩ := hput h₁ h₂ (Or.inr rfl)
    exact ⟨_, h₃, h₄⟩
  · obtain ⟨h₁, h₂⟩ := hput hb hsegs (Or.inr rfl)
    exact ⟨_, h₁, h₂⟩
  · obtain ⟨h₁, h₂⟩ := hput hb hsegs (Or.inl rfl)
    exact ⟨_, h₁, h₂⟩
  · exact ⟨segs, hb, hsegs⟩

/-! ## The data segments -/

namespace Ikcpcb

variable (kcp : Ikcpcb)

/-- `resent` of `ikcp_flush`: how often a segment is overtaken before it is sent again. -/
def resent : U32 := if 0 < kcp.fastresend.toInt then kcp.fastresend else 0xffffffff

/-- `rtomin` of `ikcp_flush`. -/
def rtomin : U32 := if kcp.nodelay = 0 then kcp.rxRto.sshiftRight 3 else 0

/-- The segment as a flush transmits it, when it does. -/
def transmit (seg : Ikcpseg) : Option Ikcpseg :=
  (resendSegment kcp kcp.resent kcp.rtomin seg).map fun seg =>
    { seg with ts := kcp.current, wnd := kcp.wndUnused, una := kcp.rcvNxt }

theorem content_transmit {seg seg' : Ikcpseg} (h : kcp.transmit seg = some seg') :
    content seg' = content seg := by
  obtain ⟨seg₁, h₁, rfl⟩ := Option.map_eq_some_iff.mp h
  exact (content_resendSegment h₁ : content seg₁ = content seg)

/-- A segment that has not been transmitted yet is. -/
theorem isSome_transmit_of_fresh {seg : Ikcpseg} (h : seg.xmit = 0) :
    (kcp.transmit seg).isSome := by
  unfold transmit resendSegment
  rw [if_pos h]
  rfl

/-- **The resend decision**. -/
theorem isSome_transmit_iff (seg : Ikcpseg) : (kcp.transmit seg).isSome ↔
    0 ≤ itimediff kcp.current seg.resendts ∨ seg.xmit = 0 ∨ kcp.resent ≤ seg.fastack := by
  unfold transmit
  rw [Option.isSome_map]
  unfold resendSegment
  by_cases h₁ : seg.xmit = 0
  · rw [if_pos h₁]
    exact iff_of_true rfl (Or.inr (Or.inl h₁))
  rw [if_neg h₁]
  by_cases h₂ : itimediff kcp.current seg.resendts ≥ 0
  · rw [if_pos h₂]
    exact iff_of_true rfl (Or.inl h₂)
  rw [if_neg h₂]
  by_cases h₃ : seg.fastack ≥ kcp.resent
  · rw [if_pos h₃]
    exact iff_of_true rfl (Or.inr (Or.inr h₃))
  rw [if_neg h₃]
  refine iff_of_false Bool.false_ne_true ?_
  rintro (h | h | h)
  exacts [h₂ h, h₁ h, h₃ h]

/-- The segment as it stands in `snd_buf` after a flush. -/
def afterFlush (seg : Ikcpseg) : Ikcpseg := (kcp.transmit seg).getD seg

theorem content_afterFlush (seg : Ikcpseg) : content (kcp.afterFlush seg) = content seg := by
  unfold afterFlush
  cases h : kcp.transmit seg with
  | none => rfl
  | some seg' => exact kcp.content_transmit h

end Ikcpcb

theorem sn_eq_of_content {seg seg' : Ikcpseg} (h : content seg' = content seg) :
    seg'.sn = seg.sn := by
  change (content seg').sn = (content seg).sn
  rw [h]

theorem cmd_eq_of_content {seg seg' : Ikcpseg} (h : content seg' = content seg) :
    seg'.cmd = seg.cmd := by
  change (content seg').cmd = (content seg).cmd
  rw [h]

theorem data_eq_of_content {seg seg' : Ikcpseg} (h : content seg' = content seg) :
    seg'.data = seg.data := by
  change (content seg').data = (content seg).data
  rw [h]

/-- The loop over `snd_buf` writes the segments that it transmits. -/
theorem flushData_wrote (kcp : Ikcpcb) (wnd resent rtomin : U32) {f : Ikcpseg → Option Ikcpseg}
    (hf : ∀ seg, f seg = (resendSegment kcp resent rtomin seg).map fun seg =>
      { seg with ts := kcp.current, wnd := wnd, una := kcp.rcvNxt })
    (segs : List Ikcpseg) (acc : FlushAcc) {written : List Ikcpseg} (h : acc.buf.Wrote written) :
    (flushData kcp wnd resent rtomin segs acc).1 = segs.map (fun seg => (f seg).getD seg) ∧
      (flushData kcp wnd resent rtomin segs acc).2.buf.Wrote (written ++ segs.filterMap f) := by
  induction segs generalizing acc written with
  | nil => exact ⟨rfl, by rwa [List.filterMap_nil, List.append_nil]⟩
  | cons seg segs ih =>
    have hseg : (flushSegment kcp wnd resent rtomin seg acc).1 = (f seg).getD seg ∧
        (flushSegment kcp wnd resent rtomin seg acc).2.buf.Wrote (written ++ (f seg).toList) := by
      unfold flushSegment
      rw [hf seg]
      cases resendSegment kcp resent rtomin seg with
      | none => exact ⟨rfl, by simpa using h⟩
      | some seg' => exact ⟨rfl, h.put _ _ _⟩
    obtain ⟨h₁, h₂⟩ := hseg
    obtain ⟨h₃, h₄⟩ := ih _ h₂
    refine ⟨by simp only [flushData, List.map_cons, h₁, h₃], ?_⟩
    have happend : written ++ (seg :: segs).filterMap f =
        written ++ (f seg).toList ++ segs.filterMap f := by
      rw [List.append_assoc]
      congr 1
      cases hfs : f seg with
      | none => rw [List.filterMap_cons_none hfs, Option.toList_none, List.nil_append]
      | some seg' =>
        rw [List.filterMap_cons_some hfs, Option.toList_some, List.singleton_append]
    rw [happend]
    exact h₄

/-- What a flush does to `snd_buf`, and which data segments it hands over: `moved` are the segments
taken from `snd_queue`. -/
structure Transmits (kcp kcp' : Ikcpcb) (out : List Bytes) (moved : List Ikcpseg) : Prop where
  fresh : ∀ seg ∈ moved, seg.xmit = 0 ∧ seg.cmd = cmdPush ∧ ∃ q ∈ kcp.sndQueue, seg.data = q.data
  queue : ∀ q ∈ kcp'.sndQueue, q ∈ kcp.sndQueue
  buf : kcp'.sndBuf = (kcp.sndBuf ++ moved).map kcp.afterFlush
  sns : pushedSns out = ((kcp.sndBuf ++ moved).filterMap kcp.transmit).map Ikcpseg.sn
  window : ∃ u n is, kcp'.Window u n is

namespace Transmits

variable {kcp kcp' : Ikcpcb} {out : List Bytes} {moved : List Ikcpseg}

theorem nodup (h : Transmits kcp kcp' out moved) :
    ((kcp.sndBuf ++ moved).map Ikcpseg.sn).Nodup := by
  obtain ⟨u, n, is, hwin⟩ := h.window
  have hnodup := hwin.nodup
  rw [h.buf, List.map_map] at hnodup
  convert hnodup using 1
  exact List.map_congr_left fun seg _ => (sn_eq_of_content (kcp.content_afterFlush seg)).symm

/-- **The number of a segment** is in the datagrams handed over exactly when it is transmitted. -/
theorem mem_pushedSns_iff (h : Transmits kcp kcp' out moved) {seg : Ikcpseg}
    (hseg : seg ∈ kcp.sndBuf ++ moved) : seg.sn ∈ pushedSns out ↔ (kcp.transmit seg).isSome := by
  rw [h.sns]
  constructor
  · intro hmem
    obtain ⟨seg', hmem', hsn⟩ := List.mem_map.mp hmem
    obtain ⟨seg₁, hseg₁, htransmit⟩ := List.mem_filterMap.mp hmem'
    have hsn₁ := sn_eq_of_content (kcp.content_transmit htransmit)
    obtain rfl : seg₁ = seg := List.inj_on_of_nodup_map h.nodup hseg₁ hseg (hsn₁.symm.trans hsn)
    rw [htransmit]
    rfl
  · intro hsome
    obtain ⟨seg', htransmit⟩ := Option.isSome_iff_exists.mp hsome
    refine List.mem_map.mpr ⟨seg', List.mem_filterMap.mpr ⟨seg, hseg, htransmit⟩, ?_⟩
    exact sn_eq_of_content (kcp.content_transmit htransmit)

end Transmits

/-- The sequence numbers in the datagrams of a flush. -/
theorem pushedSns_output {b : FlushBuf} {bare sent : List Ikcpseg} (hb : b.Wrote (bare ++ sent))
    (hbare : ∀ seg ∈ bare, Bare seg)
    (hsent : ∀ seg ∈ sent, seg.cmd = cmdPush ∧ seg.data.length < 2 ^ 32) :
    pushedSns b.output = sent.map Ikcpseg.sn := by
  have hshort : ∀ seg ∈ bare ++ sent, seg.data.length < 2 ^ 32 := by
    intro seg hseg
    rcases List.mem_append.mp hseg with hseg | hseg
    · rw [(hbare seg hseg).2]
      exact Nat.two_pow_pos 32
    · exact (hsent seg hseg).2
  have hnone : (bare.map onWire).filter (fun seg => seg.cmd = cmdPush) = [] := by
    refine List.filter_eq_nil_iff.mpr fun seg hseg => ?_
    obtain ⟨seg, hmem, rfl⟩ := List.mem_map.mp hseg
    have hcmd := (hbare seg hmem).1
    rw [IsCmd.onWire (Or.inr hcmd), decide_eq_true_iff]
    rcases hcmd with h | h | h <;> rw [h] <;> decide
  have hall : (sent.map onWire).filter (fun seg => seg.cmd = cmdPush) = sent.map onWire := by
    refine List.filter_eq_self.mpr fun seg hseg => ?_
    obtain ⟨seg, hmem, rfl⟩ := List.mem_map.mp hseg
    have hcmd := (hsent seg hmem).1
    rw [IsCmd.onWire (Or.inl hcmd), decide_eq_true_iff]
    exact hcmd
  unfold pushedSns
  rw [hb.decoded hshort, List.map_append, List.filter_append, hnone, hall, List.nil_append,
    List.map_map]
  rfl

namespace Ikcpcb

variable (kcp : Ikcpcb)

/-- What the resend decision reads of the control block, and what is filled in. -/
def clock : U32 × U32 × U32 × U32 × U32 :=
  (kcp.current, kcp.rxRto, kcp.nodelay, kcp.fastresend, kcp.rcvNxt)

theorem clock_probeWindow : kcp.probeWindow.clock = kcp.clock := by
  unfold probeWindow
  split_ifs <;> rfl

variable {kcp} in
theorem transmit_eq {kcp' : Ikcpcb} (h : kcp'.clock = kcp.clock) (seg : Ikcpseg) :
    kcp.transmit seg = (resendSegment kcp' kcp'.resent kcp'.rtomin seg).map fun seg =>
      { seg with ts := kcp'.current, wnd := kcp.wndUnused, una := kcp'.rcvNxt } := by
  simp only [clock, Prod.mk.injEq] at h
  obtain ⟨hcurrent, hrto, hnodelay, hfast, hrcv⟩ := h
  unfold transmit resendSegment resent rtomin
  rw [hcurrent, hrto, hnodelay, hfast, hrcv]

/-- The control block when a flush has sent acknowledgements and probes. -/
def probed : Ikcpcb := { ({ kcp with acklist := [] }).probeWindow with probe := 0 }

/-- The buffer of a flush when it has sent acknowledgements and probes. -/
def preamble : FlushBuf :=
  let acks := flushAcks kcp.mtu kcp.acklist kcp.ackSegment ⟨[], []⟩
  ({ kcp with acklist := [] }).probeWindow.flushProbes acks.1 acks.2

/-- The control block when a flush has moved segments to `snd_buf`. -/
def loaded : Ikcpcb :=
  let m := moveToBuf kcp.probed kcp.wndUnused kcp.probed.flushCwnd kcp.probed.sndQueue
    kcp.probed.sndBuf kcp.probed.sndNxt
  { kcp.probed with sndQueue := m.1, sndBuf := m.2.1, sndNxt := m.2.2 }

/-- The loop of a flush over `snd_buf`. -/
def flushed : List Ikcpseg × FlushAcc :=
  flushData kcp.loaded kcp.wndUnused kcp.loaded.resent kcp.loaded.rtomin kcp.loaded.sndBuf
    { buf := kcp.preamble, xmit := kcp.loaded.xmit, state := kcp.loaded.state, change := 0,
      lost := false }

theorem sendSide_probed : kcp.probed.sendSide = kcp.sendSide :=
  sendSide_probeWindow { kcp with acklist := [] }

theorem pace_probed : kcp.probed.pace = kcp.pace := pace_probeWindow { kcp with acklist := [] }

theorem clock_loaded : kcp.loaded.clock = kcp.clock := clock_probeWindow { kcp with acklist := [] }

/-- A flush in its parts. -/
theorem flush_eq (hu : kcp.updated ≠ 0) : kcp.flush =
    (((({ kcp.loaded with
      sndBuf := kcp.flushed.1, xmit := kcp.flushed.2.xmit, state := kcp.flushed.2.state } :
        Ikcpcb).onChange kcp.loaded.resent kcp.flushed.2.change).onLost kcp.probed.flushCwnd
          kcp.flushed.2.lost).minCwnd, kcp.flushed.2.buf.output) := by
  unfold flush
  rw [if_neg hu]
  rfl

theorem wrote_preamble : ∃ bare, kcp.preamble.Wrote bare ∧ ∀ seg ∈ bare, Bare seg := by
  obtain ⟨hseg, acks, hacks, hacks'⟩ := wrote_flushAcks kcp.mtu kcp.acklist
    kcp.ackSegment FlushBuf.wrote_empty (fun seg hseg => absurd hseg List.not_mem_nil)
    ⟨Or.inl rfl, rfl⟩
  exact wrote_flushProbes _ hacks hacks' hseg

/-- **What a flush transmits**. -/
theorem flush_spec (hu : kcp.updated ≠ 0) {u n : ℕ} {is : List ℕ} (h : kcp.Window u n is)
    (hshort : ∀ seg ∈ kcp.sndQueue ++ kcp.sndBuf, seg.data.length < 2 ^ 32)
    (hpush : ∀ seg ∈ kcp.sndBuf, seg.cmd = cmdPush) :
    ∃ moved, Transmits kcp kcp.flush.1 kcp.flush.2 moved := by
  have hwin : kcp.probed.Window u n is := h.of_sides kcp.pace_probed kcp.sendSide_probed
  have hquekcp : kcp.probed.sndQueue = kcp.sndQueue :=
    congrArg SendSide.sndQueue kcp.sendSide_probed
  have hbufkcp : kcp.probed.sndBuf = kcp.sndBuf := congrArg SendSide.sndBuf kcp.sendSide_probed
  -- the segments moved
  obtain ⟨moved, n', is', hbuf, hmoved, hque, hwin'⟩ := kcp.probed.moveToBuf_window kcp.wndUnused
    (kcp.probed.flushCwnd_le.trans hwin.rmtWnd) kcp.probed.sndQueue kcp.probed.sndBuf
    kcp.probed.sndNxt hwin
  rw [hquekcp] at hmoved
  have hloaded : kcp.loaded.sndBuf = kcp.sndBuf ++ moved := hbuf.trans (by rw [hbufkcp])
  -- the loop over `snd_buf`
  obtain ⟨bare, hbare, hbare'⟩ := kcp.wrote_preamble
  obtain ⟨hdata, hwrote⟩ := flushData_wrote kcp.loaded kcp.wndUnused kcp.loaded.resent
    kcp.loaded.rtomin (transmit_eq kcp.clock_loaded) kcp.loaded.sndBuf
    ⟨kcp.preamble, kcp.loaded.xmit, kcp.loaded.state, 0, false⟩ hbare
  rw [hloaded] at hdata hwrote
  have hdata : kcp.flushed.1 = (kcp.sndBuf ++ moved).map kcp.afterFlush := by
    unfold flushed
    rw [hloaded]
    exact hdata
  have hsent : ∀ seg ∈ (kcp.sndBuf ++ moved).filterMap kcp.transmit,
      seg.cmd = cmdPush ∧ seg.data.length < 2 ^ 32 := by
    intro seg' hseg'
    obtain ⟨seg, hseg, htransmit⟩ := List.mem_filterMap.mp hseg'
    have hcontent := kcp.content_transmit htransmit
    rw [cmd_eq_of_content hcontent, data_eq_of_content hcontent]
    rcases List.mem_append.mp hseg with hseg | hseg
    · exact ⟨hpush seg hseg, hshort seg (List.mem_append_right _ hseg)⟩
    · obtain ⟨-, hcmd, q, hq, hd⟩ := hmoved seg hseg
      rw [hd]
      exact ⟨hcmd, hshort q (List.mem_append_left _ hq)⟩
  have hsns : pushedSns kcp.flush.2 =
      ((kcp.sndBuf ++ moved).filterMap kcp.transmit).map Ikcpseg.sn := by
    rw [kcp.flush_eq hu]
    refine pushedSns_output ?_ hbare' hsent
    unfold flushed
    rw [hloaded]
    exact hwrote
  -- the end of the flush changes the congestion window only
  have hside : kcp.flush.1.sendSide = { kcp.loaded.sendSide with sndBuf := kcp.flushed.1 } := by
    rw [kcp.flush_eq hu]
    simp only [sendSide_minCwnd, sendSide_onLost, sendSide_onChange]
    rfl
  have hpace : kcp.flush.1.pace = kcp.loaded.pace := by
    rw [kcp.flush_eq hu]
    simp only [pace_minCwnd, pace_onLost, pace_onChange]
    rfl
  have hbuf' : kcp.flush.1.sndBuf = (kcp.sndBuf ++ moved).map kcp.afterFlush :=
    (congrArg SendSide.sndBuf hside).trans hdata
  refine ⟨moved, hmoved, fun q hq => ?_, hbuf', hsns, u, n', is', ?_⟩
  · have hq : q ∈ kcp.loaded.sndQueue := by
      rwa [← show kcp.flush.1.sndQueue = kcp.loaded.sndQueue from congrArg SendSide.sndQueue hside]
    rw [← hquekcp]
    exact hque q hq
  · have hloadwin : kcp.loaded.Window u n' is' := hwin'.congr rfl rfl rfl
    refine hloadwin.congr hpace (congrArg SendSide.sndNxt hside) ?_
    rw [hbuf', hloaded, List.map_map]
    exact List.map_congr_left fun seg _ => sn_eq_of_content (kcp.content_afterFlush seg)

end Ikcpcb

end LuaKcp.Ikcp
