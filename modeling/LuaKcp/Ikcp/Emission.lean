import LuaKcp.Ikcp.Transmission

/-!
# What a flush hands over, segment by segment

A flush encodes one acknowledgement for each entry of the ack list, then the window probes that are
asked for, then the segments of `snd_buf` that the resend decision takes (`flush_encodes`). All of
them tell the number expected next and the room left in the receive window.
-/

namespace LuaKcp.Ikcp

open FlushBuf

/-- The loop over the ack list writes an acknowledgement for each entry, and the segment keeps the
last one. -/
theorem wrote_acks (mtu : U32) (acks : List (U32 × U32)) (seg : Ikcpseg) {b : FlushBuf}
    {segs : List Ikcpseg} (hb : b.Wrote segs) :
    (flushAcks mtu acks seg b).2.Wrote
        (segs ++ acks.map fun a => { seg with sn := a.1, ts := a.2 }) ∧
      (flushAcks mtu acks seg b).1 = { seg with
        sn := (acks.getLastD (seg.sn, seg.ts)).1, ts := (acks.getLastD (seg.sn, seg.ts)).2 } := by
  induction acks generalizing seg b segs with
  | nil => exact ⟨by simpa [flushAcks] using hb, rfl⟩
  | cons a acks ih =>
    obtain ⟨sn, ts⟩ := a
    obtain ⟨hwrote, hseg⟩ := ih { seg with sn := sn, ts := ts }
      (hb.put mtu overhead { seg with sn := sn, ts := ts })
    refine ⟨?_, ?_⟩
    · rw [List.append_assoc] at hwrote
      exact hwrote
    · rw [List.getLastD_cons]
      exact hseg

namespace Ikcpcb

variable (kcp : Ikcpcb)

/-- The acknowledgements of a flush. -/
def ackSegs : List Ikcpseg :=
  kcp.acklist.map fun a => { kcp.ackSegment with sn := a.1, ts := a.2 }

/-- A probe of a flush, which keeps the `sn` and `ts` of the last acknowledgement. -/
def probeSeg (sn ts cmd : U32) : Ikcpseg := { kcp.ackSegment with cmd := cmd, sn := sn, ts := ts }

/-- The probes of a flush. -/
def probeSegs (probe sn ts : U32) : List Ikcpseg :=
  (if probe &&& askSend ≠ 0 then [kcp.probeSeg sn ts cmdWask] else []) ++
    if probe &&& askTell ≠ 0 then [kcp.probeSeg sn ts cmdWins] else []

theorem mem_probeSegs {probe sn ts : U32} {seg : Ikcpseg} : seg ∈ kcp.probeSegs probe sn ts ↔
    (probe &&& askSend ≠ 0 ∧ seg = kcp.probeSeg sn ts cmdWask) ∨
      (probe &&& askTell ≠ 0 ∧ seg = kcp.probeSeg sn ts cmdWins) := by
  have hif {p : Prop} [Decidable p] {x : Ikcpseg} :
      seg ∈ (if p then [x] else []) ↔ p ∧ seg = x := by
    split_ifs with h <;> simp [h]
  rw [probeSegs, List.mem_append, hif, hif]

/-- The probes that a flush finds asked for. -/
def asked : U32 := ({ kcp with acklist := [] } : Ikcpcb).probeWindow.probe

theorem mtu_probeWindow : kcp.probeWindow.mtu = kcp.mtu :=
  congrArg SendSide.mtu kcp.sendSide_probeWindow

/-- The `sn` and `ts` of the last acknowledgement, which the probes keep. -/
def lastAck : U32 × U32 := kcp.acklist.getLastD (0, 0)

/-- The segments that a flush encodes before the data segments. -/
def preambleSegs : List Ikcpseg :=
  kcp.ackSegs ++ kcp.probeSegs kcp.asked kcp.lastAck.1 kcp.lastAck.2

/-- The segments that a flush encodes, in order. -/
def flushSegs : List Ikcpseg := kcp.preambleSegs ++ kcp.loaded.sndBuf.filterMap kcp.transmit

theorem preamble_wrote : kcp.preamble.Wrote kcp.preambleSegs := by
  obtain ⟨hacks, hseg⟩ := wrote_acks kcp.mtu kcp.acklist kcp.ackSegment wrote_empty
  rw [List.nil_append] at hacks
  unfold preamble flushProbes preambleSegs probeSegs asked
  dsimp only
  rw [hseg]
  split_ifs
  · rw [← List.append_assoc]
    exact (hacks.put _ _ _).put _ _ _
  · rw [List.nil_append]
    exact hacks.put _ _ _
  · rw [List.append_nil]
    exact hacks.put _ _ _
  · rw [List.append_nil, List.append_nil]
    exact hacks

theorem flushed_wrote : kcp.flushed.2.buf.Wrote kcp.flushSegs :=
  (flushData_wrote kcp.loaded kcp.wndUnused kcp.loaded.resent kcp.loaded.rtomin
    (transmit_eq kcp.clock_loaded) kcp.loaded.sndBuf
    ⟨kcp.preamble, kcp.loaded.xmit, kcp.loaded.state, 0, false⟩ kcp.preamble_wrote).2

/-- **What a flush encodes**: the datagrams are the encodings of these segments, cut into whole
segments. -/
theorem flush_encodes (hu : kcp.updated ≠ 0) : ∃ parts : List (List Ikcpseg),
    kcp.flush.2 = parts.map encodeSegs ∧ parts.flatten = kcp.flushSegs := by
  rw [kcp.flush_eq hu]
  exact kcp.flushed_wrote.output

theorem data_preambleSegs {seg : Ikcpseg} (h : seg ∈ kcp.preambleSegs) : seg.data = [] := by
  rcases List.mem_append.mp h with h | h
  · obtain ⟨a, -, rfl⟩ := List.mem_map.mp h
    rfl
  · obtain ⟨-, rfl⟩ | ⟨-, rfl⟩ := kcp.mem_probeSegs.mp h <;> rfl

/-- **What a flush hands over**, read back from the datagrams. -/
theorem flush_emits (hu : kcp.updated ≠ 0)
    (hshort : ∀ seg ∈ kcp.loaded.sndBuf, seg.data.length < 2 ^ 32) :
    kcp.flush.2.flatMap decodeSegs = kcp.flushSegs.map onWire := by
  rw [kcp.flush_eq hu]
  refine kcp.flushed_wrote.decoded fun seg hseg => ?_
  rcases List.mem_append.mp hseg with hseg | hseg
  · rw [kcp.data_preambleSegs hseg]
    exact Nat.two_pow_pos 32
  · obtain ⟨seg₀, hseg₀, htransmit⟩ := List.mem_filterMap.mp hseg
    rw [data_eq_of_content (kcp.content_transmit htransmit)]
    exact hshort seg₀ hseg₀

/-- `snd_buf` after a flush: the segments that it holds or has taken from the queue, some of them
transmitted. -/
theorem sndBuf_flush (hu : kcp.updated ≠ 0) :
    kcp.flush.1.sndBuf = kcp.loaded.sndBuf.map kcp.afterFlush := by
  obtain ⟨bare, hbare, -⟩ := kcp.wrote_preamble
  obtain ⟨hdata, -⟩ := flushData_wrote kcp.loaded kcp.wndUnused kcp.loaded.resent
    kcp.loaded.rtomin (transmit_eq kcp.clock_loaded) kcp.loaded.sndBuf
    ⟨kcp.preamble, kcp.loaded.xmit, kcp.loaded.state, 0, false⟩ hbare
  have hside : kcp.flush.1.sendSide = { kcp.loaded.sendSide with sndBuf := kcp.flushed.1 } := by
    rw [kcp.flush_eq hu]
    simp only [sendSide_minCwnd, sendSide_onLost, sendSide_onChange]
    rfl
  exact (congrArg SendSide.sndBuf hside).trans hdata

/-- What a segment handed over tells of the receiving side. -/
structure Tells (seg : Ikcpseg) : Prop where
  cmd : IsCmd seg.cmd
  wnd : seg.wnd = kcp.wndUnused
  una : seg.una = kcp.rcvNxt
  ack : seg.cmd = cmdAck → ∃ a ∈ kcp.acklist, seg.sn = a.1

/-- It tells the other end the same. -/
theorem Tells.onWire {seg : Ikcpseg} (h : kcp.Tells seg) (hwnd : kcp.wndUnused.toNat < 65536) :
    kcp.Tells (onWire seg) := by
  refine ⟨?_, ?_, h.una, fun hack => h.ack ?_⟩
  · rw [h.cmd.onWire]
    exact h.cmd
  · have hnat : seg.wnd.toNat % 65536 = kcp.wndUnused.toNat := by
      rw [h.wnd, Nat.mod_eq_of_lt hwnd]
    change BitVec.ofNat 32 (seg.wnd.toNat % 65536) = _
    rw [hnat, BitVec.ofNat_toNat, BitVec.setWidth_eq]
  · rwa [h.cmd.onWire] at hack

theorem tells_of_ackSegs {seg : Ikcpseg} (h : seg ∈ kcp.ackSegs) : kcp.Tells seg := by
  obtain ⟨a, ha, rfl⟩ := List.mem_map.mp h
  exact ⟨Or.inr (Or.inl rfl), rfl, rfl, fun _ => ⟨a, ha, rfl⟩⟩

theorem tells_of_probeSegs {probe sn ts : U32} {seg : Ikcpseg}
    (h : seg ∈ kcp.probeSegs probe sn ts) : kcp.Tells seg := by
  obtain ⟨-, rfl⟩ | ⟨-, rfl⟩ := kcp.mem_probeSegs.mp h
  · exact ⟨Or.inr (Or.inr (Or.inl rfl)), rfl, rfl,
      fun hack => absurd hack (show cmdWask ≠ cmdAck by decide)⟩
  · exact ⟨Or.inr (Or.inr (Or.inr rfl)), rfl, rfl,
      fun hack => absurd hack (show cmdWins ≠ cmdAck by decide)⟩

theorem tells_of_transmit {seg seg' : Ikcpseg} (hcmd : seg.cmd = cmdPush)
    (h : kcp.transmit seg = some seg') : kcp.Tells seg' := by
  have hcmd' := (cmd_eq_of_content (kcp.content_transmit h)).trans hcmd
  obtain ⟨seg₁, -, rfl⟩ := Option.map_eq_some_iff.mp h
  refine ⟨Or.inl hcmd', rfl, rfl, fun hack => ?_⟩
  rw [hcmd'] at hack
  exact absurd hack (by decide)

/-- What is in `snd_buf` stays there when segments are moved. -/
theorem mem_moveToBuf (kcp : Ikcpcb) (wnd cwnd : U32) (que buf : List Ikcpseg) (nxt : U32)
    {seg : Ikcpseg} (h : seg ∈ buf) : seg ∈ (moveToBuf kcp wnd cwnd que buf nxt).2.1 := by
  induction que generalizing buf nxt with
  | nil => exact h
  | cons newseg que ih =>
    unfold moveToBuf
    split_ifs
    · exact ih _ _ (List.mem_append_left _ h)
    · exact h

theorem mem_loaded_of_mem {seg : Ikcpseg} (h : seg ∈ kcp.sndBuf) : seg ∈ kcp.loaded.sndBuf := by
  have hbuf : kcp.probed.sndBuf = kcp.sndBuf := congrArg SendSide.sndBuf kcp.sendSide_probed
  exact mem_moveToBuf _ _ _ _ _ _ (hbuf.symm ▸ h)

variable {kcp} in
/-- The segments that a flush moves are those that the stream goes on with. -/
theorem sends_loaded {S : List (Piece UInt8)} {n : ℕ} (h : Sends kcp.sendSide S n) :
    ∃ n', Sends kcp.loaded.sendSide S n' := by
  have hp : Sends kcp.probed.sendSide S n := kcp.sendSide_probed ▸ h
  obtain ⟨n', -, hle, hnxt, hque, hbuf⟩ := moveToBuf_spec kcp.probed kcp.wndUnused
    kcp.probed.flushCwnd hp.le hp.nxt hp.queue hp.buf
  exact ⟨n', hle, hnxt, hque, hbuf⟩

variable {kcp} in
/-- The segments that a flush goes through. -/
theorem mem_loaded {S : List (Piece UInt8)} {n : ℕ} (h : Sends kcp.sendSide S n)
    (hfits : Fits kcp.mtu S) {seg : Ikcpseg} (hseg : seg ∈ kcp.loaded.sndBuf) :
    seg.cmd = cmdPush ∧ seg.data.length < 2 ^ 32 := by
  obtain ⟨n', h'⟩ := sends_loaded h
  obtain ⟨-, hcmd, i, -, hp⟩ := h'.buf seg hseg
  have hlen := (hfits _ (List.mem_of_getElem? hp.2)).2
  have hmtu := kcp.mtu.isLt
  change overhead + seg.data.length ≤ kcp.mtu.toNat at hlen
  exact ⟨hcmd, by omega⟩

variable {kcp} in
/-- **All that a flush hands over** tells of the receiving side. -/
theorem tells_of_flush {S : List (Piece UInt8)} {n : ℕ} (h : Sends kcp.sendSide S n)
    (hfits : Fits kcp.mtu S) (hwnd : kcp.wndUnused.toNat < 65536) {d : Bytes}
    (hd : d ∈ kcp.flush.2) {seg : Ikcpseg} (hseg : seg ∈ decodeSegs d) : kcp.Tells seg := by
  have hu : kcp.updated ≠ 0 := by
    intro hu
    unfold flush at hd
    rw [if_pos hu] at hd
    exact absurd hd List.not_mem_nil
  have hemits := kcp.flush_emits hu fun seg hseg => (mem_loaded h hfits hseg).2
  have hmem : seg ∈ kcp.flush.2.flatMap decodeSegs := List.mem_flatMap.mpr ⟨d, hd, hseg⟩
  rw [hemits] at hmem
  obtain ⟨seg₀, hseg₀, rfl⟩ := List.mem_map.mp hmem
  refine Tells.onWire kcp ?_ hwnd
  rcases List.mem_append.mp hseg₀ with hseg₀ | hseg₀
  · rcases List.mem_append.mp hseg₀ with hseg₀ | hseg₀
    · exact kcp.tells_of_ackSegs hseg₀
    · exact kcp.tells_of_probeSegs hseg₀
  · obtain ⟨seg₁, hseg₁, htransmit⟩ := List.mem_filterMap.mp hseg₀
    exact kcp.tells_of_transmit (mem_loaded h hfits hseg₁).1 htransmit

variable {kcp} in
/-- **A segment that is due** is handed over. -/
theorem mem_flush_of_transmit (hu : kcp.updated ≠ 0) {S : List (Piece UInt8)} {n : ℕ}
    (h : Sends kcp.sendSide S n) (hfits : Fits kcp.mtu S) {seg : Ikcpseg} (hseg : seg ∈ kcp.sndBuf)
    (hdue : (kcp.transmit seg).isSome) :
    ∃ d ∈ kcp.flush.2, ∃ seg' ∈ decodeSegs d, seg'.cmd = cmdPush ∧ seg'.sn = seg.sn := by
  have hemits := kcp.flush_emits hu fun seg hseg => (mem_loaded h hfits hseg).2
  obtain ⟨seg', htransmit⟩ := Option.isSome_iff_exists.mp hdue
  have hloaded := kcp.mem_loaded_of_mem hseg
  have hout : onWire seg' ∈ kcp.flush.2.flatMap decodeSegs := by
    rw [hemits]
    exact List.mem_map_of_mem
      (List.mem_append_right _ (List.mem_filterMap.mpr ⟨seg, hloaded, htransmit⟩))
  have hcontent := kcp.content_transmit htransmit
  have hcmd : seg'.cmd = cmdPush :=
    (cmd_eq_of_content hcontent).trans (mem_loaded h hfits hloaded).1
  obtain ⟨d, hd, hmem⟩ := List.mem_flatMap.mp hout
  exact ⟨d, hd, onWire seg', hmem, (IsCmd.onWire (Or.inl hcmd)).trans hcmd,
    (sn_eq_of_content hcontent : seg'.sn = seg.sn)⟩

variable {kcp} in
/-- **What is owed an acknowledgement** is answered. -/
theorem mem_flush_of_acklist (hu : kcp.updated ≠ 0) {S : List (Piece UInt8)} {n : ℕ}
    (h : Sends kcp.sendSide S n) (hfits : Fits kcp.mtu S) (hne : kcp.acklist ≠ []) :
    ∃ d ∈ kcp.flush.2, ∃ seg ∈ decodeSegs d, seg.una = kcp.rcvNxt := by
  have hemits := kcp.flush_emits hu fun seg hseg => (mem_loaded h hfits hseg).2
  obtain ⟨a, ha⟩ := List.exists_mem_of_ne_nil _ hne
  have hout : onWire { kcp.ackSegment with sn := a.1, ts := a.2 } ∈
      kcp.flush.2.flatMap decodeSegs := by
    rw [hemits]
    exact List.mem_map_of_mem
      (List.mem_append_left _ (List.mem_append_left _ (List.mem_map_of_mem ha)))
  obtain ⟨d, hd, hmem⟩ := List.mem_flatMap.mp hout
  exact ⟨d, hd, _, hmem, rfl⟩

/-! ## The ack list -/

theorem acklist_parseData (seg : Ikcpseg) :
    (kcp.parseData seg).acklist = kcp.acklist := by
  unfold parseData
  split_ifs
  · rfl
  · dsimp only
    cases insertLoop seg kcp.rcvBuf.reverse <;> rfl

theorem acklist_inputAck (seg : Ikcpseg) :
    (kcp.inputAck seg).acklist = kcp.acklist := by
  unfold inputAck updateAck parseAck
  dsimp only
  split_ifs <;> rfl

/-- A data segment below the end of the window is put on the ack list. -/
theorem acklist_inputPush (seg : Ikcpseg) : (kcp.inputPush seg).acklist =
    if itimediff seg.sn (kcp.rcvNxt + kcp.rcvWnd) < 0 then kcp.acklist ++ [(seg.sn, seg.ts)]
    else kcp.acklist := by
  unfold inputPush
  dsimp only
  split_ifs
  · rw [acklist_parseData]
    rfl
  · rfl
  · rfl

/-- No other segment changes the ack list. -/
theorem acklist_inputSegment (seg : Ikcpseg) : (kcp.inputSegment seg).acklist =
    if seg.cmd = cmdPush ∧ itimediff seg.sn (kcp.rcvNxt + kcp.rcvWnd) < 0 then
      kcp.acklist ++ [(seg.sn, seg.ts)]
    else kcp.acklist := by
  have hne : cmdAck ≠ cmdPush := by decide
  set kcp₁ := (({ kcp with rmtWnd := seg.wnd } : Ikcpcb).parseUna seg.una).shrinkBuf with hkcp₁
  have hside : kcp₁.acklist = kcp.acklist ∧ kcp₁.rcvNxt = kcp.rcvNxt ∧
      kcp₁.rcvWnd = kcp.rcvWnd := ⟨rfl, rfl, rfl⟩
  unfold inputSegment
  dsimp only
  rw [← hkcp₁]
  by_cases h₁ : seg.cmd = cmdAck
  · rw [if_pos h₁, if_neg fun h => hne (h₁.symm.trans h.1), acklist_inputAck, hside.1]
  by_cases h₂ : seg.cmd = cmdPush
  · rw [if_neg h₁, if_pos h₂, acklist_inputPush, hside.1, hside.2.1, hside.2.2]
    simp only [h₂, true_and]
  · have hnot : ¬ (seg.cmd = cmdPush ∧ itimediff seg.sn (kcp.rcvNxt + kcp.rcvWnd) < 0) :=
      fun h => h₂ h.1
    rw [if_neg h₁, if_neg h₂, if_neg hnot]
    split_ifs
    · exact hside.1
    · exact hside.1

theorem acklist_growCwnd (una : U32) : (kcp.growCwnd una).acklist = kcp.acklist := by
  unfold growCwnd stepCwnd
  dsimp only
  split_ifs <;> rfl

/-- Nothing is taken off the ack list by a datagram. -/
theorem length_acklist_inputLoop (data : Bytes) :
    kcp.acklist.length ≤ (kcp.inputLoop data).2.acklist.length := by
  have hstep (kcp : Ikcpcb) (seg : Ikcpseg) :
      kcp.acklist.length ≤ (kcp.inputSegment seg).acklist.length := by
    rw [acklist_inputSegment]
    split_ifs
    · rw [List.length_append]
      exact Nat.le_add_right _ _
    · exact le_rfl
  fun_induction inputLoop kcp data with
  | case1 => exact le_rfl
  | case2 => exact le_rfl
  | case3 => exact le_rfl
  | case4 => exact le_rfl
  | case5 kcp data hshort hd len hconv hlen hcmd ih => exact (hstep kcp _).trans ih

/-- A flush answers everything in the ack list. -/
theorem acklist_flush (hu : kcp.updated ≠ 0) : kcp.flush.1.acklist = [] := by
  have hend (kcp : Ikcpcb) (resent cwnd : U32) (change : ℕ) (lost : Bool) :
      ((kcp.onChange resent change).onLost cwnd lost).minCwnd.acklist = kcp.acklist := by
    unfold minCwnd onLost onChange
    split_ifs <;> rfl
  have hprobe (kcp : Ikcpcb) : kcp.probeWindow.acklist = kcp.acklist := by
    unfold probeWindow
    split_ifs <;> rfl
  rw [kcp.flush_eq hu, hend]
  exact hprobe { kcp with acklist := [] }

end Ikcpcb

end LuaKcp.Ikcp
