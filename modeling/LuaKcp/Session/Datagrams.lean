import LuaKcp.Ikcp.Emission
import LuaKcp.Session.Duplex

/-!
# The datagrams of an endpoint

What a flush hands over goes through three formats: the segments are encoded into a buffer, the
buffer is packed with the connection id, and the other end unpacks it and decodes the segments.
Whatever calls have been made on an endpoint, the next call cuts its acknowledgements, probes and
data segments, in this order, into buffers of whole segments; each buffer fits a datagram and is
recovered from the package, and the other end decodes from it the segments that were encoded, in
order and with all their fields (`datagrams_agree`).
-/

namespace LuaKcp

open Ikcp

/-! ## No empty buffer -/

namespace Ikcp.FlushBuf

/-- No datagram handed over is empty. -/
def Full (b : FlushBuf) : Prop := ∀ d ∈ b.out, d ≠ []

variable {b : FlushBuf}

theorem Full.output (h : b.Full) : ∀ d ∈ b.output, d ≠ [] := by
  intro d hd
  unfold FlushBuf.output at hd
  split_ifs at hd with hempty
  · exact h d hd
  · rcases List.mem_append.mp hd with hd | hd
    · exact h d hd
    · rwa [List.mem_singleton.mp hd]

theorem Full.put (h : b.Full) (mtu : U32) (need : ℕ) (bytes : Bytes) :
    (b.put mtu need bytes).Full := by
  unfold FlushBuf.put
  split_ifs
  · exact h.output
  · exact h

theorem Full.flushAcks (mtu : U32) (acks : List (U32 × U32)) (seg : Ikcpseg) (h : b.Full) :
    (Ikcp.flushAcks mtu acks seg b).2.Full := by
  induction acks generalizing seg b with
  | nil => exact h
  | cons a acks ih => exact ih _ (h.put mtu overhead _)

theorem Full.flushProbes (kcp : Ikcpcb) (seg : Ikcpseg) (h : b.Full) :
    (kcp.flushProbes seg b).Full := by
  unfold Ikcpcb.flushProbes
  dsimp only
  split_ifs
  · exact (h.put _ _ _).put _ _ _
  · exact h.put _ _ _
  · exact h.put _ _ _
  · exact h

theorem Full.flushData (kcp : Ikcpcb) (wnd resent rtomin : U32) (segs : List Ikcpseg)
    {acc : FlushAcc} (h : acc.buf.Full) :
    (Ikcp.flushData kcp wnd resent rtomin segs acc).2.buf.Full := by
  induction segs generalizing acc with
  | nil => exact h
  | cons seg segs ih =>
    refine ih ?_
    unfold flushSegment
    cases resendSegment kcp resent rtomin seg with
    | none => exact h
    | some seg' => exact h.put _ _ _

end Ikcp.FlushBuf

namespace Ikcp.Ikcpcb

variable (kcp : Ikcpcb)

theorem flush_ne_nil : ∀ d ∈ kcp.flush.2, d ≠ [] := by
  have hempty : (⟨[], []⟩ : FlushBuf).Full := fun d hd => absurd hd List.not_mem_nil
  unfold flush
  split_ifs with hu
  · exact fun d hd => absurd hd List.not_mem_nil
  · exact (FlushBuf.Full.flushData _ _ _ _ _
      ((hempty.flushAcks _ _ _).flushProbes _ _)).output

/-- The window that a segment tells is not above that of the receive queue. -/
theorem wndUnused_le : kcp.wndUnused.toNat ≤ kcp.rcvWnd.toNat := by
  unfold wndUnused
  split_ifs with hlt
  · have hque : (BitVec.ofNat 32 kcp.nrcvQue).toNat = kcp.nrcvQue := by
      rw [BitVec.toNat_ofNat]
      have := kcp.rcvWnd.isLt
      omega
    rw [BitVec.toNat_sub_of_le (by rw [BitVec.le_def, hque]; omega)]
    omega
  · exact Nat.zero_le _

end Ikcp.Ikcpcb

/-! ## What is encoded is decoded -/

/-- The fields of a segment that are sent. -/
def transmitted (seg : Ikcpseg) : Ikcpseg where
  conv := seg.conv
  cmd := seg.cmd
  frg := seg.frg
  wnd := seg.wnd
  ts := seg.ts
  sn := seg.sn
  una := seg.una
  data := seg.data

/-- A segment whose fields all fit their width on the wire. -/
structure Exact (conv : U32) (seg : Ikcpseg) : Prop where
  sendable : Sendable conv seg
  frg : seg.frg.toNat < 256
  wnd : seg.wnd.toNat < 65536

theorem Exact.onWire {conv : U32} {seg : Ikcpseg} (h : Exact conv seg) :
    onWire seg = transmitted seg := by
  have hcmd := h.sendable.cmd.onWire
  unfold Ikcp.onWire transmitted at *
  simp only [Ikcpseg.mk.injEq, true_and, and_true]
  refine ⟨hcmd, ?_, ?_⟩
  · rw [Nat.mod_eq_of_lt h.frg, BitVec.ofNat_toNat, BitVec.setWidth_eq]
  · rw [Nat.mod_eq_of_lt h.wnd, BitVec.ofNat_toNat, BitVec.setWidth_eq]

/-- The formats agree on the buffer in which some segments are encoded: it fits a datagram, it is
recovered from its package with the connection id, no field is wider than on the wire, and a peer
with the connection id accepts it and decodes these segments, in order. -/
structure Agrees (conv : U32) (segs : List Ikcpseg) : Prop where
  pos : 1 ≤ (encodeSegs segs).length
  le : (encodeSegs segs).length ≤ 1400
  package : unpackPackage (pack conv.toNat (encodeSegs segs)) = some (conv.toNat, encodeSegs segs)
  fields : ∀ seg ∈ segs, Exact conv seg
  read : decodeSegs (encodeSegs segs) = segs.map transmitted
  decoded : ∀ peer : Ikcpcb, peer.conv = conv → peer.input (encodeSegs segs) = (0,
    (segs.foldl (fun kcp seg => kcp.inputSegment (transmitted seg)) peer).growCwnd peer.sndUna)

theorem foldl_onWire {conv : U32} {segs : List Ikcpseg} (h : ∀ seg ∈ segs, Exact conv seg)
    (peer : Ikcpcb) :
    segs.foldl (fun kcp seg => kcp.inputSegment (onWire seg)) peer =
      segs.foldl (fun kcp seg => kcp.inputSegment (transmitted seg)) peer := by
  refine List.foldl_ext _ _ peer fun kcp seg hseg => ?_
  rw [(h seg hseg).onWire]

/-- **A buffer of exact segments**. -/
theorem Agrees.of_exact {conv : U32} {segs : List Ikcpseg} (hne : encodeSegs segs ≠ [])
    (hle : (encodeSegs segs).length ≤ 1400) (hsegs : ∀ seg ∈ segs, Exact conv seg) :
    Agrees conv segs := by
  have hpos := List.length_pos_iff.mpr hne
  have hread : decodeSegs (encodeSegs segs) = segs.map transmitted := by
    rw [decodeSegs_encodeSegs fun seg hseg => (hsegs seg hseg).sendable.len]
    exact List.map_congr_left fun seg hseg => (hsegs seg hseg).onWire
  refine ⟨hpos, hle, unpackPackage_pack conv.isLt (by omega), hsegs, hread, fun peer hpeer => ?_⟩
  have hlen : ¬ (encodeSegs segs).length < 24 := by
    cases segs with
    | nil => exact absurd rfl hne
    | cons seg segs =>
      rw [encodeSegs_cons, List.length_append, length_encodeSeg, overhead]
      omega
  have hloop : peer.inputLoop (encodeSegs segs) =
      (0, segs.foldl (fun kcp seg => kcp.inputSegment (onWire seg)) peer) :=
    Ikcpcb.inputLoop_encode segs peer fun seg hseg => hpeer ▸ (hsegs seg hseg).sendable
  unfold Ikcpcb.input
  rw [if_neg hlen, hloop]
  simp only [lt_irrefl, if_false]
  rw [foldl_onWire hsegs peer]

/-! ## Runs -/

namespace Sending

variable {conv : U32} {kcp : Ikcpcb} {accepted sent : List Bytes} {n : ℕ}

/-- **The segments that a flush encodes** fit the wire. -/
theorem exact_flushSegs (h : Sending conv kcp accepted n sent) :
    ∀ seg ∈ kcp.flushSegs, Exact conv seg := by
  have hconv := h.configured.conv_eq
  have hwnd : kcp.wndUnused.toNat < 65536 := by
    have hle := kcp.wndUnused_le
    rw [h.configured.rcvWnd_eq] at hle
    exact hle.trans_lt (by decide)
  have hack (cmd : U32) (hcmd : IsCmd cmd) (sn ts : U32) :
      Exact conv { kcp.ackSegment with cmd := cmd, sn := sn, ts := ts } :=
    ⟨⟨hconv, hcmd, Nat.two_pow_pos 32⟩, (by decide : (0 : U32).toNat < 256), hwnd⟩
  intro seg hseg
  rcases List.mem_append.mp hseg with hseg | hseg
  · rcases List.mem_append.mp hseg with hseg | hseg
    · obtain ⟨a, -, rfl⟩ := List.mem_map.mp hseg
      exact hack cmdAck (Or.inr (Or.inl rfl)) a.1 a.2
    · obtain ⟨-, rfl⟩ | ⟨-, rfl⟩ := kcp.mem_probeSegs.mp hseg
      · exact hack cmdWask (Or.inr (Or.inr (Or.inl rfl))) _ _
      · exact hack cmdWins (Or.inr (Or.inr (Or.inr rfl))) _ _
  · obtain ⟨old, hold, htransmit⟩ := List.mem_filterMap.mp hseg
    obtain ⟨n', hsends⟩ := Ikcpcb.sends_loaded h.sends
    obtain ⟨hc, hcmd, i, -, hp⟩ := hsends.buf old hold
    have hcontent := kcp.content_transmit htransmit
    obtain ⟨hfrg, hlen⟩ : seg.frg.toNat < 256 ∧ overhead + seg.data.length ≤ kcp.mtu.toNat :=
      h.fits _ (List.mem_of_getElem? (hp.congr hcontent).2)
    have hmtu := kcp.mtu.isLt
    have hwnd' : seg.wnd = kcp.wndUnused := by
      obtain ⟨seg₁, -, rfl⟩ := Option.map_eq_some_iff.mp htransmit
      rfl
    simp only [content, Ikcpseg.mk.injEq] at hcontent
    have hloaded : kcp.loaded.conv = kcp.conv := congrArg SendSide.conv kcp.sendSide_probed
    exact ⟨⟨by rw [hcontent.1, hc]; exact hloaded.trans hconv, Or.inl (hcontent.2.1.trans hcmd),
      by omega⟩, hfrg, hwnd' ▸ hwnd⟩

/-- **The formats agree on a flush**. -/
theorem agrees_flush (h : Sending conv kcp accepted n sent) (hu : kcp.updated ≠ 0) :
    ∃ parts : List (List Ikcpseg), kcp.flush.2 = parts.map encodeSegs ∧
      parts.flatten = kcp.flushSegs ∧ ∀ part ∈ parts, Agrees conv part := by
  obtain ⟨parts, hout, hparts⟩ := kcp.flush_encodes hu
  obtain ⟨n', -, -, hcarries⟩ := h.sends.flush h.overhead_le h.fits
  refine ⟨parts, hout, hparts, fun part hpart => ?_⟩
  have hd : encodeSegs part ∈ kcp.flush.2 := hout ▸ List.mem_map_of_mem hpart
  have hle := (hcarries _ hd).1
  rw [h.configured.mtu_eq] at hle
  refine .of_exact (kcp.flush_ne_nil _ hd) hle fun seg hseg => h.exact_flushSegs seg ?_
  rw [← hparts]
  exact List.mem_flatten_of_mem hpart hseg

end Sending

/-- The segments that a call encodes, in order. -/
def Endpoint.encoded (s : Endpoint) (c : EndpointCall) : List Ikcpseg :=
  match s.flushing c with
  | some kcp => kcp.flushSegs
  | none => []

/-- Whatever a call flushes sends the same stream. -/
theorem Sending.flushing {conv : U32} {s : Endpoint} {n : ℕ}
    (h : Sending conv s.kcp s.accepted n s.sent) {c : EndpointCall} {kcp : Ikcpcb}
    (hc : s.flushing c = some kcp) : Sending conv kcp s.accepted n s.sent := by
  cases c with
  | update current =>
    obtain ⟨u, ts, -, hticked⟩ := s.kcp.ticked_eq (BitVec.ofInt 32 current)
    unfold Endpoint.flushing at hc
    dsimp only at hc
    split_ifs at hc
    obtain rfl := Option.some.inj hc
    rw [hticked]
    exact ⟨h.configured.of_params rfl, h.sends, h.acceptable, h.genuine⟩
  | flush =>
    unfold Endpoint.flushing at hc
    split_ifs at hc
    obtain rfl := Option.some.inj hc
    exact h
  | _ => exact absurd hc nofun

/-- **The formats agree**: what the next call hands over is made of the segments that it encodes,
cut into buffers on which the formats agree, and the data segments among them are those of
`snd_buf`, where they stand afterwards as they have been encoded. -/
theorem datagrams_agree {conv : U32} {s : Endpoint}
    (h : (endpointMachine conv).Reaches Machine.anyStep s) (c : EndpointCall) :
    ∃ parts : List (List Ikcpseg), (s.call c).sent = s.sent ++ parts.map encodeSegs ∧
      parts.flatten = s.encoded c ∧ (∀ part ∈ parts, Agrees conv part) ∧
      ∀ kcp, s.flushing c = some kcp →
        (s.call c).kcp.sndBuf = kcp.loaded.sndBuf.map kcp.afterFlush := by
  obtain ⟨n, hsending⟩ := Endpoint.sending h
  unfold Endpoint.encoded
  obtain ⟨kcp, hflushing, hu, hkcp, hsent⟩ | ⟨hflushing, hsent⟩ := s.call_flushing c
  · obtain ⟨parts, hout, hparts, hagrees⟩ := (hsending.flushing hflushing).agrees_flush hu
    refine ⟨parts, by rw [hsent, hout], by rw [hflushing]; exact hparts, hagrees,
      fun kcp' hkcp' => ?_⟩
    obtain rfl : kcp = kcp' := Option.some.inj (hflushing.symm.trans hkcp')
    rw [hkcp]
    exact kcp.sndBuf_flush hu
  · rw [hflushing]
    exact ⟨[], by rw [hsent, List.map_nil, List.append_nil], rfl,
      fun part hpart => absurd hpart List.not_mem_nil, fun kcp hkcp => absurd hkcp nofun⟩

/-- A message sent, and a datagram with an acknowledgement answered: the next update encodes an
acknowledgement and a data segment. -/
theorem datagrams_agree_sent : ∃ s, (endpointMachine 1).Reaches Machine.anyStep s ∧
    (s.encoded (.update 60)).map Ikcpseg.cmd = [cmdAck, cmdPush] ∧
    ∃ parts : List (List Ikcpseg), (s.call (.update 60)).sent = s.sent ++ parts.map encodeSegs ∧
      parts.flatten = s.encoded (.update 60) ∧ (∀ part ∈ parts, Agrees 1 part) ∧
      ∀ kcp, s.flushing (.update 60) = some kcp →
        (s.call (.update 60)).kcp.sndBuf = kcp.loaded.sndBuf.map kcp.afterFlush := by
  have h : ((endpointMachine 1).run (fun _ _ => true) (endpointMachine 1).init
      [.update 5, .send [1, 2, 3], .input (encodeSegs [soleSegment 1 0 0 0 [7]])]).any
      (fun s => (s.encoded (.update 60)).map Ikcpseg.cmd == [cmdAck, cmdPush]) = true := by
    decide +kernel
  obtain ⟨s, hrun, hs⟩ := Option.any_eq_true _ _ |>.mp h
  have hreach : (endpointMachine 1).Reaches Machine.anyStep s :=
    Machine.path_of_run (fun _ _ _ => trivial) _ hrun
  exact ⟨s, hreach, eq_of_beq hs, datagrams_agree hreach (.update 60)⟩

end LuaKcp
