import LuaKcp.Ikcp.Queue

/-!
# Input: the lower side of `ikcp.c`

`ikcp_input` decodes the segments of a datagram one after the other and applies each to the
control block. A datagram is refused where its first bad segment stands: the segments before it
have been applied.
-/

namespace LuaKcp.Ikcp

/-- `ikcp_decode8u`: the byte and the pointer moved on. -/
def decode8u (p : Bytes) : U32 × Bytes := (BitVec.ofNat 32 (leValue (p.take 1)), p.drop 1)

/-- `ikcp_decode16u`. -/
def decode16u (p : Bytes) : U32 × Bytes := (BitVec.ofNat 32 (leValue (p.take 2)), p.drop 2)

/-- `ikcp_decode32u`. -/
def decode32u (p : Bytes) : U32 × Bytes := (BitVec.ofNat 32 (leValue (p.take 4)), p.drop 4)

/-- `ikcp_encode_seg` followed by the data of the segment; the narrow fields are cast to their
width on the wire. -/
def encodeSeg (seg : Ikcpseg) : Bytes :=
  leBytes 4 seg.conv.toNat ++ (leBytes 1 seg.cmd.toNat ++ (leBytes 1 seg.frg.toNat ++
    (leBytes 2 seg.wnd.toNat ++ (leBytes 4 seg.ts.toNat ++ (leBytes 4 seg.sn.toNat ++
      (leBytes 4 seg.una.toNat ++ (leBytes 4 seg.data.length ++ seg.data)))))))

/-- The header fields read by one round of the loop of `ikcp_input`, the length announced and the
bytes after the header. -/
def decodeHeader (data : Bytes) : Ikcpseg × U32 × Bytes :=
  let (conv, data) := decode32u data
  let (cmd, data) := decode8u data
  let (frg, data) := decode8u data
  let (wnd, data) := decode16u data
  let (ts, data) := decode32u data
  let (sn, data) := decode32u data
  let (una, data) := decode32u data
  let (len, data) := decode32u data
  ({ conv, cmd, frg, wnd, ts, sn, una, data := [] }, len, data)

/-- The loop of `ikcp_parse_ack`: the segment acknowledged is deleted and the ones before it have
been overtaken once more. -/
def ackLoop (sn : U32) : List Ikcpseg → List Ikcpseg
  | [] => []
  | seg :: p => if sn = seg.sn then p else { seg with fastack := seg.fastack + 1 } :: ackLoop sn p

/-- The search of `ikcp_parse_data` for the place of a new segment, on `rcv_buf` read from its
tail: `none` when the segment is already there. -/
def insertLoop (newseg : Ikcpseg) : List Ikcpseg → Option (List Ikcpseg)
  | [] => some [newseg]
  | seg :: prev =>
    if seg.sn = newseg.sn then none
    else if itimediff newseg.sn seg.sn > 0 then some (newseg :: seg :: prev)
    else (insertLoop newseg prev).map (seg :: ·)

namespace Ikcpcb

variable (kcp : Ikcpcb)

/-- `ikcp_update_ack`; `rtt` is an `IINT32`, and so are `rx_srtt` and `rx_rttval`, so that their
difference, the products and the sum of two of them are taken in 32 bits. `delta` is a `long`. -/
def updateAck (rtt : ℤ) : Ikcpcb :=
  let kcp := if kcp.rxSrtt = 0 then
      { kcp with rxSrtt := BitVec.ofInt 32 rtt, rxRttval := BitVec.ofInt 32 (rtt.tdiv 2) }
    else
      let delta := |toInt32 (rtt - kcp.rxSrtt.toInt)|
      let rttval := (toInt32 (3 * kcp.rxRttval.toInt) + delta).tdiv 4
      let srtt := BitVec.ofInt 32
        ((toInt32 (toInt32 (7 * kcp.rxSrtt.toInt) + rtt)).tdiv 8)
      { kcp with
        rxRttval := BitVec.ofInt 32 rttval
        rxSrtt := if srtt.toInt < 1 then 1 else srtt }
  let rto := kcp.rxSrtt + imax 1 (4 * kcp.rxRttval)
  { kcp with rxRto := ibound kcp.rxMinrto rto rtoMax }

/-- `ikcp_shrink_buf`. -/
def shrinkBuf : Ikcpcb :=
  { kcp with sndUna := match kcp.sndBuf with
      | seg :: _ => seg.sn
      | [] => kcp.sndNxt }

/-- `ikcp_parse_ack`. -/
def parseAck (sn : U32) : Ikcpcb :=
  if itimediff sn kcp.sndUna < 0 ∨ itimediff sn kcp.sndNxt ≥ 0 then kcp
  else { kcp with sndBuf := ackLoop sn kcp.sndBuf }

/-- `ikcp_parse_una`. -/
def parseUna (una : U32) : Ikcpcb :=
  { kcp with sndBuf := kcp.sndBuf.dropWhile fun seg => 0 < itimediff una seg.sn }

/-- `ikcp_ack_push`. -/
def ackPush (sn ts : U32) : Ikcpcb := { kcp with acklist := kcp.acklist ++ [(sn, ts)] }

/-- `ikcp_parse_data`. -/
def parseData (newseg : Ikcpseg) : Ikcpcb :=
  if itimediff newseg.sn (kcp.rcvNxt + kcp.rcvWnd) ≥ 0 ∨ itimediff newseg.sn kcp.rcvNxt < 0 then kcp
  else
    let kcp := match insertLoop newseg kcp.rcvBuf.reverse with
      | some rev => { kcp with rcvBuf := rev.reverse }
      | none => kcp
    kcp.moveAvailable

/-- What the loop of `ikcp_input` does with a `IKCP_CMD_PUSH` segment. -/
def inputPush (seg : Ikcpseg) : Ikcpcb :=
  if itimediff seg.sn (kcp.rcvNxt + kcp.rcvWnd) < 0 then
    let kcp := kcp.ackPush seg.sn seg.ts
    if itimediff seg.sn kcp.rcvNxt ≥ 0 then kcp.parseData seg else kcp
  else kcp

/-- What the loop of `ikcp_input` does with a `IKCP_CMD_ACK` segment. -/
def inputAck (seg : Ikcpseg) : Ikcpcb :=
  let rtt := itimediff kcp.current seg.ts
  let kcp := if rtt ≥ 0 then kcp.updateAck rtt else kcp
  (kcp.parseAck seg.sn).shrinkBuf

/-- What the loop of `ikcp_input` does with a segment whose header it accepts. -/
def inputSegment (seg : Ikcpseg) : Ikcpcb :=
  let kcp := (({ kcp with rmtWnd := seg.wnd }).parseUna seg.una).shrinkBuf
  if seg.cmd = cmdAck then kcp.inputAck seg
  else if seg.cmd = cmdPush then kcp.inputPush seg
  else if seg.cmd = cmdWask then { kcp with probe := kcp.probe ||| askTell }
  else kcp

/-- The loop of `ikcp_input`. -/
def inputLoop (kcp : Ikcpcb) (data : Bytes) : ℤ × Ikcpcb :=
  if data.length < overhead then (0, kcp)
  else
    let hd := decodeHeader data
    let len := hd.2.1.toNat
    if hd.1.conv ≠ kcp.conv then (-1, kcp)
    else if hd.2.2.length < len then (-2, kcp)
    else if hd.1.cmd ≠ cmdPush ∧ hd.1.cmd ≠ cmdAck ∧ hd.1.cmd ≠ cmdWask ∧ hd.1.cmd ≠ cmdWins then
      (-3, kcp)
    else inputLoop (kcp.inputSegment { hd.1 with data := hd.2.2.take len }) (hd.2.2.drop len)
termination_by data.length
decreasing_by
  simp only [decodeHeader, decode32u, decode16u, decode8u, List.length_drop, overhead] at *
  omega

/-- One more segment in the congestion window, or part of one past the threshold. -/
def stepCwnd : Ikcpcb :=
  if kcp.cwnd < kcp.ssthresh then { kcp with cwnd := kcp.cwnd + 1, incr := kcp.incr + kcp.mss }
  else
    let incr₀ := if kcp.incr < kcp.mss then kcp.mss else kcp.incr
    let incr := incr₀ + (kcp.mss * kcp.mss / incr₀ + kcp.mss / 16)
    { kcp with
      cwnd := if (kcp.cwnd + 1) * kcp.mss ≥ incr then kcp.cwnd + 1 else kcp.cwnd
      incr := incr }

/-- The congestion window after an acknowledgement, at the end of `ikcp_input`; `una` is the
`snd_una` before it. -/
def growCwnd (una : U32) : Ikcpcb :=
  if itimediff kcp.sndUna una > 0 ∧ kcp.cwnd < kcp.rmtWnd then
    let kcp₁ := kcp.stepCwnd
    if kcp₁.cwnd > kcp₁.rmtWnd then
      { kcp₁ with cwnd := kcp₁.rmtWnd, incr := kcp₁.rmtWnd * kcp₁.mss }
    else kcp₁
  else kcp

/-- `ikcp_input`: the result and the control block. -/
def input (data : Bytes) : ℤ × Ikcpcb :=
  if data.length < 24 then (0, kcp)
  else
    let r := kcp.inputLoop data
    -- the early returns of the loop skip the congestion window
    if r.1 < 0 then r else (0, r.2.growCwnd kcp.sndUna)

end Ikcpcb

end LuaKcp.Ikcp
