import LuaKcp.Ikcp.Input

/-!
# Flush, update and check: the timer side of `ikcp.c`

`ikcp_flush` encodes the pending acknowledgements, the window probes and the segments that are due
into one buffer, handing it to the output callback whenever the next segment would not fit. Here
the datagrams handed over are collected in order.
-/

namespace LuaKcp.Ikcp

/-- The buffer of `ikcp_flush`: the bytes up to `ptr`, and the datagrams already handed over. -/
structure FlushBuf where
  buf : Bytes
  out : List Bytes

namespace FlushBuf

/-- `ikcp_output`: an empty buffer is not handed over. -/
def output (b : FlushBuf) : List Bytes := if b.buf = [] then b.out else b.out ++ [b.buf]

/-- Make room for `need` bytes and append the encoded segment. -/
def put (b : FlushBuf) (mtu : U32) (need : ℕ) (bytes : Bytes) : FlushBuf :=
  if b.buf.length + need > mtu.toNat then { buf := bytes, out := b.output }
  else { b with buf := b.buf ++ bytes }

end FlushBuf

/-- "flush acknowledges": the loop over the ack list. The segment keeps the `sn` and `ts` of the
last acknowledgement, for the probes that follow. -/
def flushAcks (mtu : U32) : List (U32 × U32) → Ikcpseg → FlushBuf → Ikcpseg × FlushBuf
  | [], seg, b => (seg, b)
  | (sn, ts) :: acks, seg, b =>
    let seg' := { seg with sn := sn, ts := ts }
    flushAcks mtu acks seg' (b.put mtu overhead (encodeSeg seg'))

/-- "move data from snd_queue to snd_buf": the loop on the queue, with the control block it runs in
and the `wnd` of the current flush. -/
def moveToBuf (kcp : Ikcpcb) (wnd cwnd : U32) :
    List Ikcpseg → List Ikcpseg → U32 → List Ikcpseg × List Ikcpseg × U32
  | [], buf, nxt => ([], buf, nxt)
  | newseg :: que, buf, nxt =>
    if itimediff nxt (kcp.sndUna + cwnd) < 0 then
      moveToBuf kcp wnd cwnd que (buf ++ [{ newseg with
        conv := kcp.conv, cmd := cmdPush, wnd := wnd, ts := kcp.current, sn := nxt,
        una := kcp.rcvNxt, resendts := kcp.current, rto := kcp.rxRto, fastack := 0, xmit := 0 }])
        (nxt + 1)
    else (newseg :: que, buf, nxt)

/-- What the loop "flush data segments" accumulates. -/
structure FlushAcc where
  buf : FlushBuf
  xmit : U32
  state : U32
  change : ℕ
  lost : Bool

/-- The resend decision for one segment: `some` of the segment to send, or `none`. -/
def resendSegment (kcp : Ikcpcb) (resent rtomin : U32) (seg : Ikcpseg) : Option Ikcpseg :=
  if seg.xmit = 0 then
    some { seg with
      xmit := seg.xmit + 1, rto := kcp.rxRto, resendts := kcp.current + kcp.rxRto + rtomin }
  else if itimediff kcp.current seg.resendts ≥ 0 then
    let rto := if kcp.nodelay = 0 then seg.rto + kcp.rxRto
      else seg.rto + BitVec.ofInt 32 (kcp.rxRto.toInt.tdiv 2)
    some { seg with xmit := seg.xmit + 1, rto := rto, resendts := kcp.current + rto }
  else if seg.fastack ≥ resent then
    some { seg with xmit := seg.xmit + 1, fastack := 0, resendts := kcp.current + seg.rto }
  else none

/-- One round of "flush data segments". -/
def flushSegment (kcp : Ikcpcb) (wnd resent rtomin : U32) (seg : Ikcpseg) (acc : FlushAcc) :
    Ikcpseg × FlushAcc :=
  let timeout := seg.xmit ≠ 0 ∧ itimediff kcp.current seg.resendts ≥ 0
  let fast := seg.xmit ≠ 0 ∧ ¬ timeout
  match resendSegment kcp resent rtomin seg with
  | none => (seg, acc)
  | some seg =>
    let seg := { seg with ts := kcp.current, wnd := wnd, una := kcp.rcvNxt }
    (seg, {
      buf := acc.buf.put kcp.mtu (overhead + seg.data.length) (encodeSeg seg)
      xmit := if timeout then acc.xmit + 1 else acc.xmit
      state := if seg.xmit ≥ kcp.deadLink then -1 else acc.state
      change := if fast then acc.change + 1 else acc.change
      lost := acc.lost || decide timeout })

/-- "flush data segments": the loop over `snd_buf`. -/
def flushData (kcp : Ikcpcb) (wnd resent rtomin : U32) :
    List Ikcpseg → FlushAcc → List Ikcpseg × FlushAcc
  | [], acc => ([], acc)
  | seg :: p, acc =>
    let r := flushSegment kcp wnd resent rtomin seg acc
    let rs := flushData kcp wnd resent rtomin p r.2
    (r.1 :: rs.1, rs.2)

namespace Ikcpcb

variable (kcp : Ikcpcb)

/-- `ikcp_wnd_unused`. -/
def wndUnused : U32 :=
  if kcp.nrcvQue < kcp.rcvWnd.toNat then kcp.rcvWnd - BitVec.ofNat 32 kcp.nrcvQue else 0

/-- The next wait of the window probe. -/
def nextProbeWait : U32 :=
  let wait := if kcp.probeWait < probeInit then probeInit else kcp.probeWait
  imin (wait + wait / 2) probeLimit

/-- Arm the window probe, and ask for one now when `ask` is set. -/
def armProbe (wait : U32) (ask : U32) : Ikcpcb :=
  { kcp with probeWait := wait, tsProbe := kcp.current + wait, probe := kcp.probe ||| ask }

/-- "probe window size": the probe timer when the remote window is zero. -/
def probeWindow : Ikcpcb :=
  if kcp.rmtWnd = 0 then
    if kcp.probeWait = 0 then kcp.armProbe probeInit 0
    else if itimediff kcp.current kcp.tsProbe ≥ 0 then kcp.armProbe kcp.nextProbeWait askSend
    else kcp
  else { kcp with tsProbe := 0, probeWait := 0 }

/-- "update ssthresh": segments were sent again for having been overtaken. -/
def onChange (resent : U32) (change : ℕ) : Ikcpcb :=
  if change ≠ 0 then
    let half := (kcp.sndNxt - kcp.sndUna) / 2
    let ssthresh := if half < threshMin then threshMin else half
    { kcp with
      ssthresh := ssthresh, cwnd := ssthresh + resent, incr := (ssthresh + resent) * kcp.mss }
  else kcp

/-- Segments were sent again after a timeout; `cwnd` is the window of this flush. -/
def onLost (cwnd : U32) (lost : Bool) : Ikcpcb :=
  if lost then
    let half := cwnd / 2
    { kcp with
      ssthresh := if half < threshMin then threshMin else half, cwnd := 1, incr := kcp.mss }
  else kcp

/-- The congestion window is never below one segment. -/
def minCwnd : Ikcpcb := if kcp.cwnd < 1 then { kcp with cwnd := 1, incr := kcp.mss } else kcp

/-- The window of `ikcp_flush`. -/
def flushCwnd : U32 :=
  let cwnd := imin kcp.sndWnd kcp.rmtWnd
  if kcp.nocwnd = 0 then imin kcp.cwnd cwnd else cwnd

/-- The segment that `ikcp_flush` fills in for acknowledgements and probes. -/
def ackSegment : Ikcpseg where
  conv := kcp.conv
  cmd := cmdAck
  frg := 0
  wnd := kcp.wndUnused
  ts := 0
  sn := 0
  una := kcp.rcvNxt
  data := []

/-- "flush window probing commands", both of them. -/
def flushProbes (seg : Ikcpseg) (b : FlushBuf) : FlushBuf :=
  let b := if kcp.probe &&& askSend ≠ 0 then
      b.put kcp.mtu overhead (encodeSeg { seg with cmd := cmdWask })
    else b
  if kcp.probe &&& askTell ≠ 0 then
    b.put kcp.mtu overhead (encodeSeg { seg with cmd := cmdWins })
  else b

/-- `ikcp_flush`: the control block and the datagrams handed to the output callback. -/
def flush : Ikcpcb × List Bytes :=
  if kcp.updated = 0 then (kcp, [])
  else
    let wnd := kcp.wndUnused
    let acks := flushAcks kcp.mtu kcp.acklist kcp.ackSegment ⟨[], []⟩
    let kcp₁ := ({ kcp with acklist := [] }).probeWindow
    let probes := kcp₁.flushProbes acks.1 acks.2
    let kcp₂ := { kcp₁ with probe := 0 }
    let cwnd := kcp₂.flushCwnd
    let moved := moveToBuf kcp₂ wnd cwnd kcp₂.sndQueue kcp₂.sndBuf kcp₂.sndNxt
    let kcp₃ := { kcp₂ with sndQueue := moved.1, sndBuf := moved.2.1, sndNxt := moved.2.2 }
    let resent := if 0 < kcp₃.fastresend.toInt then kcp₃.fastresend else 0xffffffff
    let rtomin := if kcp₃.nodelay = 0 then kcp₃.rxRto.sshiftRight 3 else 0
    let data := flushData kcp₃ wnd resent rtomin kcp₃.sndBuf
      { buf := probes, xmit := kcp₃.xmit, state := kcp₃.state, change := 0, lost := false }
    let kcp₄ := { kcp₃ with sndBuf := data.1, xmit := data.2.xmit, state := data.2.state }
    (((kcp₄.onChange resent data.2.change).onLost cwnd data.2.lost).minCwnd, data.2.buf.output)

/-- `ikcp_update`: the control block and the datagrams handed to the output callback. -/
def update (current : U32) : Ikcpcb × List Bytes :=
  let kcp₁ := { kcp with current := current }
  let kcp₂ := if kcp₁.updated = 0 then { kcp₁ with updated := 1, tsFlush := current } else kcp₁
  let slap₀ := itimediff current kcp₂.tsFlush
  let reset := slap₀ ≥ 10000 ∨ slap₀ < -10000
  let kcp₃ := if reset then { kcp₂ with tsFlush := current } else kcp₂
  let slap := if reset then 0 else slap₀
  if slap ≥ 0 then
    let ts := kcp₃.tsFlush + kcp₃.interval
    let ts := if itimediff current ts ≥ 0 then current + kcp₃.interval else ts
    ({ kcp₃ with tsFlush := ts }).flush
  else (kcp₃, [])

/-- The loop of `ikcp_check` over `snd_buf`: `none` when a segment is due. -/
def checkLoop (current : U32) : List Ikcpseg → ℤ → Option ℤ
  | [], tmPacket => some tmPacket
  | seg :: p, tmPacket =>
    let diff := itimediff seg.resendts current
    if diff ≤ 0 then none else checkLoop current p (if diff < tmPacket then diff else tmPacket)

/-- `ikcp_check`. -/
def check (current : U32) : U32 :=
  if kcp.updated = 0 then current
  else
    let diff := itimediff current kcp.tsFlush
    let tsFlush := if diff ≥ 10000 ∨ diff < -10000 then current else kcp.tsFlush
    if itimediff current tsFlush ≥ 0 then current
    else
      let tmFlush := itimediff tsFlush current
      match checkLoop current kcp.sndBuf 0x7fffffff with
      | none => current
      | some tmPacket =>
        let minimal := BitVec.ofInt 32 (if tmPacket < tmFlush then tmPacket else tmFlush)
        current + (if minimal ≥ kcp.interval then kcp.interval else minimal)

end Ikcpcb

end LuaKcp.Ikcp
