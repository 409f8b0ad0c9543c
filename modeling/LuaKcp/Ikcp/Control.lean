import LuaKcp.Foundations.Serial
import LuaKcp.Foundations.Bytes

/-!
# The control block of `ikcp.c`

The two structures of `ikcp.h`, the constants, and the helpers on `IUINT32`. The counters
`nrcv_que`, `nrcv_buf`, `nsnd_que` and `nsnd_buf` are the lengths of the four queues, and the `len`
of a segment is the length of its data; `ts_recent`, `ts_lastack`, the log mask and the allocator
are left out, nothing reads them.
-/

namespace LuaKcp

/-- `IUINT32`; the `IINT32` fields are kept in the same words and read with `toInt`. -/
abbrev U32 := BitVec 32

/-- The conversion of an integer to `int32_t`. -/
def toInt32 (n : ℤ) : ℤ := (BitVec.ofInt 32 n).toInt

theorem toInt32_of_lt {n : ℕ} (h : n < 2 ^ 31) : toInt32 n = n := by
  rw [toInt32, BitVec.toInt_ofInt]
  exact Int.bmod_eq_of_le_mul_two (by omega) (by omega)

namespace Ikcp

def rtoNdl : U32 := 30
def rtoMin : U32 := 100
def rtoDef : U32 := 200
def rtoMax : U32 := 60000
def cmdPush : U32 := 81
def cmdAck : U32 := 82
def cmdWask : U32 := 83
def cmdWins : U32 := 84
def askSend : U32 := 1
def askTell : U32 := 2
def wndSnd : U32 := 32
def wndRcv : U32 := 32
def mtuDef : U32 := 1400
def intervalDef : U32 := 100
def overhead : ℕ := 24
def deadlink : U32 := 10
def threshInit : U32 := 2
def threshMin : U32 := 2
def probeInit : U32 := 7000
def probeLimit : U32 := 120000

/-- `_imin_`. -/
def imin (a b : U32) : U32 := if a ≤ b then a else b

/-- `_imax_`. -/
def imax (a b : U32) : U32 := if a ≥ b then a else b

/-- `_ibound_`. -/
def ibound (lower middle upper : U32) : U32 := imin (imax lower middle) upper

/-- `_itimediff`. -/
def itimediff (later earlier : U32) : ℤ := serialDiff later earlier

/-- `IKCPSEG`. -/
structure Ikcpseg where
  conv : U32
  cmd : U32
  frg : U32
  wnd : U32
  ts : U32
  sn : U32
  una : U32
  resendts : U32 := 0
  rto : U32 := 0
  fastack : U32 := 0
  xmit : U32 := 0
  data : Bytes
  deriving DecidableEq

/-- `IKCPCB`. -/
structure Ikcpcb where
  conv : U32
  mtu : U32
  mss : U32
  state : U32
  sndUna : U32
  sndNxt : U32
  rcvNxt : U32
  ssthresh : U32
  rxRttval : U32
  rxSrtt : U32
  rxRto : U32
  rxMinrto : U32
  sndWnd : U32
  rcvWnd : U32
  rmtWnd : U32
  cwnd : U32
  probe : U32
  current : U32
  interval : U32
  tsFlush : U32
  xmit : U32
  nodelay : U32
  updated : U32
  tsProbe : U32
  probeWait : U32
  deadLink : U32
  incr : U32
  sndQueue : List Ikcpseg
  rcvQueue : List Ikcpseg
  sndBuf : List Ikcpseg
  rcvBuf : List Ikcpseg
  acklist : List (U32 × U32)
  fastresend : U32
  nocwnd : U32
  deriving DecidableEq

/-- `ikcp_create`, the allocations succeeding. -/
def create (conv : U32) : Ikcpcb where
  conv := conv
  mtu := mtuDef
  mss := mtuDef - BitVec.ofNat 32 overhead
  state := 0
  sndUna := 0
  sndNxt := 0
  rcvNxt := 0
  ssthresh := threshInit
  rxRttval := 0
  rxSrtt := 0
  rxRto := rtoDef
  rxMinrto := rtoMin
  sndWnd := wndSnd
  rcvWnd := wndRcv
  rmtWnd := wndRcv
  cwnd := 0
  probe := 0
  current := 0
  interval := intervalDef
  tsFlush := intervalDef
  xmit := 0
  nodelay := 0
  updated := 0
  tsProbe := 0
  probeWait := 0
  deadLink := deadlink
  incr := 0
  sndQueue := []
  rcvQueue := []
  sndBuf := []
  rcvBuf := []
  acklist := []
  fastresend := 0
  nocwnd := 0

namespace Ikcpcb

/-- `ikcp_wndsize`; the arguments are `int32_t`. -/
def wndsize (kcp : Ikcpcb) (sndwnd rcvwnd : ℤ) : Ikcpcb :=
  let kcp := if 0 < sndwnd then { kcp with sndWnd := BitVec.ofInt 32 sndwnd } else kcp
  if 0 < rcvwnd then { kcp with rcvWnd := BitVec.ofInt 32 rcvwnd } else kcp

/-- `ikcp_nodelay`; the arguments are `int32_t`. -/
def setNodelay (kcp : Ikcpcb) (nodelay interval resend nc : ℤ) : Ikcpcb :=
  let kcp := if 0 ≤ nodelay then
      { kcp with
        nodelay := BitVec.ofInt 32 nodelay
        rxMinrto := if nodelay ≠ 0 then rtoNdl else rtoMin }
    else kcp
  let kcp := if 0 ≤ interval then
      let interval := if interval > 5000 then 5000 else if interval < 10 then 10 else interval
      { kcp with interval := BitVec.ofInt 32 interval }
    else kcp
  let kcp := if 0 ≤ resend then { kcp with fastresend := BitVec.ofInt 32 resend } else kcp
  if 0 ≤ nc then { kcp with nocwnd := BitVec.ofInt 32 nc } else kcp

end Ikcpcb

end Ikcp

end LuaKcp
