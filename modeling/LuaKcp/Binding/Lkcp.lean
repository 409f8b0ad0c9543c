import LuaKcp.Binding.Package
import LuaKcp.Ikcp.Flush

/-!
# The binding

The calls that `lkcp.c` and `lkcpsn.c` make available to Lua, on a control block: the integers of
Lua are cut to the C types of the arguments, and `lkcp_recv` returns a string only after a positive
result. The objects of `lkcpsn.c` hold the address that their datagrams go to; it changes with
every call that passes another one.
-/

namespace LuaKcp

open Ikcp

/-- `RECV_BUFFER_LEN`. -/
def recvBufferLen : ℤ := 4 * 1024 * 1024

/-- `getms`: `gettimeofday` in milliseconds, its low 31 bits. -/
def getms (wall : ℕ) : ℤ := (wall % 2 ^ 31 : ℕ)

namespace Ikcp.Ikcpcb

variable (kcp : Ikcpcb)

/-- `lkcp_recv`: the result, and the string returned after it when there is one. -/
def lkcpRecv : (ℤ × Option Bytes) × Ikcpcb :=
  let r := kcp.recv recvBufferLen
  ((r.1, if r.1 ≤ 0 then none else some r.2.1), r.2.2)

/-- `lkcp_send`: the length is passed to `ikcp_send` as an `int`. -/
def lkcpSend (data : Bytes) : ℤ × Ikcpcb := kcp.send data (toInt32 data.length)

/-- `lkcp_update`. -/
def lkcpUpdate (current : ℤ) : Ikcpcb × List Bytes := kcp.update (BitVec.ofInt 32 current)

/-- `lkcp_check`. -/
def lkcpCheck (current : ℤ) : ℤ := (kcp.check (BitVec.ofInt 32 current)).toInt

end Ikcp.Ikcpcb

/-- What `getKcp` makes before its first update: windows of 128 segments, no congestion window. -/
def configured (conv : U32) : Ikcpcb := ((create conv).wndsize 128 128).setNodelay 0 50 0 1

/-- A datagram and the address it is sent to. -/
structure Datagram where
  address : Bytes
  data : Bytes
  deriving DecidableEq

/-- A kcp object of `lkcpsn.c`: the control block and the address in its `Callback`. -/
structure Kcp where
  cb : Ikcpcb
  address : Bytes
  deriving DecidableEq

namespace Kcp

variable (k : Kcp)

/-- The address after a call that passes one: an empty address is not taken over. -/
def withAddress (address : Bytes) : Kcp := if address = [] then k else { k with address := address }

/-- `kcp_output_callback` for the buffers of one call, `pack_output` succeeding. -/
def output (bufs : List Bytes) : List Datagram :=
  bufs.map fun buf => ⟨k.address, pack k.cb.conv.toNat buf⟩

/-- `lkcp_create`, but for the socket. -/
def lkcpCreate (address : Bytes) (conv : ℤ) : Kcp := ⟨create (BitVec.ofInt 32 conv), address⟩

/-- `lkcp_recv`. -/
def lkcpRecv : (ℤ × Option Bytes) × Kcp :=
  let r := k.cb.lkcpRecv
  (r.1, { k with cb := r.2 })

/-- `lkcp_send`. -/
def lkcpSend (data address : Bytes) : ℤ × Kcp :=
  let r := k.cb.lkcpSend data
  (r.1, ({ k with cb := r.2 }).withAddress address)

/-- `lkcp_input`. -/
def lkcpInput (data address : Bytes) : ℤ × Kcp :=
  let r := k.cb.input data
  (r.1, ({ k with cb := r.2 }).withAddress address)

/-- `lkcp_update`. -/
def lkcpUpdate (current : ℤ) : Kcp × List Datagram :=
  let r := k.cb.lkcpUpdate current
  ({ k with cb := r.1 }, k.output r.2)

/-- `lkcp_flush`. -/
def lkcpFlush : Kcp × List Datagram :=
  let r := k.cb.flush
  ({ k with cb := r.1 }, k.output r.2)

/-- `lkcp_check`. -/
def lkcpCheck (current : ℤ) : ℤ := k.cb.lkcpCheck current

/-- `lkcp_wndsize`. -/
def lkcpWndsize (sndwnd rcvwnd : ℤ) : Kcp :=
  { k with cb := k.cb.wndsize (toInt32 sndwnd) (toInt32 rcvwnd) }

/-- `lkcp_nodelay`. -/
def lkcpNodelay (nodelay interval resend nc : ℤ) : Kcp :=
  let cb := k.cb.setNodelay (toInt32 nodelay) (toInt32 interval) (toInt32 resend) (toInt32 nc)
  { k with cb := cb }

@[simp] theorem cb_withAddress (address : Bytes) : (k.withAddress address).cb = k.cb := by
  unfold withAddress
  split_ifs <;> rfl

theorem address_withAddress (address : Bytes) :
    (k.withAddress address).address = if address = [] then k.address else address := by
  unfold withAddress
  split_ifs <;> rfl

@[simp] theorem cb_lkcpInput (data address : Bytes) :
    (k.lkcpInput data address).2.cb = (k.cb.input data).2 := by
  simp [lkcpInput]

@[simp] theorem cb_lkcpSend (data address : Bytes) :
    (k.lkcpSend data address).2.cb = (k.cb.lkcpSend data).2 := by
  simp [lkcpSend]

theorem address_lkcpInput (data address : Bytes) : (k.lkcpInput data address).2.address =
    if address = [] then k.address else address := by
  simp [lkcpInput, address_withAddress]

theorem address_lkcpSend (data address : Bytes) : (k.lkcpSend data address).2.address =
    if address = [] then k.address else address := by
  simp [lkcpSend, address_withAddress]

end Kcp

/-- `mySockServer:getKcp`. -/
def getKcp (fromAddr : Bytes) (subid wall : ℕ) : Kcp × List Datagram :=
  let kcp := (Kcp.lkcpCreate fromAddr subid).lkcpWndsize 128 128
  (kcp.lkcpNodelay 0 50 0 1).lkcpUpdate (getms wall)

/-- The connection id as an object's `conv`. -/
def convOf (subid : ℕ) : U32 := BitVec.ofNat 32 subid

theorem getKcp_eq (fromAddr : Bytes) (subid wall : ℕ) : getKcp fromAddr subid wall =
    (⟨configured (convOf subid), fromAddr⟩ : Kcp).lkcpUpdate (getms wall) := by
  have hconv : BitVec.ofInt 32 (subid : ℤ) = convOf subid := BitVec.ofInt_natCast 32 subid
  unfold getKcp Kcp.lkcpCreate Kcp.lkcpWndsize Kcp.lkcpNodelay configured
  rw [hconv]
  rfl

end LuaKcp
