import LuaKcp.Ikcp.Calls
import LuaKcp.Memory.Acklist
import LuaKcp.Memory.Store

/-!
# `ikcp.c` on pointers

The functions of `ikcp.c` that walk or change a queue, written over the store: they follow `next`
and `prev`, unlink and free, and count what the queues hold. They fail where the program would
follow `NULL`, touch freed memory, read or write beyond a block, where an assertion does not hold,
and where a loop takes more rounds than there are segments. What they do with the other fields is
shared with the functions on lists. Allocations succeed, nothing is logged, and the output callback
does not call back.
-/

namespace LuaKcp.Ikcp

namespace Ikcpcb

/-- A queue of the control block. -/
def queue (kcp : Ikcpcb) : Queue → List Ikcpseg
  | .sndQueue => kcp.sndQueue
  | .rcvQueue => kcp.rcvQueue
  | .sndBuf => kcp.sndBuf
  | .rcvBuf => kcp.rcvBuf

/-- The fields that are not lists. -/
def bare (kcp : Ikcpcb) : Ikcpcb :=
  { kcp with sndQueue := [], rcvQueue := [], sndBuf := [], rcvBuf := [], acklist := [] }

/-- What is allocated for the buffer of `ikcp_flush`: the product is an `IUINT32`. -/
def bufferSize (kcp : Ikcpcb) : ℕ := ((kcp.mtu + BitVec.ofNat 32 overhead) * 3).toNat

end Ikcpcb

/-- `IKCPCB` in memory: `cb` holds the fields that are not lists, `count` holds `nsnd_que`,
`nrcv_que`, `nsnd_buf` and `nrcv_buf`, and `buffer` the size of what is allocated for it. -/
structure Memory where
  cb : Ikcpcb
  acks : Acklist
  buffer : ℕ
  count : Queue → U32
  store : Store

/-- What a program does with a control block: `kcp->output` is set, or made `NULL`, or a function is
called; `block` is the size of the block that `ikcp_recv` copies to, `none` for `NULL`. -/
inductive Use
  | setOutput (callback : Bool)
  | call (c : Call) (block : Option ℕ)

/-- Writing in the buffer of `ikcp_flush` up to `ptr`. -/
def FlushBuf.within (b : FlushBuf) (size : ℕ) : Option FlushBuf :=
  if b.buf.length ≤ size then some b else none

namespace Memory

/-- The heads as `ikcp_malloc` leaves them, no segment allocated. -/
def heads : Store where
  heap
    | .head _ => some ⟨none, none, none⟩
    | .seg _ => none
  fresh := 0

/-- `ikcp_create`, the allocations succeeding. -/
def create (conv : U32) : Option Memory := do
  let store ← heads.init (.head .sndQueue)
  let store ← store.init (.head .rcvQueue)
  let store ← store.init (.head .sndBuf)
  let store ← store.init (.head .rcvBuf)
  some {
    cb := Ikcp.create conv, acks := ⟨none, 0, 0⟩, buffer := (Ikcp.create conv).bufferSize,
    count := fun _ => 0, store }

variable (m : Memory)

def incr (q : Queue) : Memory :=
  { m with count := Function.update m.count q (m.count q + 1) }

def decr (q : Queue) : Memory :=
  { m with count := Function.update m.count q (m.count q - 1) }

/-- What the loops over the queues leave alone. -/
def fixed : Ikcpcb × Acklist × ℕ := (m.cb, m.acks, m.buffer)

@[simp] theorem incr_store (q : Queue) : (m.incr q).store = m.store := rfl

@[simp] theorem incr_cb (q : Queue) : (m.incr q).cb = m.cb := rfl

@[simp] theorem decr_store (q : Queue) : (m.decr q).store = m.store := rfl

@[simp] theorem decr_cb (q : Queue) : (m.decr q).cb = m.cb := rfl

/-! ## The user side -/

/-- The loop of `ikcp_send` after `count` is known; `buffer` is what is left of the block of the
caller. -/
def sendLoop (mss : ℕ) : (count : ℕ) → (buffer : Bytes) → (len : ℕ) → Memory → Option Memory
  | 0, _, _, m => some m
  | count + 1, buffer, len, m =>
    let size := if len > mss then mss else len
    if buffer.length < size then none  -- memcpy(seg->data, buffer, size)
    else do
      let (p, store) := m.store.malloc
        { conv := 0, cmd := 0, frg := BitVec.ofNat 32 count, wnd := 0, ts := 0, sn := 0, una := 0,
          data := buffer.take size }
      let store ← store.init p
      let store ← store.addTail p (.head .sndQueue)
      sendLoop mss count (buffer.drop size) (len - size) ({ m with store }.incr .sndQueue)

/-- `ikcp_send`. -/
def send (buffer : Bytes) (len : ℤ) : Option (ℤ × Memory) :=
  if m.cb.mss = 0 then none  -- assert(kcp->mss > 0)
  else if len < 0 then some (-1, m)
  else
    let count := m.cb.sendCount len.toNat
    if count > 255 then some (-2, m)
    else do
      let m ← sendLoop m.cb.mss.toNat count buffer len.toNat m
      some (0, m)

/-- "move available data from rcv_buf -> rcv_queue". -/
def moveLoop : ℕ → Memory → Option Memory
  | 0, _ => none
  | fuel + 1, m => do
    if ← m.store.heap.isEmpty (.head .rcvBuf) then some m
    else
      let p ← m.store.heap.next (.head .rcvBuf)
      let seg ← m.store.segment p
      if seg.sn = m.cb.rcvNxt ∧ m.count .rcvQueue < m.cb.rcvWnd then
        let store ← m.store.del p
        let m := { m with store }.decr .rcvBuf
        let store ← m.store.addTail p (.head .rcvQueue)
        let m := { m with store }.incr .rcvQueue
        moveLoop fuel { m with cb := { m.cb with rcvNxt := m.cb.rcvNxt + 1 } }
      else some m

/-- The loop of `ikcp_peeksize` at `p`; the length is an `int`. -/
def peekLoop (s : Store) : ℕ → Addr → (length : ℤ) → Option ℤ
  | 0, _, _ => none
  | fuel + 1, p, length =>
    if p = .head .rcvQueue then some length
    else do
      let seg ← s.segment p
      let length := toInt32 (length + seg.data.length)
      if seg.frg = 0 then some length
      else
        let p ← s.heap.next p
        peekLoop s fuel p length

/-- `ikcp_peeksize`. -/
def peeksize : Option ℤ := do
  if ← m.store.heap.isEmpty (.head .rcvQueue) then some (-1)
  else
    let p ← m.store.heap.next (.head .rcvQueue)
    let seg ← m.store.segment p
    if seg.frg = 0 then some (toInt32 seg.data.length)
    else if m.count .rcvQueue < seg.frg + 1 then some (-1)
    else peekLoop m.store m.store.rounds p 0

/-- What the block of the caller holds when `data` has been copied behind `buffer`: nothing when it
is `NULL`. -/
def copyTo (block : Option ℕ) (buffer data : Bytes) : Option Bytes :=
  match block with
  | none => some buffer
  | some size => if buffer.length + data.length ≤ size then some (buffer ++ data) else none

/-- "merge fragment": the loop of `ikcp_recv` at `p`. -/
def mergeLoop (block : Option ℕ) (ispeek : Bool) :
    ℕ → Addr → (buffer : Bytes) → (len : ℤ) → Memory → Option (Bytes × ℤ × Memory)
  | 0, _, _, _, _ => none
  | fuel + 1, p, buffer, len, m =>
    if p = .head .rcvQueue then some (buffer, len, m)
    else do
      let seg ← m.store.segment p
      let next ← m.store.heap.next p
      let buffer ← copyTo block buffer seg.data
      let len := toInt32 (len + seg.data.length)
      if ispeek then
        if seg.frg = 0 then some (buffer, len, m)
        else mergeLoop block ispeek fuel next buffer len m
      else
        let store ← m.store.del p
        let store ← store.free p
        let m := { m with store }.decr .rcvQueue
        if seg.frg = 0 then some (buffer, len, m)
        else mergeLoop block ispeek fuel next buffer len m

/-- "fast recover". -/
def fastRecover (recover : Bool) : Memory :=
  if m.count .rcvQueue < m.cb.rcvWnd ∧ recover = true then
    { m with cb := { m.cb with probe := m.cb.probe ||| askTell } }
  else m

/-- `ikcp_recv` to a block of the caller, `none` for `NULL`. -/
def recv (block : Option ℕ) (len : ℤ) : Option (ℤ × Bytes × Memory) := do
  if ← m.store.heap.isEmpty (.head .rcvQueue) then some (-1, [], m)
  else
    let room := if len < 0 then toInt32 (-len) else len
    let peeksize ← m.peeksize
    if peeksize < 0 then some (-2, [], m)
    else if peeksize > room then some (-3, [], m)
    else
      let recover := decide (m.count .rcvQueue ≥ m.cb.rcvWnd)
      let p ← m.store.heap.next (.head .rcvQueue)
      let (buffer, len, m) ← mergeLoop block (len < 0) m.store.rounds p [] 0 m
      if len ≠ peeksize then none  -- assert(len == peeksize)
      else
        let m ← m.moveLoop m.store.rounds
        some (len, buffer, m.fastRecover recover)

/-! ## Input -/

/-- `ikcp_shrink_buf`. -/
def shrinkBuf : Option Memory := do
  let p ← m.store.heap.next (.head .sndBuf)
  if p = .head .sndBuf then some { m with cb := { m.cb with sndUna := m.cb.sndNxt } }
  else
    let seg ← m.store.segment p
    some { m with cb := { m.cb with sndUna := seg.sn } }

/-- The loop of `ikcp_parse_ack` at `p`. -/
def ackLoop (sn : U32) : ℕ → Addr → Memory → Option Memory
  | 0, _, _ => none
  | fuel + 1, p, m =>
    if p = .head .sndBuf then some m
    else do
      let seg ← m.store.segment p
      let next ← m.store.heap.next p
      if sn = seg.sn then
        let store ← m.store.del p
        let store ← store.free p
        some ({ m with store }.decr .sndBuf)
      else
        let store ← m.store.setSegment p { seg with fastack := seg.fastack + 1 }
        ackLoop sn fuel next { m with store }

/-- `ikcp_parse_ack`. -/
def parseAck (sn : U32) : Option Memory :=
  if itimediff sn m.cb.sndUna < 0 ∨ itimediff sn m.cb.sndNxt ≥ 0 then some m
  else do
    let p ← m.store.heap.next (.head .sndBuf)
    ackLoop sn m.store.rounds p m

/-- The loop of `ikcp_parse_una` at `p`. -/
def unaLoop (una : U32) : ℕ → Addr → Memory → Option Memory
  | 0, _, _ => none
  | fuel + 1, p, m =>
    if p = .head .sndBuf then some m
    else do
      let seg ← m.store.segment p
      let next ← m.store.heap.next p
      if itimediff una seg.sn > 0 then
        let store ← m.store.del p
        let store ← store.free p
        unaLoop una fuel next ({ m with store }.decr .sndBuf)
      else some m

/-- `ikcp_parse_una`. -/
def parseUna (una : U32) : Option Memory := do
  let p ← m.store.heap.next (.head .sndBuf)
  unaLoop una m.store.rounds p m

/-- The search of `ikcp_parse_data` at `p`: where the new segment goes behind, or that it is
there already. -/
def searchLoop (s : Store) (sn : U32) : ℕ → Addr → Option (Bool × Addr)
  | 0, _ => none
  | fuel + 1, p =>
    if p = .head .rcvBuf then some (false, p)
    else do
      let seg ← s.segment p
      let prev ← s.heap.prev p
      if seg.sn = sn then some (true, p)
      else if itimediff sn seg.sn > 0 then some (false, p)
      else searchLoop s sn fuel prev

/-- `ikcp_parse_data` of the segment at `newseg`. -/
def parseData (newseg : Addr) : Option Memory := do
  let seg ← m.store.segment newseg
  if itimediff seg.sn (m.cb.rcvNxt + m.cb.rcvWnd) ≥ 0 ∨ itimediff seg.sn m.cb.rcvNxt < 0 then
    let store ← m.store.free newseg
    some { m with store }
  else
    let p ← m.store.heap.prev (.head .rcvBuf)
    let (rep, p) ← searchLoop m.store seg.sn m.store.rounds p
    if rep then
      let store ← m.store.free newseg
      { m with store }.moveLoop store.rounds
    else
      let store ← m.store.init newseg
      let store ← store.add newseg p
      ({ m with store }.incr .rcvBuf).moveLoop store.rounds

/-- What the loop of `ikcp_input` does with a `IKCP_CMD_PUSH` segment. The size passed to
`ikcp_segment_new` is an `int`: from `2 ^ 31` on the block is too small for the data. -/
def inputPush (seg : Ikcpseg) : Option Memory :=
  if itimediff seg.sn (m.cb.rcvNxt + m.cb.rcvWnd) < 0 then do
    let acks ← m.acks.push seg.sn seg.ts
    let m := { m with acks }
    if itimediff seg.sn m.cb.rcvNxt ≥ 0 then
      if toInt32 seg.data.length < seg.data.length then none
      else
        let (p, store) := m.store.malloc seg
        { m with store }.parseData p
    else some m
  else some m

/-- What the loop of `ikcp_input` does with a `IKCP_CMD_ACK` segment. -/
def inputAck (seg : Ikcpseg) : Option Memory := do
  let rtt := itimediff m.cb.current seg.ts
  let m := if rtt ≥ 0 then { m with cb := m.cb.updateAck rtt } else m
  let m ← m.parseAck seg.sn
  m.shrinkBuf

/-- What the loop of `ikcp_input` does with a segment whose header it accepts. -/
def inputSegment (seg : Ikcpseg) : Option Memory := do
  let m ← { m with cb := { m.cb with rmtWnd := seg.wnd } }.parseUna seg.una
  let m ← m.shrinkBuf
  if seg.cmd = cmdAck then m.inputAck seg
  else if seg.cmd = cmdPush then m.inputPush seg
  else if seg.cmd = cmdWask then
    some { m with cb := { m.cb with probe := m.cb.probe ||| askTell } }
  else some m

/-- The loop of `ikcp_input`. -/
def inputLoop (m : Memory) (data : Bytes) : Option (ℤ × Memory) :=
  if data.length < overhead then some (0, m)
  else
    let hd := decodeHeader data
    let len := hd.2.1.toNat
    if hd.1.conv ≠ m.cb.conv then some (-1, m)
    else if hd.2.2.length < len then some (-2, m)
    else if hd.1.cmd ≠ cmdPush ∧ hd.1.cmd ≠ cmdAck ∧ hd.1.cmd ≠ cmdWask ∧ hd.1.cmd ≠ cmdWins then
      some (-3, m)
    else do
      let m ← m.inputSegment { hd.1 with data := hd.2.2.take len }
      inputLoop m (hd.2.2.drop len)
termination_by data.length
decreasing_by
  simp only [decodeHeader, decode32u, decode16u, decode8u, List.length_drop, overhead] at *
  omega

/-- `ikcp_input`. -/
def input (data : Bytes) : Option (ℤ × Memory) :=
  if data.length < 24 then some (0, m)
  else do
    let (ret, m') ← m.inputLoop data
    if ret < 0 then some (ret, m')
    else some (0, { m' with cb := m'.cb.growCwnd m.cb.sndUna })

/-! ## Flushing -/

/-- `ikcp_wnd_unused`. -/
def wndUnused : U32 :=
  if m.count .rcvQueue < m.cb.rcvWnd then m.cb.rcvWnd - m.count .rcvQueue else 0

/-- `ikcp_output`, which asserts that there is a callback, when `need` bytes more do not fit in the
unit; then the segment is encoded. -/
def put (output : Bool) (b : FlushBuf) (need : ℕ) (bytes : Bytes) : Option FlushBuf :=
  if b.buf.length + need > m.cb.mtu.toNat ∧ output = false then none  -- assert(kcp->output)
  else (b.put m.cb.mtu need bytes).within m.buffer

/-- "flush acknowledges" from the `i`-th on. -/
def flushAcks (output : Bool) : (n : ℕ) → (i : ℕ) → Ikcpseg → FlushBuf → Option (Ikcpseg × FlushBuf)
  | 0, _, seg, b => some (seg, b)
  | n + 1, i, seg, b => do
    let (sn, ts) ← m.acks.get i
    let seg' := { seg with sn := sn, ts := ts }
    let b ← m.put output b overhead (encodeSeg seg')
    flushAcks output n (i + 1) seg' b

/-- "flush window probing commands", both of them. -/
def flushProbes (output : Bool) (seg : Ikcpseg) (b : FlushBuf) : Option FlushBuf := do
  let b ← (if m.cb.probe &&& askSend ≠ 0 then
      m.put output b overhead (encodeSeg { seg with cmd := cmdWask })
    else some b)
  if m.cb.probe &&& askTell ≠ 0 then
    m.put output b overhead (encodeSeg { seg with cmd := cmdWins })
  else some b

/-- "move data from snd_queue to snd_buf". -/
def moveToBuf (wnd cwnd : U32) : ℕ → Memory → Option Memory
  | 0, _ => none
  | fuel + 1, m =>
    if itimediff m.cb.sndNxt (m.cb.sndUna + cwnd) < 0 then do
      if ← m.store.heap.isEmpty (.head .sndQueue) then some m
      else
        let p ← m.store.heap.next (.head .sndQueue)
        let store ← m.store.del p
        let store ← store.addTail p (.head .sndBuf)
        let m := ({ m with store }.decr .sndQueue).incr .sndBuf
        let newseg ← m.store.segment p
        let store ← m.store.setSegment p { newseg with
          conv := m.cb.conv, cmd := cmdPush, wnd := wnd, ts := m.cb.current, sn := m.cb.sndNxt,
          una := m.cb.rcvNxt, resendts := m.cb.current, rto := m.cb.rxRto, fastack := 0, xmit := 0 }
        moveToBuf wnd cwnd fuel
          { m with store, cb := { m.cb with sndNxt := m.cb.sndNxt + 1 } }
    else some m

/-- "flush data segments": the loop of `ikcp_flush` at `p`. -/
def flushLoop (output : Bool) (wnd resent rtomin : U32) :
    ℕ → Addr → FlushAcc → Memory → Option (FlushAcc × Memory)
  | 0, _, _, _ => none
  | fuel + 1, p, acc, m =>
    if p = .head .sndBuf then some (acc, m)
    else do
      let segment ← m.store.segment p
      let r := flushSegment m.cb wnd resent rtomin segment acc
      let _ ← (if (resendSegment m.cb resent rtomin segment).isSome then
          m.put output acc.buf (overhead + segment.data.length) (encodeSeg r.1)
        else some acc.buf)
      let store ← m.store.setSegment p r.1
      let next ← store.heap.next p
      flushLoop output wnd resent rtomin fuel next r.2 { m with store }

/-- `ikcp_flush`; `output` says whether `kcp->output` is set. -/
def flush (output : Bool) : Option (Memory × List Bytes) :=
  if m.cb.updated = 0 then some (m, [])
  else do
    let wnd := m.wndUnused
    -- the number of acknowledgements is an `int`
    let (seg, b) ← m.flushAcks output m.acks.count.toInt.toNat 0
      { m.cb.ackSegment with wnd := wnd } ⟨[], []⟩
    let m := { m with acks := { m.acks with count := 0 }, cb := m.cb.probeWindow }
    let probes ← m.flushProbes output seg b
    let m := { m with cb := { m.cb with probe := 0 } }
    let cwnd := m.cb.flushCwnd
    let m ← m.moveToBuf wnd cwnd m.store.rounds
    let resent := if 0 < m.cb.fastresend.toInt then m.cb.fastresend else 0xffffffff
    let rtomin := if m.cb.nodelay = 0 then m.cb.rxRto.sshiftRight 3 else 0
    let p ← m.store.heap.next (.head .sndBuf)
    let (data, m) ← flushLoop output wnd resent rtomin m.store.rounds p
      { buf := probes, xmit := m.cb.xmit, state := m.cb.state, change := 0, lost := false } m
    if data.buf.buf ≠ [] ∧ output = false then none  -- assert(kcp->output)
    else
      let cb := { m.cb with xmit := data.xmit, state := data.state }
      some ({ m with cb := ((cb.onChange resent data.change).onLost cwnd data.lost).minCwnd },
        data.buf.output)

/-- `ikcp_update`. -/
def update (output : Bool) (current : U32) : Option (Memory × List Bytes) :=
  let cb₁ := { m.cb with current := current }
  let cb₂ := if cb₁.updated = 0 then { cb₁ with updated := 1, tsFlush := current } else cb₁
  let slap₀ := itimediff current cb₂.tsFlush
  let reset := slap₀ ≥ 10000 ∨ slap₀ < -10000
  let cb₃ := if reset then { cb₂ with tsFlush := current } else cb₂
  let slap := if reset then 0 else slap₀
  if slap ≥ 0 then
    let ts := cb₃.tsFlush + cb₃.interval
    let ts := if itimediff current ts ≥ 0 then current + cb₃.interval else ts
    { m with cb := { cb₃ with tsFlush := ts } }.flush output
  else some ({ m with cb := cb₃ }, [])

/-- The loop of `ikcp_check` at `p`: the inner `none` when a segment is due. -/
def checkLoop (s : Store) (current : U32) : ℕ → Addr → ℤ → Option (Option ℤ)
  | 0, _, _ => none
  | fuel + 1, p, tmPacket =>
    if p = .head .sndBuf then some (some tmPacket)
    else do
      let seg ← s.segment p
      let diff := itimediff seg.resendts current
      if diff ≤ 0 then some none
      else
        let p ← s.heap.next p
        checkLoop s current fuel p (if diff < tmPacket then diff else tmPacket)

/-- `ikcp_check`. -/
def check (current : U32) : Option U32 :=
  if m.cb.updated = 0 then some current
  else
    let diff := itimediff current m.cb.tsFlush
    let tsFlush := if diff ≥ 10000 ∨ diff < -10000 then current else m.cb.tsFlush
    if itimediff current tsFlush ≥ 0 then some current
    else do
      let tmFlush := itimediff tsFlush current
      let p ← m.store.heap.next (.head .sndBuf)
      match ← checkLoop m.store current m.store.rounds p 0x7fffffff with
      | none => some current
      | some tmPacket =>
        let minimal := BitVec.ofInt 32 (if tmPacket < tmFlush then tmPacket else tmFlush)
        some (current + (if minimal ≥ m.cb.interval then m.cb.interval else minimal))

/-! ## All the calls -/

/-- `ikcp_waitsnd`: the sum of two `IUINT32`, as an `int`. -/
def waitsnd : ℤ := (m.count .sndBuf + m.count .sndQueue).toInt

/-- `ikcp_setmtu`, the allocation succeeding: the buffer is another one. -/
def setmtu (mtu : ℤ) : ℤ × Memory :=
  let r := m.cb.setmtu mtu
  (r.1, { m with cb := r.2, buffer := if r.1 < 0 then m.buffer else r.2.bufferSize })

/-- A call of the program. -/
def call (output : Bool) (block : Option ℕ) : Call → Option (Reply × Memory)
  | .send buffer len => do let r ← m.send buffer len; some ({ ret := r.1 }, r.2)
  | .recv len => do let r ← m.recv block len; some ({ ret := r.1, data := r.2.1 }, r.2.2)
  | .peeksize => do let r ← m.peeksize; some ({ ret := r }, m)
  | .input data => do let r ← m.input data; some ({ ret := r.1 }, r.2)
  | .update current => do
    let r ← m.update output current; some ({ ret := 0, out := r.2 }, r.1)
  | .check current => do let r ← m.check current; some ({ ret := r.toNat }, m)
  | .flush => do let r ← m.flush output; some ({ ret := 0, out := r.2 }, r.1)
  | .setmtu mtu => let r := m.setmtu mtu; some ({ ret := r.1 }, r.2)
  | .interval interval => some ({ ret := 0 }, { m with cb := m.cb.setInterval interval })
  | .nodelay nodelay interval resend nc =>
    some ({ ret := 0 }, { m with cb := m.cb.setNodelay nodelay interval resend nc })
  | .wndsize sndwnd rcvwnd => some ({ ret := 0 }, { m with cb := m.cb.wndsize sndwnd rcvwnd })
  | .waitsnd => some ({ ret := m.waitsnd }, m)

/-- The replies to what a program does, and the memory after it. No function of `ikcp.c` but
`ikcp_create`, which leaves it `NULL`, writes to `kcp->output`. -/
def run : Memory → (output : Bool) → List Use → Option (List Reply × Memory)
  | m, _, [] => some ([], m)
  | m, _, .setOutput callback :: us => m.run callback us
  | m, output, .call c block :: us => do
    let (reply, m) ← m.call output block c
    let (replies, m) ← m.run output us
    some (reply :: replies, m)

/-- A loop of `ikcp_release`. -/
def releaseLoop (q : Queue) : ℕ → Store → Option Store
  | 0, _ => none
  | fuel + 1, s => do
    if ← s.heap.isEmpty (.head q) then some s
    else
      let p ← s.heap.next (.head q)
      let s ← s.del p
      let s ← s.free p
      releaseLoop q fuel s

/-- `ikcp_release`; the buffer, the ack list and the control block go as they are. -/
def release : Option Store := do
  let s ← releaseLoop .sndBuf m.store.rounds m.store
  let s ← releaseLoop .rcvBuf s.rounds s
  let s ← releaseLoop .sndQueue s.rounds s
  releaseLoop .rcvQueue s.rounds s

end Memory

end LuaKcp.Ikcp
