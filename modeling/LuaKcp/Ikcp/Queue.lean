import LuaKcp.Ikcp.Control

/-!
# Sending and receiving: the user side of `ikcp.c`

`ikcp_send` cuts a message into fragments and appends them to `snd_queue`; `ikcp_recv` merges the
fragments of the message at the head of `rcv_queue` and moves the segments that have become
available from `rcv_buf` to `rcv_queue`, as `ikcp_parse_data` does too.
-/

namespace LuaKcp.Ikcp

/-- The fragments made by the loop of `ikcp_send`: `count` of them, numbered downwards to `0`, of
`mss` bytes each but for the last. -/
def fragments (mss : ℕ) : (count : ℕ) → (buffer : Bytes) → (len : ℕ) → List Ikcpseg
  | 0, _, _ => []
  | count + 1, buffer, len =>
    let size := if len > mss then mss else len
    { conv := 0, cmd := 0, frg := BitVec.ofNat 32 count, wnd := 0, ts := 0, sn := 0, una := 0,
      data := buffer.take size } ::
      fragments mss count (buffer.drop size) (len - size)

/-- The move from `rcv_buf` to `rcv_queue`: while the head is the segment expected next and the
queue is shorter than the window. -/
def moveLoop (rcvWnd : U32) : List Ikcpseg → List Ikcpseg → U32 →
    List Ikcpseg × List Ikcpseg × U32
  | [], que, nxt => ([], que, nxt)
  | seg :: buf, que, nxt =>
    if seg.sn = nxt ∧ que.length < rcvWnd.toNat then moveLoop rcvWnd buf (que ++ [seg]) (nxt + 1)
    else (seg :: buf, que, nxt)

/-- The length of the message at the head of a queue, as `ikcp_peeksize` adds it up. -/
def peekLoop : List Ikcpseg → ℕ
  | [] => 0
  | seg :: p => if seg.frg = 0 then seg.data.length else seg.data.length + peekLoop p

/-- The merge loop of `ikcp_recv`: the bytes copied and the queue left. -/
def mergeLoop : List Ikcpseg → Bytes × List Ikcpseg
  | [] => ([], [])
  | seg :: p =>
    if seg.frg = 0 then (seg.data, p)
    else
      let r := mergeLoop p
      (seg.data ++ r.1, r.2)

namespace Ikcpcb

variable (kcp : Ikcpcb)

/-- `nrcv_que`. -/
def nrcvQue : ℕ := kcp.rcvQueue.length

/-- How many fragments `ikcp_send` cuts `len` bytes into; `len` is not negative. -/
def sendCount (len : ℕ) : ℕ :=
  let count := if len ≤ kcp.mss.toNat then 1
    else (len + kcp.mss.toNat - 1) % 2 ^ 32 / kcp.mss.toNat
  if count = 0 then 1 else count

/-- `ikcp_send` of `len` bytes of `buffer`, the allocations succeeding. -/
def send (buffer : Bytes) (len : ℤ) : ℤ × Ikcpcb :=
  if len < 0 then (-1, kcp)
  else
    let count := kcp.sendCount len.toNat
    if count > 255 then (-2, kcp)
    else
      (0, { kcp with
        sndQueue := kcp.sndQueue ++ fragments kcp.mss.toNat count buffer len.toNat })

/-- The loops "move available data from rcv_buf -> rcv_queue". -/
def moveAvailable : Ikcpcb :=
  let r := moveLoop kcp.rcvWnd kcp.rcvBuf kcp.rcvQueue kcp.rcvNxt
  { kcp with rcvBuf := r.1, rcvQueue := r.2.1, rcvNxt := r.2.2 }

/-- `ikcp_peeksize`. -/
def peeksize : ℤ :=
  match kcp.rcvQueue with
  | [] => -1
  | seg :: _ =>
    if seg.frg = 0 then seg.data.length
    else if kcp.nrcvQue < (seg.frg + 1).toNat then -1
    else peekLoop kcp.rcvQueue

/-- The queue after the merge loop, unless only peeking. -/
def dropMerged (ispeek : Bool) : Ikcpcb :=
  if ispeek then kcp else { kcp with rcvQueue := (mergeLoop kcp.rcvQueue).2 }

/-- "fast recover": ask `ikcp_flush` to tell the remote that the window has opened. -/
def fastRecover (recover : Bool) : Ikcpcb :=
  if kcp.nrcvQue < kcp.rcvWnd.toNat ∧ recover = true then
    { kcp with probe := kcp.probe ||| askTell }
  else kcp

/-- `ikcp_recv` into a buffer of `len` bytes (`-len` to peek): the result, the bytes copied and
the control block. -/
def recv (len : ℤ) : ℤ × Bytes × Ikcpcb :=
  if kcp.rcvQueue = [] then (-1, [], kcp)
  else if kcp.peeksize < 0 then (-2, [], kcp)
  else if kcp.peeksize > |len| then (-3, [], kcp)
  else
    let recover := decide (kcp.nrcvQue ≥ kcp.rcvWnd.toNat)
    let merged := (mergeLoop kcp.rcvQueue).1
    (merged.length, merged, ((kcp.dropMerged (len < 0)).moveAvailable).fastRecover recover)

end Ikcpcb

end LuaKcp.Ikcp
