import LuaKcp.Ikcp.Settings
import LuaKcp.Ikcp.Timing

/-!
# All the calls of `ikcp.h`

The functions that a program may call on a control block, with everything they return: the result,
the bytes copied and the datagrams handed to the output callback. A segment sent `dead_link` times
marks the control block in `state`; the mark and the counters behind it are written and never read,
so a dead connection behaves like any other (`replies_unmarked`).
-/

namespace LuaKcp.Ikcp

/-- The calls on a control block. -/
inductive Call
  | send (buffer : Bytes) (len : ℤ)
  | recv (len : ℤ)
  | peeksize
  | input (data : Bytes)
  | update (current : U32)
  | check (current : U32)
  | flush
  | setmtu (mtu : ℤ)
  | interval (interval : ℤ)
  | nodelay (nodelay interval resend nc : ℤ)
  | wndsize (sndwnd rcvwnd : ℤ)
  | waitsnd

/-- What a call returns: its result, the bytes it has copied and the datagrams it has handed
over. -/
structure Reply where
  ret : ℤ
  data : Bytes := []
  out : List Bytes := []
  deriving DecidableEq

namespace Ikcpcb

variable (kcp : Ikcpcb)

/-- `ikcp_setmtu`, the allocation succeeding. -/
def setmtu (mtu : ℤ) : ℤ × Ikcpcb :=
  if mtu < 50 ∨ mtu < overhead then (-1, kcp)
  else
    let kcp := { kcp with mtu := BitVec.ofInt 32 mtu }
    (0, { kcp with mss := kcp.mtu - BitVec.ofNat 32 overhead })

/-- `ikcp_interval`. -/
def setInterval (interval : ℤ) : Ikcpcb :=
  let interval := if interval > 5000 then 5000 else if interval < 10 then 10 else interval
  { kcp with interval := BitVec.ofInt 32 interval }

/-- `ikcp_waitsnd`. -/
def waitsnd : ℤ := kcp.sndBuf.length + kcp.sndQueue.length

/-- A call of the program. -/
def call : Call → Reply × Ikcpcb
  | .send buffer len => let r := kcp.send buffer len; ({ ret := r.1 }, r.2)
  | .recv len => let r := kcp.recv len; ({ ret := r.1, data := r.2.1 }, r.2.2)
  | .peeksize => ({ ret := kcp.peeksize }, kcp)
  | .input data => let r := kcp.input data; ({ ret := r.1 }, r.2)
  | .update current => let r := kcp.update current; ({ ret := 0, out := r.2 }, r.1)
  | .check current => ({ ret := (kcp.check current).toNat }, kcp)
  | .flush => let r := kcp.flush; ({ ret := 0, out := r.2 }, r.1)
  | .setmtu mtu => let r := kcp.setmtu mtu; ({ ret := r.1 }, r.2)
  | .interval interval => ({ ret := 0 }, kcp.setInterval interval)
  | .nodelay nodelay interval resend nc =>
    ({ ret := 0 }, kcp.setNodelay nodelay interval resend nc)
  | .wndsize sndwnd rcvwnd => ({ ret := 0 }, kcp.wndsize sndwnd rcvwnd)
  | .waitsnd => ({ ret := kcp.waitsnd }, kcp)

/-- The replies to a sequence of calls. -/
def replies : Ikcpcb → List Call → List Reply
  | _, [] => []
  | kcp, c :: cs => (kcp.call c).1 :: replies (kcp.call c).2 cs

/-- The control block after a sequence of calls. -/
def calls (cs : List Call) : Ikcpcb := cs.foldl (fun kcp c => (kcp.call c).2) kcp

/-! ## The mark of a dead link -/

/-- The control block without the mark, the number of segments sent again and the limit. -/
def unmarked : Ikcpcb := { kcp with state := 0, xmit := 0, deadLink := 0 }

theorem unmarked_unmarked : kcp.unmarked.unmarked = kcp.unmarked := rfl

theorem send_unmarked (buffer : Bytes) (len : ℤ) : kcp.unmarked.send buffer len =
    ((kcp.send buffer len).1, (kcp.send buffer len).2.unmarked) := by
  have hcount : kcp.unmarked.sendCount len.toNat = kcp.sendCount len.toNat := rfl
  unfold send
  dsimp only
  rw [hcount]
  split_ifs <;> rfl

theorem dropMerged_unmarked (ispeek : Bool) :
    kcp.unmarked.dropMerged ispeek = (kcp.dropMerged ispeek).unmarked := by
  cases ispeek <;> rfl

theorem fastRecover_unmarked (recover : Bool) :
    kcp.unmarked.fastRecover recover = (kcp.fastRecover recover).unmarked := by
  unfold fastRecover
  rw [apply_ite unmarked]
  rfl

theorem recv_unmarked (len : ℤ) : kcp.unmarked.recv len =
    ((kcp.recv len).1, (kcp.recv len).2.1, (kcp.recv len).2.2.unmarked) := by
  have hpeek : kcp.unmarked.peeksize = kcp.peeksize := rfl
  have hque : kcp.unmarked.rcvQueue = kcp.rcvQueue := rfl
  have hmove (kcp : Ikcpcb) : kcp.unmarked.moveAvailable = kcp.moveAvailable.unmarked := rfl
  have hfull : decide (kcp.unmarked.nrcvQue ≥ kcp.unmarked.rcvWnd.toNat) =
      decide (kcp.nrcvQue ≥ kcp.rcvWnd.toNat) := rfl
  unfold recv
  rw [hpeek, hque, hfull]
  split_ifs
  · rfl
  · rfl
  · rfl
  · dsimp only
    rw [dropMerged_unmarked, hmove, fastRecover_unmarked]

theorem updateAck_unmarked (rtt : ℤ) :
    kcp.unmarked.updateAck rtt = (kcp.updateAck rtt).unmarked := by
  have hsrtt : kcp.unmarked.rxSrtt = kcp.rxSrtt := rfl
  unfold updateAck
  dsimp only
  rw [hsrtt]
  split_ifs <;> rfl

theorem inputAck_unmarked (seg : Ikcpseg) :
    kcp.unmarked.inputAck seg = (kcp.inputAck seg).unmarked := by
  have hrtt : itimediff kcp.unmarked.current seg.ts = itimediff kcp.current seg.ts := rfl
  have hack (kcp : Ikcpcb) : (kcp.unmarked.parseAck seg.sn).shrinkBuf =
      (kcp.parseAck seg.sn).shrinkBuf.unmarked := by
    have hite : kcp.unmarked.parseAck seg.sn = (kcp.parseAck seg.sn).unmarked := by
      unfold parseAck
      rw [apply_ite unmarked]
      rfl
    rw [hite]
    rfl
  unfold inputAck
  dsimp only
  rw [hrtt]
  split_ifs
  · rw [updateAck_unmarked, hack]
  · exact hack kcp

theorem parseData_unmarked (seg : Ikcpseg) :
    kcp.unmarked.parseData seg = (kcp.parseData seg).unmarked := by
  have hwnd : kcp.unmarked.rcvNxt = kcp.rcvNxt ∧ kcp.unmarked.rcvWnd = kcp.rcvWnd ∧
      kcp.unmarked.rcvBuf = kcp.rcvBuf := ⟨rfl, rfl, rfl⟩
  unfold parseData
  rw [hwnd.1, hwnd.2.1, hwnd.2.2]
  split_ifs
  · rfl
  · dsimp only
    cases insertLoop seg kcp.rcvBuf.reverse <;> rfl

theorem inputPush_unmarked (seg : Ikcpseg) :
    kcp.unmarked.inputPush seg = (kcp.inputPush seg).unmarked := by
  have hack : kcp.unmarked.ackPush seg.sn seg.ts = (kcp.ackPush seg.sn seg.ts).unmarked := rfl
  have hwnd : kcp.unmarked.rcvNxt = kcp.rcvNxt ∧ kcp.unmarked.rcvWnd = kcp.rcvWnd := ⟨rfl, rfl⟩
  have hnxt : (kcp.ackPush seg.sn seg.ts).unmarked.rcvNxt = kcp.rcvNxt ∧
      (kcp.ackPush seg.sn seg.ts).rcvNxt = kcp.rcvNxt := ⟨rfl, rfl⟩
  unfold inputPush
  dsimp only
  rw [hack, hwnd.1, hwnd.2, hnxt.1, hnxt.2]
  split_ifs
  · exact parseData_unmarked _ seg
  · rfl
  · rfl

theorem inputSegment_unmarked (seg : Ikcpseg) :
    kcp.unmarked.inputSegment seg = (kcp.inputSegment seg).unmarked := by
  have hpre : (({ kcp.unmarked with rmtWnd := seg.wnd } : Ikcpcb).parseUna seg.una).shrinkBuf =
      ((({ kcp with rmtWnd := seg.wnd } : Ikcpcb).parseUna seg.una).shrinkBuf).unmarked := rfl
  unfold inputSegment
  dsimp only
  rw [hpre]
  split_ifs
  · exact inputAck_unmarked _ seg
  · exact inputPush_unmarked _ seg
  · rfl
  · rfl

theorem inputLoop_unmarked (data : Bytes) : kcp.unmarked.inputLoop data =
    ((kcp.inputLoop data).1, (kcp.inputLoop data).2.unmarked) := by
  have hconv (kcp : Ikcpcb) : kcp.unmarked.conv = kcp.conv := rfl
  fun_induction inputLoop kcp data with
  | case1 kcp data hshort =>
    unfold inputLoop
    rw [if_pos hshort]
  | case2 kcp data hshort hd hother =>
    unfold inputLoop
    dsimp only
    rw [if_neg hshort, hconv, if_pos hother]
  | case3 kcp data hshort hd len hconv' hlen =>
    unfold inputLoop
    dsimp only
    rw [if_neg hshort, hconv, if_neg hconv', if_pos hlen]
  | case4 kcp data hshort hd len hconv' hlen hcmd =>
    unfold inputLoop
    dsimp only
    rw [if_neg hshort, hconv, if_neg hconv', if_neg hlen, if_pos hcmd]
  | case5 kcp data hshort hd len hconv' hlen hcmd ih =>
    rw [inputLoop]
    dsimp only
    rw [if_neg hshort, hconv, if_neg hconv', if_neg hlen, if_neg hcmd, inputSegment_unmarked]
    exact ih

theorem growCwnd_unmarked (una : U32) :
    kcp.unmarked.growCwnd una = (kcp.growCwnd una).unmarked := by
  have hstep (kcp : Ikcpcb) : kcp.unmarked.stepCwnd = kcp.stepCwnd.unmarked := by
    unfold stepCwnd
    rw [apply_ite unmarked]
    rfl
  have hfields (kcp : Ikcpcb) : kcp.unmarked.sndUna = kcp.sndUna ∧
      kcp.unmarked.cwnd = kcp.cwnd ∧ kcp.unmarked.rmtWnd = kcp.rmtWnd := ⟨rfl, rfl, rfl⟩
  unfold growCwnd
  dsimp only
  rw [hstep, (hfields kcp).1, (hfields kcp).2.1, (hfields kcp).2.2, (hfields kcp.stepCwnd).2.1,
    (hfields kcp.stepCwnd).2.2]
  split_ifs <;> rfl

theorem input_unmarked (data : Bytes) : kcp.unmarked.input data =
    ((kcp.input data).1, (kcp.input data).2.unmarked) := by
  have huna : kcp.unmarked.sndUna = kcp.sndUna := rfl
  unfold input
  dsimp only
  rw [inputLoop_unmarked, huna]
  split_ifs
  · rfl
  · rfl
  · exact congrArg (Prod.mk 0) (growCwnd_unmarked _ _)

/-! ## Flushing -/

/-- The loop over `snd_buf` writes the mark only. -/
theorem flushData_unmarked (wnd resent rtomin : U32) (buf : List Ikcpseg) (acc acc' : FlushAcc)
    (hbuf : acc'.buf = acc.buf) (hchange : acc'.change = acc.change)
    (hlost : acc'.lost = acc.lost) :
    (flushData kcp.unmarked wnd resent rtomin buf acc').1 =
        (flushData kcp wnd resent rtomin buf acc).1 ∧
      (flushData kcp.unmarked wnd resent rtomin buf acc').2.buf =
        (flushData kcp wnd resent rtomin buf acc).2.buf ∧
      (flushData kcp.unmarked wnd resent rtomin buf acc').2.change =
        (flushData kcp wnd resent rtomin buf acc).2.change ∧
      (flushData kcp.unmarked wnd resent rtomin buf acc').2.lost =
        (flushData kcp wnd resent rtomin buf acc).2.lost := by
  induction buf generalizing acc acc' with
  | nil => exact ⟨rfl, hbuf, hchange, hlost⟩
  | cons seg p ih =>
    have hresend : resendSegment kcp.unmarked resent rtomin seg =
        resendSegment kcp resent rtomin seg := rfl
    have hround : (flushSegment kcp.unmarked wnd resent rtomin seg acc').1 =
          (flushSegment kcp wnd resent rtomin seg acc).1 ∧
        (flushSegment kcp.unmarked wnd resent rtomin seg acc').2.buf =
          (flushSegment kcp wnd resent rtomin seg acc).2.buf ∧
        (flushSegment kcp.unmarked wnd resent rtomin seg acc').2.change =
          (flushSegment kcp wnd resent rtomin seg acc).2.change ∧
        (flushSegment kcp.unmarked wnd resent rtomin seg acc').2.lost =
          (flushSegment kcp wnd resent rtomin seg acc).2.lost := by
      unfold flushSegment
      rw [hresend]
      cases resendSegment kcp resent rtomin seg with
      | none => exact ⟨rfl, hbuf, hchange, hlost⟩
      | some seg =>
        dsimp only
        rw [hbuf, hchange, hlost]
        exact ⟨rfl, rfl, rfl, rfl⟩
    obtain ⟨hseg, hbuf', hchange', hlost'⟩ := hround
    obtain ⟨hrest, hacc⟩ := ih _ _ hbuf' hchange' hlost'
    refine ⟨?_, hacc⟩
    unfold flushData
    dsimp only
    rw [hseg, hrest]

theorem probeWindow_unmarked : kcp.unmarked.probeWindow = kcp.probeWindow.unmarked := by
  have hfields : kcp.unmarked.rmtWnd = kcp.rmtWnd ∧ kcp.unmarked.probeWait = kcp.probeWait ∧
      kcp.unmarked.current = kcp.current ∧ kcp.unmarked.tsProbe = kcp.tsProbe :=
    ⟨rfl, rfl, rfl, rfl⟩
  unfold probeWindow
  rw [hfields.1, hfields.2.1, hfields.2.2.1, hfields.2.2.2]
  split_ifs <;> rfl

/-- The end of a flush changes the congestion window, by what has happened in the loop. -/
theorem flushEnd_unmarked (resent cwnd : U32) (change : ℕ) (lost : Bool) :
    ((kcp.unmarked.onChange resent change).onLost cwnd lost).minCwnd =
      (((kcp.onChange resent change).onLost cwnd lost).minCwnd).unmarked := by
  have hchange : kcp.unmarked.onChange resent change = (kcp.onChange resent change).unmarked := by
    unfold onChange
    rw [apply_ite unmarked]
    rfl
  have hlost (kcp : Ikcpcb) : kcp.unmarked.onLost cwnd lost = (kcp.onLost cwnd lost).unmarked := by
    cases lost <;> rfl
  have hmin (kcp : Ikcpcb) : kcp.unmarked.minCwnd = kcp.minCwnd.unmarked := by
    unfold minCwnd
    rw [apply_ite unmarked]
    rfl
  rw [hchange, hlost, hmin]

theorem moveToBuf_unmarked (wnd cwnd : U32) (que buf : List Ikcpseg) (nxt : U32) :
    moveToBuf kcp.unmarked wnd cwnd que buf nxt = moveToBuf kcp wnd cwnd que buf nxt := by
  induction que generalizing buf nxt with
  | nil => rfl
  | cons newseg que ih =>
    have huna : kcp.unmarked.sndUna = kcp.sndUna := rfl
    unfold moveToBuf
    rw [huna]
    split_ifs
    · exact ih _ _
    · rfl

theorem flush_unmarked : (kcp.unmarked.flush.1).unmarked = kcp.flush.1.unmarked ∧
    kcp.unmarked.flush.2 = kcp.flush.2 := by
  by_cases hu : kcp.updated = 0
  · have hu' : kcp.unmarked.updated = 0 := hu
    unfold flush
    rw [if_pos hu, if_pos hu']
    exact ⟨rfl, rfl⟩
  · have hu' : kcp.unmarked.updated ≠ 0 := hu
    have hacks : ({ kcp.unmarked with acklist := [] } : Ikcpcb).probeWindow =
        ({ kcp with acklist := [] } : Ikcpcb).probeWindow.unmarked :=
      probeWindow_unmarked { kcp with acklist := [] }
    have hpre : kcp.unmarked.preamble = kcp.preamble := by
      unfold preamble
      rw [hacks]
      rfl
    have hprobed : kcp.unmarked.probed = kcp.probed.unmarked := by
      unfold probed
      rw [hacks]
      rfl
    have hload : kcp.unmarked.loaded = kcp.loaded.unmarked := by
      unfold loaded
      dsimp only
      rw [hprobed, moveToBuf_unmarked]
      rfl
    obtain ⟨hbuf, hout, hchange, hlost⟩ := kcp.loaded.flushData_unmarked kcp.wndUnused
      kcp.loaded.resent kcp.loaded.rtomin kcp.loaded.sndBuf
      ⟨kcp.preamble, kcp.loaded.xmit, kcp.loaded.state, 0, false⟩
      ⟨kcp.preamble, 0, 0, 0, false⟩ rfl rfl rfl
    have hflushed : kcp.unmarked.flushed = flushData kcp.loaded.unmarked kcp.wndUnused
        kcp.loaded.resent kcp.loaded.rtomin kcp.loaded.sndBuf ⟨kcp.preamble, 0, 0, 0, false⟩ := by
      unfold flushed
      rw [hpre, hload]
      rfl
    rw [← hflushed] at hbuf hout hchange hlost
    have hcwnd : kcp.probed.unmarked.flushCwnd = kcp.probed.flushCwnd := rfl
    have hresent : kcp.loaded.unmarked.resent = kcp.loaded.resent := rfl
    rw [kcp.flush_eq hu, kcp.unmarked.flush_eq hu', hload, hprobed, hcwnd, hresent, hchange, hlost]
    refine ⟨?_, congrArg FlushBuf.output hout⟩
    rw [← flushEnd_unmarked, ← flushEnd_unmarked]
    have hlast {buf buf' : List Ikcpseg} (he : buf' = buf) (xmit xmit' state state' : U32)
        (kcp : Ikcpcb) :
        ({ kcp.unmarked with sndBuf := buf', xmit := xmit', state := state' } : Ikcpcb).unmarked =
          ({ kcp with sndBuf := buf, xmit := xmit, state := state } : Ikcpcb).unmarked := by
      rw [he]
      rfl
    exact congrArg (fun kcp' : Ikcpcb => ((kcp'.onChange kcp.loaded.resent
      kcp.flushed.2.change).onLost kcp.probed.flushCwnd kcp.flushed.2.lost).minCwnd)
      (hlast hbuf _ _ _ _ kcp.loaded)

/-- What an update does to the clock, and whether it flushes, is told by the timer. -/
theorem update_timer (current : U32) : ∃ u ts,
    (∀ kcp', timer kcp' = kcp.timer →
      kcp'.update current = ({ kcp' with current, updated := u, tsFlush := ts }).flush) ∨
    ∀ kcp', timer kcp' = kcp.timer →
      kcp'.update current = ({ kcp' with current, updated := u, tsFlush := ts }, []) := by
  have hself : itimediff current current = 0 := by
    rw [itimediff, serialDiff, BitVec.sub_self]
    rfl
  have hfields {kcp' : Ikcpcb} (h : timer kcp' = kcp.timer) : kcp'.interval = kcp.interval ∧
      kcp'.updated = kcp.updated ∧ kcp'.tsFlush = kcp.tsFlush := by
    simpa [timer] using h
  -- the time of the next flush, counted from `ts`
  let next (ts : U32) : U32 :=
    if itimediff current (ts + kcp.interval) ≥ 0 then current + kcp.interval else ts + kcp.interval
  by_cases hu : kcp.updated = 0
  · refine ⟨1, next current, Or.inl fun kcp' h => ?_⟩
    obtain ⟨hinterval, hu', -⟩ := hfields h
    unfold update
    simp only [hu', hu, hinterval, if_true, hself]
    rfl
  · by_cases hreset : itimediff current kcp.tsFlush ≥ 10000 ∨ itimediff current kcp.tsFlush < -10000
    · refine ⟨kcp.updated, next current, Or.inl fun kcp' h => ?_⟩
      obtain ⟨hinterval, hu', hts⟩ := hfields h
      unfold update
      simp only [hu', hu, hinterval, hts, if_false, hreset, if_true, ge_iff_le, le_refl]
      rfl
    · by_cases hslap : itimediff current kcp.tsFlush ≥ 0
      · refine ⟨kcp.updated, next kcp.tsFlush, Or.inl fun kcp' h => ?_⟩
        obtain ⟨hinterval, hu', hts⟩ := hfields h
        unfold update
        simp only [hu', hu, hinterval, hts, if_false, hreset, hslap, if_true]
        rfl
      · refine ⟨kcp.updated, kcp.tsFlush, Or.inr fun kcp' h => ?_⟩
        obtain ⟨hinterval, hu', hts⟩ := hfields h
        unfold update
        simp only [hu', hu, hinterval, hts, if_false, hreset, hslap]

theorem update_unmarked (current : U32) :
    (kcp.unmarked.update current).1.unmarked = (kcp.update current).1.unmarked ∧
      (kcp.unmarked.update current).2 = (kcp.update current).2 := by
  have htimer : kcp.unmarked.timer = kcp.timer := rfl
  obtain ⟨u, ts, h | h⟩ := kcp.update_timer current
  · rw [h _ htimer, h _ rfl]
    exact flush_unmarked { kcp with current, updated := u, tsFlush := ts }
  · rw [h _ htimer, h _ rfl]
    exact ⟨rfl, rfl⟩

/-- **The mark is never read**: a call on the control block without it returns the same. -/
theorem call_unmarked (c : Call) : (kcp.unmarked.call c).1 = (kcp.call c).1 ∧
    (kcp.unmarked.call c).2.unmarked = (kcp.call c).2.unmarked := by
  cases c with
  | send buffer len =>
    unfold call
    dsimp only
    rw [send_unmarked]
    exact ⟨rfl, rfl⟩
  | recv len =>
    unfold call
    dsimp only
    rw [recv_unmarked]
    exact ⟨rfl, rfl⟩
  | peeksize => exact ⟨rfl, rfl⟩
  | input data =>
    unfold call
    dsimp only
    rw [input_unmarked]
    exact ⟨rfl, rfl⟩
  | update current =>
    obtain ⟨hkcp, hout⟩ := kcp.update_unmarked current
    exact ⟨congrArg (Reply.mk 0 []) hout, hkcp⟩
  | check current => exact ⟨rfl, rfl⟩
  | flush =>
    obtain ⟨hkcp, hout⟩ := kcp.flush_unmarked
    exact ⟨congrArg (Reply.mk 0 []) hout, hkcp⟩
  | setmtu mtu =>
    unfold call setmtu
    dsimp only
    split_ifs <;> exact ⟨rfl, rfl⟩
  | interval interval => exact ⟨rfl, rfl⟩
  | nodelay nodelay interval resend nc =>
    unfold call setNodelay
    dsimp only
    split_ifs <;> exact ⟨rfl, rfl⟩
  | wndsize sndwnd rcvwnd =>
    unfold call wndsize
    dsimp only
    split_ifs <;> exact ⟨rfl, rfl⟩
  | waitsnd => exact ⟨rfl, rfl⟩

/-- **A dead link goes on**: two control blocks that differ in the mark, the number of segments sent
again and the limit return the same to every sequence of calls. -/
theorem replies_unmarked {kcp kcp' : Ikcpcb} (h : kcp'.unmarked = kcp.unmarked) (cs : List Call) :
    kcp'.replies cs = kcp.replies cs := by
  induction cs generalizing kcp kcp' with
  | nil => rfl
  | cons c cs ih =>
    obtain ⟨hreply, hrest⟩ := kcp.call_unmarked c
    obtain ⟨hreply', hrest'⟩ := kcp'.call_unmarked c
    rw [h] at hreply' hrest'
    unfold replies
    rw [← hreply', hreply, ih (hrest'.symm.trans hrest)]

/-- A segment that nobody acknowledges, sent ten times: the link is dead. -/
def deadCalls : List Call :=
  .send [1] 1 :: (List.range 11).map fun k => .update (BitVec.ofNat 32 (5000 * k))

theorem replies_unmarked_dead : ((create 1).calls deadCalls).state = 0xffffffff ∧
    ∀ cs, ((create 1).calls deadCalls).unmarked.replies cs =
      ((create 1).calls deadCalls).replies cs :=
  ⟨by decide +kernel, replies_unmarked (unmarked_unmarked _)⟩

end Ikcpcb

end LuaKcp.Ikcp
