import LuaKcp.Ikcp.Flush

/-!
# The two sides of a control block

A control block sends one stream and receives another. `recvSide` holds the fields that the
receiving of messages reads and writes, `sendSide` those that hold the segments to send. Timers,
round-trip estimates, windows and probes belong to neither: the lemmas here say which operations
leave which side unchanged, so that the invariants of one side are proved without the other.
-/

namespace LuaKcp.Ikcp

/-- The receiving side. -/
structure RecvSide where
  rcvNxt : U32
  rcvWnd : U32
  rcvQueue : List Ikcpseg
  rcvBuf : List Ikcpseg

/-- The sending side. -/
structure SendSide where
  conv : U32
  mtu : U32
  mss : U32
  sndNxt : U32
  sndQueue : List Ikcpseg
  sndBuf : List Ikcpseg

/-- What stays of a segment from the moment it is numbered: the fields set anew at every
transmission are blanked. -/
def content (seg : Ikcpseg) : Ikcpseg :=
  { conv := seg.conv, cmd := seg.cmd, frg := seg.frg, wnd := 0, ts := 0, sn := seg.sn, una := 0,
    data := seg.data }

theorem ackLoop_sublist (sn : U32) (buf : List Ikcpseg) :
    ((ackLoop sn buf).map content).Sublist (buf.map content) := by
  induction buf with
  | nil => exact .slnil
  | cons seg p ih =>
    unfold ackLoop
    split_ifs
    · exact List.sublist_cons_self _ _
    · exact ih.cons_cons (content seg)

namespace Ikcpcb

variable (kcp : Ikcpcb)

def recvSide : RecvSide := ⟨kcp.rcvNxt, kcp.rcvWnd, kcp.rcvQueue, kcp.rcvBuf⟩

def sendSide : SendSide :=
  ⟨kcp.conv, kcp.mtu, kcp.mss, kcp.sndNxt, kcp.sndQueue, kcp.sndBuf⟩

/-! ## The user side -/

@[simp] theorem recvSide_send (buffer : Bytes) (len : ℤ) :
    (kcp.send buffer len).2.recvSide = kcp.recvSide := by
  unfold send
  split_ifs
  · rfl
  · dsimp only
    split_ifs <;> rfl

@[simp] theorem sendSide_moveAvailable : kcp.moveAvailable.sendSide = kcp.sendSide := rfl

@[simp] theorem sendSide_dropMerged (ispeek : Bool) :
    (kcp.dropMerged ispeek).sendSide = kcp.sendSide := by
  unfold dropMerged
  split_ifs <;> rfl

@[simp] theorem sendSide_fastRecover (recover : Bool) :
    (kcp.fastRecover recover).sendSide = kcp.sendSide := by
  unfold fastRecover
  split_ifs <;> rfl

@[simp] theorem recvSide_fastRecover (recover : Bool) :
    (kcp.fastRecover recover).recvSide = kcp.recvSide := by
  unfold fastRecover
  split_ifs <;> rfl

@[simp] theorem sendSide_recv (len : ℤ) : (kcp.recv len).2.2.sendSide = kcp.sendSide := by
  unfold recv
  split_ifs <;> simp

/-! ## Input -/

@[simp] theorem recvSide_updateAck (rtt : ℤ) : (kcp.updateAck rtt).recvSide = kcp.recvSide := by
  unfold updateAck
  split_ifs <;> rfl

@[simp] theorem sendSide_updateAck (rtt : ℤ) : (kcp.updateAck rtt).sendSide = kcp.sendSide := by
  unfold updateAck
  split_ifs <;> rfl

@[simp] theorem recvSide_shrinkBuf : kcp.shrinkBuf.recvSide = kcp.recvSide := rfl

@[simp] theorem recvSide_parseAck (sn : U32) : (kcp.parseAck sn).recvSide = kcp.recvSide := by
  unfold parseAck
  split_ifs <;> rfl

@[simp] theorem recvSide_parseUna (una : U32) : (kcp.parseUna una).recvSide = kcp.recvSide := rfl

@[simp] theorem recvSide_inputAck (seg : Ikcpseg) : (kcp.inputAck seg).recvSide = kcp.recvSide := by
  unfold inputAck
  dsimp only
  split_ifs <;> simp

@[simp] theorem sendSide_parseData (seg : Ikcpseg) :
    (kcp.parseData seg).sendSide = kcp.sendSide := by
  unfold parseData
  split_ifs
  · rfl
  · dsimp only
    rw [sendSide_moveAvailable]
    cases insertLoop seg kcp.rcvBuf.reverse <;> rfl

@[simp] theorem sendSide_inputPush (seg : Ikcpseg) :
    (kcp.inputPush seg).sendSide = kcp.sendSide := by
  unfold inputPush
  dsimp only
  split_ifs
  · rw [sendSide_parseData]
    rfl
  · rfl
  · rfl

@[simp] theorem recvSide_growCwnd (una : U32) : (kcp.growCwnd una).recvSide = kcp.recvSide := by
  unfold growCwnd stepCwnd
  dsimp only
  split_ifs <;> rfl

@[simp] theorem sendSide_growCwnd (una : U32) : (kcp.growCwnd una).sendSide = kcp.sendSide := by
  unfold growCwnd stepCwnd
  dsimp only
  split_ifs <;> rfl

/-- `kcp'` has the sending side of `kcp`, but for segments that are gone from `snd_buf` and for
the fields of a segment that do not stay. -/
def Keeps (kcp' : Ikcpcb) : Prop :=
  kcp'.sendSide = { kcp.sendSide with sndBuf := kcp'.sndBuf } ∧
    (kcp'.sndBuf.map content).Sublist (kcp.sndBuf.map content)

theorem Keeps.refl : kcp.Keeps kcp := ⟨rfl, List.Sublist.refl _⟩

variable {kcp} in
theorem Keeps.trans {kcp₁ kcp₂ : Ikcpcb} (h₁ : kcp.Keeps kcp₁) (h₂ : kcp₁.Keeps kcp₂) :
    kcp.Keeps kcp₂ := by
  refine ⟨?_, h₂.2.trans h₁.2⟩
  rw [h₂.1, h₁.1]

variable {kcp} in
theorem Keeps.of_sendSide {kcp' : Ikcpcb} (h : kcp'.sendSide = kcp.sendSide) : kcp.Keeps kcp' := by
  have hbuf : kcp'.sndBuf = kcp.sndBuf := congrArg SendSide.sndBuf h
  refine ⟨?_, by rw [hbuf]⟩
  rw [h, hbuf]
  rfl

theorem keeps_parseUna (una : U32) : kcp.Keeps (kcp.parseUna una) :=
  ⟨rfl, (List.dropWhile_sublist _).map _⟩

theorem keeps_parseAck (sn : U32) : kcp.Keeps (kcp.parseAck sn) := by
  unfold parseAck
  split_ifs
  · exact .refl kcp
  · exact ⟨rfl, ackLoop_sublist sn kcp.sndBuf⟩

theorem keeps_inputAck (seg : Ikcpseg) : kcp.Keeps (kcp.inputAck seg) := by
  unfold inputAck
  dsimp only
  split_ifs
  · exact (Keeps.of_sendSide (sendSide_updateAck kcp _)).trans
      ((keeps_parseAck _ seg.sn).trans (.of_sendSide rfl))
  · exact (keeps_parseAck kcp seg.sn).trans (.of_sendSide rfl)

/-- A segment received deletes segments of `snd_buf`, and does nothing else to the sending side. -/
theorem keeps_inputSegment (seg : Ikcpseg) : kcp.Keeps (kcp.inputSegment seg) := by
  have h : kcp.Keeps (({ kcp with rmtWnd := seg.wnd }).parseUna seg.una).shrinkBuf :=
    keeps_parseUna { kcp with rmtWnd := seg.wnd } seg.una
  unfold inputSegment
  dsimp only
  split_ifs
  · exact h.trans (keeps_inputAck _ seg)
  · exact h.trans (.of_sendSide (sendSide_inputPush _ seg))
  · exact h
  · exact h

theorem keeps_inputLoop (data : Bytes) : kcp.Keeps (kcp.inputLoop data).2 := by
  fun_induction inputLoop kcp data with
  | case1 kcp data h => exact .refl kcp
  | case2 kcp data h => exact .refl kcp
  | case3 kcp data h => exact .refl kcp
  | case4 kcp data h => exact .refl kcp
  | case5 kcp data h hd len h₁ h₂ h₃ ih => exact (keeps_inputSegment kcp _).trans ih

/-- **Input keeps the sending side**, but for the segments of `snd_buf` it deletes. -/
theorem keeps_input (data : Bytes) : kcp.Keeps (kcp.input data).2 := by
  unfold input
  dsimp only
  split_ifs
  · exact .refl kcp
  · exact keeps_inputLoop kcp data
  · exact (keeps_inputLoop kcp data).trans (.of_sendSide (sendSide_growCwnd _ _))

/-! ## Flush and update -/

@[simp] theorem recvSide_probeWindow : kcp.probeWindow.recvSide = kcp.recvSide := by
  unfold probeWindow
  split_ifs <;> rfl

@[simp] theorem sendSide_probeWindow : kcp.probeWindow.sendSide = kcp.sendSide := by
  unfold probeWindow
  split_ifs <;> rfl

@[simp] theorem recvSide_onChange (resent : U32) (change : ℕ) :
    (kcp.onChange resent change).recvSide = kcp.recvSide := by
  unfold onChange
  split_ifs <;> rfl

@[simp] theorem sendSide_onChange (resent : U32) (change : ℕ) :
    (kcp.onChange resent change).sendSide = kcp.sendSide := by
  unfold onChange
  split_ifs <;> rfl

@[simp] theorem recvSide_onLost (cwnd : U32) (lost : Bool) :
    (kcp.onLost cwnd lost).recvSide = kcp.recvSide := by
  unfold onLost
  split_ifs <;> rfl

@[simp] theorem sendSide_onLost (cwnd : U32) (lost : Bool) :
    (kcp.onLost cwnd lost).sendSide = kcp.sendSide := by
  unfold onLost
  split_ifs <;> rfl

@[simp] theorem recvSide_minCwnd : kcp.minCwnd.recvSide = kcp.recvSide := by
  unfold minCwnd
  split_ifs <;> rfl

@[simp] theorem sendSide_minCwnd : kcp.minCwnd.sendSide = kcp.sendSide := by
  unfold minCwnd
  split_ifs <;> rfl

@[simp] theorem recvSide_flush : kcp.flush.1.recvSide = kcp.recvSide := by
  unfold flush
  split_ifs with h
  · rfl
  · simp only [recvSide_minCwnd, recvSide_onLost, recvSide_onChange]
    exact recvSide_probeWindow { kcp with acklist := [] }

/-- The control block when `ikcp_update` has looked at its timer, and whether it flushes. -/
def ticked (current : U32) : Ikcpcb × Bool :=
  let kcp₁ := { kcp with current := current }
  let kcp₂ := if kcp₁.updated = 0 then { kcp₁ with updated := 1, tsFlush := current } else kcp₁
  let slap₀ := itimediff current kcp₂.tsFlush
  let reset := slap₀ ≥ 10000 ∨ slap₀ < -10000
  let kcp₃ := if reset then { kcp₂ with tsFlush := current } else kcp₂
  let slap := if reset then 0 else slap₀
  let ts := kcp₃.tsFlush + kcp₃.interval
  let ts := if itimediff current ts ≥ 0 then current + kcp₃.interval else ts
  if slap ≥ 0 then ({ kcp₃ with tsFlush := ts }, true) else (kcp₃, false)

theorem update_ticked (current : U32) : kcp.update current =
    if (kcp.ticked current).2 then (kcp.ticked current).1.flush
    else ((kcp.ticked current).1, []) := by
  unfold update ticked
  dsimp only
  split_ifs <;> first | rfl | contradiction

/-- `ikcp_update` sets the clock and the flush timer. -/
theorem ticked_eq (current : U32) : ∃ u ts, u ≠ 0 ∧
    (kcp.ticked current).1 = { kcp with current := current, updated := u, tsFlush := ts } := by
  unfold ticked
  dsimp only
  by_cases hu : kcp.updated = 0
  · rw [if_pos hu]
    split_ifs <;> exact ⟨1, _, by decide, rfl⟩
  · rw [if_neg hu]
    split_ifs <;> exact ⟨kcp.updated, _, hu, rfl⟩

/-- `ikcp_update` flushes after the first call of it, if it flushes. -/
theorem update_flushes (current : U32) : ∃ u ts, u ≠ 0 ∧
    (kcp.update current = ({ kcp with current, updated := u, tsFlush := ts }).flush ∨
      kcp.update current = ({ kcp with current, updated := u, tsFlush := ts }, [])) := by
  obtain ⟨u, ts, hu, hticked⟩ := kcp.ticked_eq current
  refine ⟨u, ts, hu, ?_⟩
  rw [update_ticked, hticked]
  split_ifs
  · exact Or.inl rfl
  · exact Or.inr rfl

theorem update_eq (current : U32) :
    ∃ u ts, kcp.update current = ({ kcp with current, updated := u, tsFlush := ts }).flush ∨
      kcp.update current = ({ kcp with current, updated := u, tsFlush := ts }, []) := by
  obtain ⟨u, ts, -, h⟩ := kcp.update_flushes current
  exact ⟨u, ts, h⟩

@[simp] theorem recvSide_update (current : U32) :
    (kcp.update current).1.recvSide = kcp.recvSide := by
  obtain ⟨u, ts, h | h⟩ := kcp.update_eq current
  · rw [h, recvSide_flush]
    rfl
  · rw [h]
    rfl

/-! ## Parameters -/

/-- The parameters that no operation changes once they have been set. -/
structure Params where
  conv : U32
  mtu : U32
  mss : U32
  rcvWnd : U32

def params : Params := ⟨kcp.conv, kcp.mtu, kcp.mss, kcp.rcvWnd⟩

variable {kcp} in
theorem params_eq {kcp' : Ikcpcb} (h : kcp.Keeps kcp') (hw : kcp'.rcvWnd = kcp.rcvWnd) :
    kcp'.params = kcp.params := by
  have hs := h.1
  simp only [sendSide, SendSide.mk.injEq] at hs
  simp only [params, hs, hw]

variable {kcp} in
@[simp] theorem params_send (buffer : Bytes) (len : ℤ) :
    (kcp.send buffer len).2.params = kcp.params := by
  unfold send
  split_ifs
  · rfl
  · dsimp only
    split_ifs <;> rfl

@[simp] theorem params_recv (len : ℤ) : (kcp.recv len).2.2.params = kcp.params := by
  have hwnd : (kcp.recv len).2.2.rcvWnd = kcp.rcvWnd := by
    unfold recv dropMerged fastRecover
    dsimp only
    split_ifs <;> rfl
  exact params_eq (.of_sendSide (sendSide_recv kcp len)) hwnd

@[simp] theorem rcvWnd_parseData (seg : Ikcpseg) : (kcp.parseData seg).rcvWnd = kcp.rcvWnd := by
  unfold parseData
  split_ifs
  · rfl
  · dsimp only
    cases insertLoop seg kcp.rcvBuf.reverse <;> rfl

@[simp] theorem rcvWnd_inputSegment (seg : Ikcpseg) :
    (kcp.inputSegment seg).rcvWnd = kcp.rcvWnd := by
  unfold inputSegment inputPush
  dsimp only
  split_ifs
  · exact congrArg RecvSide.rcvWnd (recvSide_inputAck _ seg)
  · exact rcvWnd_parseData _ seg
  · rfl
  · rfl
  · rfl
  · rfl

@[simp] theorem params_input (data : Bytes) : (kcp.input data).2.params = kcp.params := by
  have hloop (data : Bytes) : (kcp.inputLoop data).2.rcvWnd = kcp.rcvWnd := by
    fun_induction inputLoop kcp data with
    | case1 kcp data h => rfl
    | case2 kcp data h => rfl
    | case3 kcp data h => rfl
    | case4 kcp data h => rfl
    | case5 kcp data h hd len h₁ h₂ h₃ ih => rw [ih, rcvWnd_inputSegment]
  refine params_eq (keeps_input kcp data) ?_
  unfold input
  dsimp only
  split_ifs
  · rfl
  · exact hloop data
  · exact (congrArg RecvSide.rcvWnd (recvSide_growCwnd _ _)).trans (hloop data)

@[simp] theorem params_flush : kcp.flush.1.params = kcp.params := by
  have hside : ∃ nxt que buf, kcp.flush.1.sendSide =
      { kcp.sendSide with sndNxt := nxt, sndQueue := que, sndBuf := buf } := by
    unfold flush
    split_ifs with h
    · exact ⟨_, _, _, rfl⟩
    · simp only [sendSide_minCwnd, sendSide_onLost, sendSide_onChange]
      have hp := sendSide_probeWindow { kcp with acklist := [] }
      simp only [sendSide, SendSide.mk.injEq] at hp ⊢
      exact ⟨_, _, _, hp.1, hp.2.1, hp.2.2.1, rfl, rfl, rfl⟩
  obtain ⟨nxt, que, buf, hside⟩ := hside
  have hwnd : kcp.flush.1.rcvWnd = kcp.rcvWnd := congrArg RecvSide.rcvWnd kcp.recvSide_flush
  simp only [sendSide, SendSide.mk.injEq] at hside
  simp only [params, hside, hwnd]

@[simp] theorem params_update (current : U32) : (kcp.update current).1.params = kcp.params := by
  obtain ⟨u, ts, h | h⟩ := kcp.update_eq current
  · rw [h, params_flush]
    rfl
  · rw [h]
    rfl

end Ikcpcb

end LuaKcp.Ikcp
