import LuaKcp.Ikcp.Flush

/-!
# The flush timer

`ikcp_update` flushes by three fields of the control block, `interval`, `updated` and `ts_flush`.
Only a flush, and the update that makes it, changes them (`timer`). `ikcp_check` computes from them,
and from the times at which the segments of `snd_buf` are to be sent again, how long to wait.
-/

namespace LuaKcp.Ikcp

namespace Ikcpcb

variable (kcp : Ikcpcb)

/-- What `ikcp_update` decides by: `interval`, `updated` and `ts_flush`. -/
def timer : U32 × U32 × U32 := (kcp.interval, kcp.updated, kcp.tsFlush)

@[simp] theorem timer_send (buffer : Bytes) (len : ℤ) :
    (kcp.send buffer len).2.timer = kcp.timer := by
  unfold send
  split_ifs
  · rfl
  · dsimp only
    split_ifs <;> rfl

@[simp] theorem timer_recv (len : ℤ) : (kcp.recv len).2.2.timer = kcp.timer := by
  unfold recv dropMerged fastRecover
  dsimp only
  split_ifs <;> rfl

@[simp] theorem timer_inputAck (seg : Ikcpseg) : (kcp.inputAck seg).timer = kcp.timer := by
  unfold inputAck updateAck parseAck
  dsimp only
  split_ifs <;> rfl

@[simp] theorem timer_parseData (seg : Ikcpseg) : (kcp.parseData seg).timer = kcp.timer := by
  unfold parseData
  split_ifs
  · rfl
  · dsimp only
    cases insertLoop seg kcp.rcvBuf.reverse <;> rfl

@[simp] theorem timer_inputPush (seg : Ikcpseg) : (kcp.inputPush seg).timer = kcp.timer := by
  unfold inputPush
  dsimp only
  split_ifs
  · rw [timer_parseData]
    rfl
  · rfl
  · rfl

@[simp] theorem timer_inputSegment (seg : Ikcpseg) : (kcp.inputSegment seg).timer = kcp.timer := by
  unfold inputSegment
  dsimp only
  split_ifs
  · rw [timer_inputAck]
    rfl
  · rw [timer_inputPush]
    rfl
  · rfl
  · rfl

@[simp] theorem timer_growCwnd (una : U32) : (kcp.growCwnd una).timer = kcp.timer := by
  unfold growCwnd stepCwnd
  dsimp only
  split_ifs <;> rfl

@[simp] theorem timer_input (data : Bytes) : (kcp.input data).2.timer = kcp.timer := by
  have hloop : (kcp.inputLoop data).2.timer = kcp.timer := by
    fun_induction inputLoop kcp data with
    | case1 kcp data h => rfl
    | case2 kcp data h => rfl
    | case3 kcp data h => rfl
    | case4 kcp data h => rfl
    | case5 kcp data h hd len h₁ h₂ h₃ ih => rw [ih, timer_inputSegment]
  unfold input
  dsimp only
  split_ifs
  · rfl
  · exact hloop
  · rw [timer_growCwnd, hloop]

@[simp] theorem timer_flush : kcp.flush.1.timer = kcp.timer := by
  have hprobe : ({ kcp with acklist := [] } : Ikcpcb).probeWindow.timer = kcp.timer := by
    unfold probeWindow
    split_ifs <;> rfl
  have hcwnd (kcp : Ikcpcb) (resent : U32) (change : ℕ) (cwnd : U32) (lost : Bool) :
      ((kcp.onChange resent change).onLost cwnd lost).minCwnd.timer = kcp.timer := by
    unfold minCwnd onLost onChange
    split_ifs <;> rfl
  unfold flush
  split_ifs
  · rfl
  · dsimp only
    rw [hcwnd]
    exact hprobe

/-- An update keeps the interval. -/
theorem interval_update (current : U32) : (kcp.update current).1.interval = kcp.interval := by
  have hflush (kcp : Ikcpcb) : kcp.flush.1.interval = kcp.interval :=
    congrArg Prod.fst kcp.timer_flush
  unfold update
  dsimp only
  split_ifs <;> first | exact hflush _ | rfl

/-! ## How long to wait -/

/-- The loop of `ikcp_check` finds the shortest time until a segment is to be sent again, unless one
is due. -/
theorem checkLoop_cases (current : U32) (buf : List Ikcpseg) (tm : ℤ) :
    (checkLoop current buf tm = none ∧ ∃ seg ∈ buf, itimediff seg.resendts current ≤ 0) ∨
      ∃ tmPacket, checkLoop current buf tm = some tmPacket ∧ tmPacket ≤ tm ∧
        (∀ seg ∈ buf, 0 < itimediff seg.resendts current ∧
          tmPacket ≤ itimediff seg.resendts current) ∧
        (tmPacket = tm ∨ ∃ seg ∈ buf, tmPacket = itimediff seg.resendts current) := by
  induction buf generalizing tm with
  | nil => exact Or.inr ⟨tm, rfl, le_rfl, by simp, Or.inl rfl⟩
  | cons seg buf ih =>
    unfold checkLoop
    dsimp only
    by_cases hdue : itimediff seg.resendts current ≤ 0
    · rw [if_pos hdue]
      exact Or.inl ⟨rfl, seg, List.mem_cons_self, hdue⟩
    · rw [if_neg hdue]
      rcases ih (if itimediff seg.resendts current < tm then itimediff seg.resendts current else tm)
        with ⟨hnone, seg', hseg', hle⟩ | ⟨tmPacket, hsome, hle, hall, heq⟩
      · exact Or.inl ⟨hnone, seg', List.mem_cons_of_mem seg hseg', hle⟩
      · refine Or.inr ⟨tmPacket, hsome, ?_, fun seg' hseg' => ?_, ?_⟩
        · split_ifs at hle <;> omega
        · rcases List.mem_cons.mp hseg' with rfl | hseg'
          · split_ifs at hle <;> omega
          · exact hall seg' hseg'
        · rcases heq with heq | ⟨seg', hseg', heq⟩
          · split_ifs at heq
            · exact Or.inr ⟨seg, List.mem_cons_self, heq⟩
            · exact Or.inl heq
          · exact Or.inr ⟨seg', List.mem_cons_of_mem seg hseg', heq⟩

end Ikcpcb

end LuaKcp.Ikcp
