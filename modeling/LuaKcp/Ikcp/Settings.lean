import LuaKcp.Ikcp.Emission

/-!
# The settings of a control block

What `ikcp_wndsize` and `ikcp_nodelay` set, and no other operation changes. The loop of `ikcp_input`
is packaged as a rule: what every segment and the congestion window keep is kept by the whole
datagram (`input_rule`).
-/

namespace LuaKcp.Ikcp.Ikcpcb

variable (kcp : Ikcpcb)

/-- **The rule for input**: the windows read from the datagram have 16 bits. -/
theorem input_rule {P : Ikcpcb → Prop}
    (hseg : ∀ kcp seg, seg.wnd.toNat ≤ 65535 → P kcp → P (kcp.inputSegment seg))
    (hgrow : ∀ kcp una, P kcp → P (kcp.growCwnd una)) {kcp : Ikcpcb} (h : P kcp) (data : Bytes) :
    P (kcp.input data).2 := by
  have hloop : P (kcp.inputLoop data).2 := by
    fun_induction inputLoop kcp data with
    | case1 kcp data _ => exact h
    | case2 kcp data _ => exact h
    | case3 kcp data _ => exact h
    | case4 kcp data _ => exact h
    | case5 kcp data _ hd len _ _ _ ih =>
      exact ih (hseg _ _ (wnd_decodeHeader_le data) h)
  unfold input
  dsimp only
  split_ifs
  · exact h
  · exact hloop
  · exact hgrow _ _ hloop

/-- **The rule for genuine input**: what every segment of the datagram and the congestion window
keep is kept, and what one segment establishes and the others keep holds afterwards. -/
theorem input_encode_rule {P Q : Ikcpcb → Prop} {segs : List Ikcpseg} {seg : Ikcpseg}
    (hmem : seg ∈ segs)
    (hseg : ∀ kcp, P kcp → ∀ seg ∈ segs, P (kcp.inputSegment (onWire seg)))
    (hestablish : ∀ kcp, P kcp → Q (kcp.inputSegment (onWire seg)))
    (hkeep : ∀ kcp, P kcp → Q kcp → ∀ seg ∈ segs, Q (kcp.inputSegment (onWire seg)))
    (hgrow : ∀ kcp una, P kcp → Q kcp → P (kcp.growCwnd una) ∧ Q (kcp.growCwnd una))
    {kcp : Ikcpcb} (h : P kcp) (hsend : ∀ seg ∈ segs, Sendable kcp.conv seg) :
    P (kcp.input (encodeSegs segs)).2 ∧ Q (kcp.input (encodeSegs segs)).2 := by
  obtain ⟨before, after, rfl⟩ := List.append_of_mem hmem
  have hlen : ¬ (encodeSegs (before ++ seg :: after)).length < 24 := by
    simp only [encodeSegs_append, encodeSegs_cons, List.length_append, length_encodeSeg, overhead]
    omega
  have hbefore : P (before.foldl (fun kcp seg => kcp.inputSegment (onWire seg)) kcp) :=
    List.foldlRecOn before _ h fun kcp hk s hs => hseg kcp hk s (List.mem_append_left _ hs)
  have hafter : ∀ kcp, P kcp ∧ Q kcp →
      P (after.foldl (fun kcp seg => kcp.inputSegment (onWire seg)) kcp) ∧
        Q (after.foldl (fun kcp seg => kcp.inputSegment (onWire seg)) kcp) := fun kcp hk =>
    List.foldlRecOn (motive := fun kcp => P kcp ∧ Q kcp) after _ hk fun kcp hk s hs => by
      have hs : s ∈ before ++ seg :: after :=
        List.mem_append_right _ (List.mem_cons_of_mem seg hs)
      exact ⟨hseg kcp hk.1 s hs, hkeep kcp hk.1 hk.2 s hs⟩
  unfold input
  dsimp only
  rw [if_neg hlen, kcp.inputLoop_encode _ hsend, if_neg (by simp), List.foldl_append,
    List.foldl_cons]
  obtain ⟨hP, hQ⟩ := hafter _ ⟨hseg _ hbefore seg hmem, hestablish _ hbefore⟩
  exact hgrow _ _ hP hQ

/-- What the segments of a genuine datagram keep is kept. -/
theorem input_encode_invariant {P : Ikcpcb → Prop} {segs : List Ikcpseg}
    (hseg : ∀ kcp, P kcp → ∀ seg ∈ segs, P (kcp.inputSegment (onWire seg)))
    (hgrow : ∀ kcp una, P kcp → P (kcp.growCwnd una))
    {kcp : Ikcpcb} (h : P kcp) (hsend : ∀ seg ∈ segs, Sendable kcp.conv seg) :
    P (kcp.input (encodeSegs segs)).2 := by
  cases segs with
  | nil => exact h
  | cons seg segs =>
    exact (input_encode_rule (Q := fun _ => True) List.mem_cons_self hseg (fun _ _ => trivial)
      (fun _ _ _ _ _ => trivial) (fun kcp una hk _ => ⟨hgrow kcp una hk, trivial⟩) h hsend).1

/-- The settings. -/
structure Settings where
  sndWnd : U32
  interval : U32
  nodelay : U32
  rxMinrto : U32
  fastresend : U32
  nocwnd : U32
  deadLink : U32

def settings : Settings :=
  ⟨kcp.sndWnd, kcp.interval, kcp.nodelay, kcp.rxMinrto, kcp.fastresend, kcp.nocwnd, kcp.deadLink⟩

@[simp] theorem settings_send (buffer : Bytes) (len : ℤ) :
    (kcp.send buffer len).2.settings = kcp.settings := by
  unfold send
  split_ifs
  · rfl
  · dsimp only
    split_ifs <;> rfl

@[simp] theorem settings_recv (len : ℤ) : (kcp.recv len).2.2.settings = kcp.settings := by
  unfold recv dropMerged fastRecover
  dsimp only
  split_ifs <;> rfl

@[simp] theorem settings_inputAck (seg : Ikcpseg) :
    (kcp.inputAck seg).settings = kcp.settings := by
  unfold inputAck updateAck parseAck
  dsimp only
  split_ifs <;> rfl

@[simp] theorem settings_parseData (seg : Ikcpseg) :
    (kcp.parseData seg).settings = kcp.settings := by
  unfold parseData
  split_ifs
  · rfl
  · dsimp only
    cases insertLoop seg kcp.rcvBuf.reverse <;> rfl

@[simp] theorem settings_inputPush (seg : Ikcpseg) :
    (kcp.inputPush seg).settings = kcp.settings := by
  unfold inputPush
  dsimp only
  split_ifs
  · rw [settings_parseData]
    rfl
  · rfl
  · rfl

@[simp] theorem settings_inputSegment (seg : Ikcpseg) :
    (kcp.inputSegment seg).settings = kcp.settings := by
  unfold inputSegment
  dsimp only
  split_ifs
  · rw [settings_inputAck]
    rfl
  · rw [settings_inputPush]
    rfl
  · rfl
  · rfl

@[simp] theorem settings_growCwnd (una : U32) :
    (kcp.growCwnd una).settings = kcp.settings := by
  unfold growCwnd stepCwnd
  dsimp only
  split_ifs <;> rfl

@[simp] theorem settings_input (data : Bytes) : (kcp.input data).2.settings = kcp.settings :=
  input_rule (P := fun kcp' => kcp'.settings = kcp.settings)
    (fun kcp' seg _ h => (settings_inputSegment kcp' seg).trans h)
    (fun kcp' una h => (settings_growCwnd kcp' una).trans h) rfl data

@[simp] theorem settings_probeWindow : kcp.probeWindow.settings = kcp.settings := by
  unfold probeWindow
  split_ifs <;> rfl

theorem settings_probed : kcp.probed.settings = kcp.settings :=
  settings_probeWindow { kcp with acklist := [] }

/-- The end of a flush changes the congestion window only. -/
theorem settings_flushEnd (resent cwnd : U32) (change : ℕ) (lost : Bool) :
    ((kcp.onChange resent change).onLost cwnd lost).minCwnd.settings = kcp.settings := by
  unfold minCwnd onLost onChange
  split_ifs <;> rfl

@[simp] theorem settings_flush : kcp.flush.1.settings = kcp.settings := by
  by_cases hu : kcp.updated = 0
  · unfold flush
    rw [if_pos hu]
  · rw [kcp.flush_eq hu, settings_flushEnd]
    exact settings_probeWindow { kcp with acklist := [] }

end LuaKcp.Ikcp.Ikcpcb
