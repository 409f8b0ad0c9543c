import LuaKcp.Session.Buffers

/-!
# Retransmission timeouts

`ikcp_update_ack` computes the timeout from times that the other end has written into its
acknowledgements. Whatever these are, the timeout stays between `rx_minrto` and a minute, and the
delay of a segment grows by at most a minute with each transmission: the backoff is linear
(`backsOff_of_reaches`).
-/

namespace LuaKcp

open Ikcp

namespace Ikcp.Ikcpcb

variable (kcp : Ikcpcb)

/-- The transmissions after which the delay of a segment might leave the range of an `int`. -/
def xmitMax : ℕ := 35000

/-- The delay of a segment that has been transmitted: it is due that long after its last
transmission, the first time an eighth later unless `nodelay` is set. -/
structure Delayed (seg : Ikcpseg) : Prop where
  low : kcp.rxMinrto.toNat ≤ seg.rto.toNat
  high : seg.rto.toNat ≤ 60000 * seg.xmit.toNat
  due : seg.resendts = seg.ts + seg.rto +
    if seg.xmit = 1 ∧ kcp.nodelay = 0 then seg.rto.sshiftRight 3 else 0

/-- The timeout is in its range, and so is the delay of every segment transmitted. -/
structure BackedOff : Prop where
  minrto : 30 ≤ kcp.rxMinrto.toNat ∧ kcp.rxMinrto.toNat ≤ 100
  rto : kcp.rxMinrto.toNat ≤ kcp.rxRto.toNat ∧ kcp.rxRto.toNat ≤ 60000
  segs : ∀ seg ∈ kcp.sndBuf, 1 ≤ seg.xmit.toNat → seg.xmit.toNat ≤ xmitMax → kcp.Delayed seg

/-- The settings that the delays depend on, and the timeout. -/
def timeouts : U32 × U32 × U32 := (kcp.rxMinrto, kcp.nodelay, kcp.rxRto)

theorem ibound_mem {lower upper : U32} (h : lower.toNat ≤ upper.toNat) (middle : U32) :
    lower.toNat ≤ (ibound lower middle upper).toNat ∧
      (ibound lower middle upper).toNat ≤ upper.toNat := by
  have hmax : lower.toNat ≤ (imax lower middle).toNat := by
    unfold imax
    split_ifs with hge
    · exact le_rfl
    · exact (BitVec.lt_def.mp (BitVec.not_le.mp hge)).le
  unfold ibound imin
  split_ifs with hle
  · exact ⟨hmax, BitVec.le_def.mp hle⟩
  · exact ⟨h, le_rfl⟩

/-! ## The other operations -/

theorem timeouts_send (buffer : Bytes) (len : ℤ) :
    (kcp.send buffer len).2.timeouts = kcp.timeouts := by
  unfold send
  split_ifs
  · rfl
  · dsimp only
    split_ifs <;> rfl

theorem timeouts_recv (len : ℤ) : (kcp.recv len).2.2.timeouts = kcp.timeouts := by
  unfold recv dropMerged fastRecover
  dsimp only
  split_ifs <;> rfl

theorem timeouts_growCwnd (una : U32) : (kcp.growCwnd una).timeouts = kcp.timeouts := by
  unfold growCwnd stepCwnd
  dsimp only
  split_ifs <;> rfl

theorem timeouts_flush : kcp.flush.1.timeouts = kcp.timeouts := by
  have hend (kcp : Ikcpcb) (resent cwnd : U32) (change : ℕ) (lost : Bool) :
      ((kcp.onChange resent change).onLost cwnd lost).minCwnd.timeouts = kcp.timeouts := by
    unfold minCwnd onLost onChange
    split_ifs <;> rfl
  have hprobe (kcp : Ikcpcb) : kcp.probeWindow.timeouts = kcp.timeouts := by
    unfold probeWindow
    split_ifs <;> rfl
  by_cases hu : kcp.updated = 0
  · unfold flush
    rw [if_pos hu]
  · rw [kcp.flush_eq hu, hend]
    exact hprobe { kcp with acklist := [] }

/-- An acknowledgement sets the timeout, inside its range; nothing else in a datagram does. -/
theorem timeouts_inputSegment (seg : Ikcpseg) :
    (kcp.inputSegment seg).timeouts = kcp.timeouts ∨
      ∃ middle, (kcp.inputSegment seg).timeouts =
        (kcp.rxMinrto, kcp.nodelay, ibound kcp.rxMinrto middle rtoMax) := by
  have hpush (kcp : Ikcpcb) : (kcp.inputPush seg).timeouts = kcp.timeouts := by
    have hdata (kcp : Ikcpcb) : (kcp.parseData seg).timeouts = kcp.timeouts := by
      unfold parseData
      split_ifs
      · rfl
      · dsimp only
        cases insertLoop seg kcp.rcvBuf.reverse <;> rfl
    unfold inputPush
    dsimp only
    split_ifs
    · rw [hdata]
      rfl
    · rfl
    · rfl
  have hack (kcp : Ikcpcb) : (kcp.inputAck seg).timeouts = kcp.timeouts ∨
      ∃ middle, (kcp.inputAck seg).timeouts =
        (kcp.rxMinrto, kcp.nodelay, ibound kcp.rxMinrto middle rtoMax) := by
    have hparse (kcp : Ikcpcb) : (kcp.parseAck seg.sn).shrinkBuf.timeouts = kcp.timeouts := by
      unfold parseAck
      split_ifs <;> rfl
    unfold inputAck
    dsimp only
    split_ifs
    · rw [hparse]
      unfold updateAck
      dsimp only
      split_ifs <;> exact Or.inr ⟨_, rfl⟩
    · exact Or.inl (hparse kcp)
  unfold inputSegment
  dsimp only
  split_ifs
  · exact hack _
  · exact Or.inl (hpush _)
  · exact Or.inl rfl
  · exact Or.inl rfl

namespace BackedOff

variable {kcp} {kcp' : Ikcpcb}

/-- The segments left keep their delays. -/
theorem sublist (h : kcp.BackedOff)
    (hk : (kcp'.sndBuf.map timing).Sublist (kcp.sndBuf.map timing))
    (hset : kcp'.rxMinrto = kcp.rxMinrto) (hnodelay : kcp'.nodelay = kcp.nodelay)
    (hrto : kcp.rxMinrto.toNat ≤ kcp'.rxRto.toNat ∧ kcp'.rxRto.toNat ≤ 60000) :
    kcp'.BackedOff := by
  refine ⟨hset ▸ h.minrto, hset ▸ hrto, fun seg hseg hlow hhigh => ?_⟩
  obtain ⟨old, hold, he⟩ := List.mem_map.mp (hk.subset (List.mem_map_of_mem hseg))
  simp only [timing, Ikcpseg.mk.injEq] at he
  obtain ⟨-, -, -, -, hts, -, -, hresendts, hseg, -, hxmit, -⟩ := he
  obtain ⟨h₁, h₂, h₃⟩ := h.segs old hold (hxmit ▸ hlow) (hxmit ▸ hhigh)
  refine ⟨?_, ?_, ?_⟩
  · rw [hset, ← hseg]
    exact h₁
  · rw [← hseg, ← hxmit]
    exact h₂
  · rw [← hresendts, ← hts, ← hseg, ← hxmit, hnodelay]
    exact h₃

theorem of_timeouts (h : kcp.BackedOff)
    (hk : (kcp'.sndBuf.map timing).Sublist (kcp.sndBuf.map timing))
    (ht : kcp'.timeouts = kcp.timeouts) : kcp'.BackedOff := by
  simp only [timeouts, Prod.mk.injEq] at ht
  obtain ⟨hset, hnodelay, hrto⟩ := ht
  exact h.sublist hk hset hnodelay (hrto ▸ h.rto)

theorem inputSegment (h : kcp.BackedOff) (seg : Ikcpseg) : (kcp.inputSegment seg).BackedOff := by
  rcases kcp.timeouts_inputSegment seg with ht | ⟨middle, ht⟩
  · exact h.of_timeouts (kcp.trims_inputSegment seg).2 ht
  · simp only [timeouts, Prod.mk.injEq] at ht
    obtain ⟨hset, hnodelay, hrto⟩ := ht
    have hmax : rtoMax.toNat = 60000 := rfl
    have hle : kcp.rxMinrto.toNat ≤ rtoMax.toNat := by
      have := h.minrto
      omega
    refine h.sublist (kcp.trims_inputSegment seg).2 hset hnodelay ?_
    rw [hrto]
    exact ibound_mem hle middle

theorem input (h : kcp.BackedOff) (data : Bytes) : (kcp.input data).2.BackedOff :=
  input_rule (P := BackedOff) (fun _ seg _ hk => hk.inputSegment seg)
    (fun kcp una hk => hk.of_timeouts (Trims.of_sendSide (kcp.sendSide_growCwnd una)).2
      (kcp.timeouts_growCwnd una)) h data

/-- **A transmission** delays the segment by one more timeout at most. -/
theorem transmit (h : kcp.BackedOff) {seg seg' : Ikcpseg}
    (hseg : 1 ≤ seg.xmit.toNat → seg.xmit.toNat ≤ xmitMax → kcp.Delayed seg)
    (ht : kcp.transmit seg = some seg') (hhigh : seg'.xmit.toNat ≤ xmitMax)
    (hlow : 1 ≤ seg'.xmit.toNat) : kcp.Delayed seg' := by
  have hrto := h.rto
  have hmin := h.minrto
  have hone : (1 : U32).toNat = 1 := rfl
  -- one transmission more
  have hcount {n : U32} (hne : n ≠ 0) (hlow : 1 ≤ (n + 1).toNat) :
      (n + 1).toNat = n.toNat + 1 ∧ 1 ≤ n.toNat ∧ n + 1 ≠ 1 := by
    have hpos : n.toNat ≠ 0 := fun h0 => hne (BitVec.eq_of_toNat_eq h0)
    have hlt := n.isLt
    rw [BitVec.toNat_add, hone] at hlow ⊢
    refine ⟨by omega, by omega, fun he => ?_⟩
    have := congrArg BitVec.toNat he
    rw [BitVec.toNat_add, hone] at this
    omega
  -- the delay after a timeout, `delta` being the timeout or half of it
  have htimeout {delta : U32} (hne : seg.xmit ≠ 0) (hdelta : delta.toNat ≤ 60000)
      (hlow : 1 ≤ (seg.xmit + 1).toNat) (hhigh : (seg.xmit + 1).toNat ≤ xmitMax) :
      kcp.rxMinrto.toNat ≤ (seg.rto + delta).toNat ∧
        (seg.rto + delta).toNat ≤ 60000 * (seg.xmit + 1).toNat := by
    obtain ⟨hsucc, hpos, -⟩ := hcount hne hlow
    unfold xmitMax at hhigh
    obtain ⟨h₁, h₂, -⟩ := hseg hpos (by unfold xmitMax; omega)
    rw [hsucc, BitVec.toNat_add, Nat.mod_eq_of_lt (by omega)]
    exact ⟨by omega, by omega⟩
  -- from the second transmission on nothing is added to the delay
  have hdue {rto : U32} (hne : seg.xmit ≠ 0) (hlow : 1 ≤ (seg.xmit + 1).toNat) :
      kcp.current + rto = kcp.current + rto +
        if seg.xmit + 1 = 1 ∧ kcp.nodelay = 0 then rto.sshiftRight 3 else 0 := by
    have hnot : ¬ (seg.xmit + 1 = 1 ∧ kcp.nodelay = 0) := fun he => (hcount hne hlow).2.2 he.1
    rw [if_neg hnot]
    exact (BitVec.add_zero _).symm
  unfold Ikcpcb.transmit resendSegment at ht
  split_ifs at ht with hfresh htime hnodelay hfast
  · -- the first transmission
    obtain rfl := Option.some.inj ht
    have hxmit : seg.xmit + 1 = 1 := by
      rw [hfresh]
      rfl
    refine ⟨hrto.1, ?_, ?_⟩
    · change kcp.rxRto.toNat ≤ 60000 * (seg.xmit + 1).toNat
      rw [hxmit, hone]
      omega
    · change kcp.current + kcp.rxRto + kcp.rtomin = kcp.current + kcp.rxRto +
        if seg.xmit + 1 = 1 ∧ kcp.nodelay = 0 then kcp.rxRto.sshiftRight 3 else 0
      simp only [hxmit, true_and]
      rfl
  · obtain rfl := Option.some.inj ht
    obtain ⟨h₁, h₂⟩ := htimeout hfresh hrto.2 hlow hhigh
    exact ⟨h₁, h₂, hdue hfresh hlow⟩
  · obtain rfl := Option.some.inj ht
    have hhalf : (BitVec.ofInt 32 (kcp.rxRto.toInt.tdiv 2)).toNat ≤ 60000 := by
      rw [BitVec.toInt_eq_toNat_of_lt (by omega), BitVec.toNat_ofInt,
        Int.tdiv_eq_ediv_of_nonneg (Int.natCast_nonneg _)]
      omega
    obtain ⟨h₁, h₂⟩ := htimeout hfresh hhalf hlow hhigh
    exact ⟨h₁, h₂, hdue hfresh hlow⟩
  · -- overtaken: the delay stays
    obtain rfl := Option.some.inj ht
    have hnone : (0 : U32).toNat ≤ 60000 := Nat.zero_le _
    obtain ⟨h₁, h₂⟩ := htimeout hfresh hnone hlow hhigh
    have hzero : seg.rto + 0 = seg.rto := BitVec.add_zero seg.rto
    rw [hzero] at h₁ h₂
    exact ⟨h₁, h₂, hdue hfresh hlow⟩
  · exact absurd ht (by simp)

theorem flush (h : kcp.BackedOff) (hu : kcp.updated ≠ 0) : kcp.flush.1.BackedOff := by
  have ht := kcp.timeouts_flush
  simp only [timeouts, Prod.mk.injEq] at ht
  obtain ⟨hset, hnodelay, hrto⟩ := ht
  refine ⟨hset ▸ h.minrto, by rw [hset, hrto]; exact h.rto, fun seg hseg hlow hhigh => ?_⟩
  rw [kcp.sndBuf_flush hu] at hseg
  obtain ⟨old, hold, rfl⟩ := List.mem_map.mp hseg
  have hdelayed : 1 ≤ old.xmit.toNat → old.xmit.toNat ≤ xmitMax → kcp.Delayed old := by
    rcases kcp.mem_of_mem_loaded hold with hold | ⟨-, hxmit, -⟩
    · exact h.segs old hold
    · intro hlow
      rw [hxmit] at hlow
      exact absurd hlow (by decide)
  have hkept : kcp.Delayed (kcp.afterFlush old) := by
    unfold afterFlush at hlow hhigh ⊢
    cases htransmit : kcp.transmit old with
    | none =>
      rw [htransmit] at hlow hhigh
      exact hdelayed hlow hhigh
    | some seg =>
      rw [htransmit] at hlow hhigh
      exact h.transmit hdelayed htransmit hhigh hlow
  exact ⟨hset ▸ hkept.low, hkept.high, by rw [hnodelay]; exact hkept.due⟩

end BackedOff

/-- What the delays of the segments waiting for an acknowledgement are. -/
structure BacksOff : Prop where
  rto : kcp.rxMinrto.toNat ≤ kcp.rxRto.toNat ∧ kcp.rxRto.toNat ≤ 60000
  delay : ∀ seg ∈ kcp.sndBuf, 1 ≤ seg.xmit.toNat → seg.xmit.toNat ≤ xmitMax →
    kcp.rxMinrto.toNat ≤ seg.rto.toNat ∧ seg.rto.toNat ≤ 60000 * seg.xmit.toNat ∧
      (seg.resendts - seg.ts).toNat =
        seg.rto.toNat + if seg.xmit = 1 ∧ kcp.nodelay = 0 then seg.rto.toNat / 8 else 0

theorem BackedOff.backsOff {kcp : Ikcpcb} (h : kcp.BackedOff) : kcp.BacksOff := by
  refine ⟨h.rto, fun seg hseg hlow hhigh => ?_⟩
  obtain ⟨h₁, h₂, hdue⟩ := h.segs seg hseg hlow hhigh
  refine ⟨h₁, h₂, ?_⟩
  have hsub (delay : U32) : seg.ts + delay - seg.ts = delay := by
    rw [BitVec.add_comm, BitVec.add_sub_cancel]
  rw [hdue, BitVec.add_assoc, hsub]
  split_ifs with hfirst
  · -- the first delay is one timeout
    have hone : (1 : U32).toNat = 1 := rfl
    rw [hfirst.1, hone] at h₂
    have hmsb : seg.rto.msb = false := BitVec.msb_eq_false_iff_two_mul_lt.mpr (by omega)
    rw [BitVec.sshiftRight_eq_of_msb_false hmsb, BitVec.toNat_add, BitVec.toNat_ushiftRight,
      Nat.shiftRight_eq_div_pow]
    omega
  · have hzero : seg.rto + 0 = seg.rto := BitVec.add_zero seg.rto
    rw [hzero, Nat.add_zero]

end Ikcp.Ikcpcb

/-- The least timeout is one of the two that `ikcp_nodelay` sets. -/
theorem rxMinrto_madeWith (conv : U32) (sndwnd rcvwnd nodelay interval resend nc : ℤ) :
    30 ≤ (madeWith conv sndwnd rcvwnd nodelay interval resend nc).rxMinrto.toNat ∧
      (madeWith conv sndwnd rcvwnd nodelay interval resend nc).rxMinrto.toNat ≤ 100 := by
  rw [madeWith_eq]
  dsimp only
  split_ifs <;> decide

/-- **Linear backoff**: in every state that an endpoint reaches, whatever the other end writes into
its acknowledgements. -/
theorem backsOff_of_reaches {conv : U32} {sndwnd rcvwnd nodelay interval resend nc : ℤ}
    {s : Endpoint} (h : (endpointMadeWith conv sndwnd rcvwnd nodelay interval resend nc).Reaches
      Machine.anyStep s) : s.kcp.BacksOff := by
  refine Ikcpcb.BackedOff.backsOff (invariant_madeWith (P := Ikcpcb.BackedOff) ?_ ?_ ?_ ?_ ?_ ?_ h)
  · have hmin := rxMinrto_madeWith conv sndwnd rcvwnd nodelay interval resend nc
    rw [madeWith_eq] at hmin ⊢
    have hdef : 100 ≤ rtoDef.toNat ∧ rtoDef.toNat ≤ 60000 := by decide
    exact ⟨hmin, ⟨hmin.2.trans hdef.1, hdef.2⟩, fun seg hseg => absurd hseg List.not_mem_nil⟩
  · intro kcp buffer len hk
    have hbuf : (kcp.send buffer len).2.sndBuf = kcp.sndBuf := by
      unfold Ikcpcb.send
      dsimp only
      split_ifs <;> rfl
    exact hk.of_timeouts (by rw [hbuf]) (kcp.timeouts_send buffer len)
  · exact fun kcp len hk => hk.of_timeouts (Ikcpcb.Trims.of_sendSide (kcp.sendSide_recv len)).2
      (kcp.timeouts_recv len)
  · exact fun kcp data hk => hk.input data
  · exact fun kcp current u ts hk => ⟨hk.minrto, hk.rto, fun seg hseg hlow hhigh =>
      ⟨(hk.segs seg hseg hlow hhigh).low, (hk.segs seg hseg hlow hhigh).high,
        (hk.segs seg hseg hlow hhigh).due⟩⟩
  · exact fun kcp hu hk => hk.flush hu

/-- An acknowledgement with a time out of the past makes the timeout a minute; a segment has been
sent three times. -/
theorem backsOff_of_reaches_late : ∃ s, (endpointMadeWith 1 128 128 0 10 0 1).Reaches
    Machine.anyStep s ∧ s.kcp.rxRto = 60000 ∧ s.kcp.sndBuf.map Ikcpseg.xmit = [3] ∧
      s.kcp.BacksOff := by
  have h : ((endpointMadeWith 1 128 128 0 10 0 1).run (fun _ _ => true)
      (endpointMadeWith 1 128 128 0 10 0 1).init
      [.send [1], .update 100000, .input (encodeSegs
        [{ soleSegment 1 0 7 0 [] with cmd := cmdAck }]), .update 101000, .update 200000]).any
      (fun s => s.kcp.rxRto == 60000 && s.kcp.sndBuf.map Ikcpseg.xmit == [3]) = true := by
    decide +kernel
  obtain ⟨s, hrun, hs⟩ := Option.any_eq_true _ _ |>.mp h
  have hreach : (endpointMadeWith 1 128 128 0 10 0 1).Reaches Machine.anyStep s :=
    Machine.path_of_run (fun _ _ _ => trivial) _ hrun
  obtain ⟨hrto, hxmit⟩ := Bool.and_eq_true_iff.mp hs
  exact ⟨s, hreach, eq_of_beq hrto, eq_of_beq hxmit, backsOff_of_reaches hreach⟩

end LuaKcp
