import LuaKcp.Ikcp.Probing
import LuaKcp.Session.Buffers

/-!
# The congestion window

`incr` counts the bytes that the congestion window may hold, and past `ssthresh` it grows by part of
a segment with each acknowledgement. But `ikcp_input` adds a segment to `cwnd` when `incr` is still
below the next one, not when it has reached it, and `incr` never gets ahead of `cwnd`: so `cwnd`
grows by one whole segment with each datagram that acknowledges something, in slow start and after
it (`congested_of_reaches`).
-/

namespace LuaKcp

open Ikcp

namespace Ikcp.Ikcpcb

variable (kcp : Ikcpcb)

/-- The congestion window and its threshold. -/
def congestion : U32 × U32 × U32 × U32 := (kcp.mss, kcp.ssthresh, kcp.cwnd, kcp.incr)

/-- `incr` is not ahead of `cwnd`, and holds two segments when `cwnd` does. -/
structure Congestion : Prop where
  mss : kcp.mss = 1376
  ssthresh : 2 ≤ kcp.ssthresh.toNat
  cwnd : kcp.cwnd.toNat ≤ 2 ^ 20
  high : kcp.incr.toNat ≤ kcp.cwnd.toNat * 1376
  first : 1 ≤ kcp.cwnd.toNat → 1376 ≤ kcp.incr.toNat
  second : 2 ≤ kcp.cwnd.toNat → 2752 ≤ kcp.incr.toNat

/-! ## Input -/

theorem congestion_send (buffer : Bytes) (len : ℤ) :
    (kcp.send buffer len).2.congestion = kcp.congestion := by
  unfold send
  split_ifs
  · rfl
  · dsimp only
    split_ifs <;> rfl

theorem congestion_recv (len : ℤ) : (kcp.recv len).2.2.congestion = kcp.congestion := by
  unfold recv dropMerged fastRecover
  dsimp only
  split_ifs <;> rfl

theorem congestion_inputSegment (seg : Ikcpseg) :
    (kcp.inputSegment seg).congestion = kcp.congestion := by
  have hdata (kcp : Ikcpcb) : (kcp.parseData seg).congestion = kcp.congestion := by
    unfold parseData
    split_ifs
    · rfl
    · dsimp only
      cases insertLoop seg kcp.rcvBuf.reverse <;> rfl
  have hpush (kcp : Ikcpcb) : (kcp.inputPush seg).congestion = kcp.congestion := by
    unfold inputPush
    dsimp only
    split_ifs
    · rw [hdata]
      rfl
    · rfl
    · rfl
  have hack (kcp : Ikcpcb) : (kcp.inputAck seg).congestion = kcp.congestion := by
    unfold inputAck updateAck parseAck
    dsimp only
    split_ifs <;> rfl
  unfold inputSegment
  dsimp only
  split_ifs
  · rw [hack]
    rfl
  · rw [hpush]
    rfl
  · rfl
  · rfl

theorem congestion_inputLoop (data : Bytes) :
    (kcp.inputLoop data).2.congestion = kcp.congestion ∧
      (kcp.rmtWnd.toNat ≤ 65535 → (kcp.inputLoop data).2.rmtWnd.toNat ≤ 65535) := by
  fun_induction inputLoop kcp data with
  | case1 kcp data _ => exact ⟨rfl, id⟩
  | case2 kcp data _ => exact ⟨rfl, id⟩
  | case3 kcp data _ => exact ⟨rfl, id⟩
  | case4 kcp data _ => exact ⟨rfl, id⟩
  | case5 kcp data _ hd len _ _ _ ih =>
    refine ⟨ih.1.trans (congestion_inputSegment kcp _), fun _ => ih.2 ?_⟩
    rw [rmtWnd_inputSegment]
    exact wnd_decodeHeader_le data

namespace Congestion

variable {kcp} {kcp' : Ikcpcb}

theorem congr (h : kcp.Congestion) (he : kcp'.congestion = kcp.congestion) : kcp'.Congestion := by
  simp only [congestion, Prod.mk.injEq] at he
  obtain ⟨hmss, hssthresh, hcwnd, hincr⟩ := he
  refine ⟨hmss.trans h.mss, ?_, ?_, ?_, ?_, ?_⟩
  · rw [hssthresh]
    exact h.ssthresh
  · rw [hcwnd]
    exact h.cwnd
  · rw [hincr, hcwnd]
    exact h.high
  · rw [hincr, hcwnd]
    exact h.first
  · rw [hincr, hcwnd]
    exact h.second

theorem of_values (hmss : kcp.mss = 1376) (hssthresh : 2 ≤ kcp.ssthresh.toNat) {c i : ℕ}
    (hc : kcp.cwnd.toNat = c) (hi : kcp.incr.toNat = i) (hcwnd : c ≤ 2 ^ 20) (hhigh : i ≤ c * 1376)
    (hfirst : 1 ≤ c → 1376 ≤ i) (hsecond : 2 ≤ c → 2752 ≤ i) : kcp.Congestion := by
  subst hc hi
  exact ⟨hmss, hssthresh, hcwnd, hhigh, hfirst, hsecond⟩

/-- A window of whole segments. -/
theorem of_segments (hmss : kcp.mss = 1376) (hssthresh : 2 ≤ kcp.ssthresh.toNat)
    (hcwnd : kcp.cwnd.toNat ≤ 2 ^ 20) (hincr : kcp.incr = kcp.cwnd * kcp.mss) :
    kcp.Congestion := by
  have hmss' : kcp.mss.toNat = 1376 := by
    rw [hmss]
    rfl
  have hbytes : kcp.incr.toNat = kcp.cwnd.toNat * 1376 := by
    rw [hincr, BitVec.toNat_mul, hmss', Nat.mod_eq_of_lt (by omega)]
  exact of_values hmss hssthresh rfl hbytes hcwnd le_rfl (by omega) (by omega)

/-- **One segment more**, in slow start and after it. -/
theorem stepCwnd (h : kcp.Congestion) (hlt : kcp.cwnd.toNat < 65535) :
    kcp.stepCwnd.Congestion ∧ kcp.stepCwnd.cwnd = kcp.cwnd + 1 := by
  have hssthresh := h.ssthresh
  have hhigh := h.high
  have hfirst := h.first
  have hsecond := h.second
  have hmss : kcp.mss.toNat = 1376 := by
    rw [h.mss]
    rfl
  have hone : (1 : U32).toNat = 1 := rfl
  have hnext : (kcp.cwnd + 1).toNat = kcp.cwnd.toNat + 1 := by
    rw [BitVec.toNat_add, hone, Nat.mod_eq_of_lt (by omega)]
  unfold Ikcpcb.stepCwnd
  by_cases hslow : kcp.cwnd < kcp.ssthresh
  · -- slow start
    have hincr : (kcp.incr + kcp.mss).toNat = kcp.incr.toNat + 1376 := by
      rw [BitVec.toNat_add, hmss, Nat.mod_eq_of_lt (by omega)]
    rw [if_pos hslow]
    exact ⟨of_values h.mss hssthresh hnext hincr (by omega) (by omega) (by omega)
      (by omega), rfl⟩
  · -- past the threshold `incr` grows by less than a segment
    have hcwnd : 2 ≤ kcp.cwnd.toNat := hssthresh.trans (BitVec.le_def.mp (BitVec.not_lt.mp hslow))
    have hbytes : ¬ kcp.incr < kcp.mss := by
      rw [BitVec.not_lt, BitVec.le_def, hmss]
      omega
    have hpart : (kcp.mss * kcp.mss / kcp.incr + kcp.mss / 16).toNat ≤ 774 := by
      have hsquare : (kcp.mss * kcp.mss).toNat = 1893376 := by
        rw [h.mss]
        rfl
      have hsixteenth : (kcp.mss / 16).toNat = 86 := by
        rw [h.mss]
        rfl
      have hdiv : (kcp.mss * kcp.mss / kcp.incr).toNat ≤ 688 := by
        rw [BitVec.toNat_udiv, hsquare]
        exact (Nat.div_le_div_left (hsecond hcwnd) (by norm_num)).trans (by norm_num)
      rw [BitVec.toNat_add, hsixteenth, Nat.mod_eq_of_lt (by omega)]
      omega
    have hincr : (kcp.incr + (kcp.mss * kcp.mss / kcp.incr + kcp.mss / 16)).toNat =
        kcp.incr.toNat + (kcp.mss * kcp.mss / kcp.incr + kcp.mss / 16).toNat := by
      rw [BitVec.toNat_add, Nat.mod_eq_of_lt (by omega)]
    have hroom : (kcp.cwnd + 1) * kcp.mss ≥
        kcp.incr + (kcp.mss * kcp.mss / kcp.incr + kcp.mss / 16) := by
      rw [ge_iff_le, BitVec.le_def, hincr, BitVec.toNat_mul, hnext, hmss,
        Nat.mod_eq_of_lt (by omega)]
      omega
    rw [if_neg hslow, if_neg hbytes]
    dsimp only
    rw [if_pos hroom]
    exact ⟨of_values h.mss hssthresh hnext hincr (by omega) (by omega) (by omega)
      (by omega), rfl⟩

/-- **An acknowledgement** of something new adds one segment, as long as the remote window is
wider. -/
theorem growCwnd (h : kcp.Congestion) (hrmt : kcp.rmtWnd.toNat ≤ 65535) (una : U32) :
    (kcp.growCwnd una).Congestion ∧ (kcp.growCwnd una).cwnd =
      if 0 < itimediff kcp.sndUna una ∧ kcp.cwnd < kcp.rmtWnd then kcp.cwnd + 1 else kcp.cwnd := by
  unfold Ikcpcb.growCwnd
  dsimp only
  by_cases hgrow : itimediff kcp.sndUna una > 0 ∧ kcp.cwnd < kcp.rmtWnd
  · have hlt := BitVec.lt_def.mp hgrow.2
    obtain ⟨hstep, hcwnd⟩ := h.stepCwnd (by omega)
    have hrmt' : kcp.stepCwnd.rmtWnd = kcp.rmtWnd := by
      unfold Ikcpcb.stepCwnd
      split_ifs <;> rfl
    -- one more segment is not above the remote window
    have hone : (1 : U32).toNat = 1 := rfl
    have hbelow : ¬ kcp.stepCwnd.cwnd > kcp.stepCwnd.rmtWnd := by
      rw [hcwnd, hrmt', gt_iff_lt, BitVec.lt_def, BitVec.toNat_add, hone,
        Nat.mod_eq_of_lt (by omega)]
      omega
    rw [if_pos hgrow, if_neg hbelow, if_pos hgrow]
    exact ⟨hstep, hcwnd⟩
  · rw [if_neg hgrow, if_neg hgrow]
    exact ⟨h, rfl⟩

theorem input (h : kcp.Congestion) (hrmt : kcp.rmtWnd.toNat ≤ 65535) (data : Bytes) :
    (kcp.input data).2.Congestion ∧ (kcp.input data).2.rmtWnd.toNat ≤ 65535 ∧
      (kcp.input data).2.cwnd =
        if 0 ≤ (kcp.input data).1 ∧ 0 < itimediff (kcp.input data).2.sndUna kcp.sndUna ∧
          kcp.cwnd < (kcp.input data).2.rmtWnd then kcp.cwnd + 1 else kcp.cwnd := by
  obtain ⟨hloop, hloopRmt⟩ := kcp.congestion_inputLoop data
  have hcwnd : (kcp.inputLoop data).2.cwnd = kcp.cwnd := congrArg (fun p => p.2.2.1) hloop
  unfold Ikcpcb.input
  dsimp only
  by_cases hshort : data.length < 24
  · simp only [if_pos hshort]
    have hself : itimediff kcp.sndUna kcp.sndUna = 0 := by
      rw [itimediff, serialDiff, BitVec.sub_self]
      rfl
    have hnot : ¬ ((0 : ℤ) ≤ 0 ∧ 0 < itimediff kcp.sndUna kcp.sndUna ∧ kcp.cwnd < kcp.rmtWnd) := by
      rw [hself]
      exact fun h => lt_irrefl 0 h.2.1
    rw [if_neg hnot]
    exact ⟨h, hrmt, rfl⟩
  simp only [if_neg hshort]
  by_cases hneg : (kcp.inputLoop data).1 < 0
  · simp only [if_pos hneg]
    have hnot : ¬ (0 ≤ (kcp.inputLoop data).1 ∧
        0 < itimediff (kcp.inputLoop data).2.sndUna kcp.sndUna ∧
          kcp.cwnd < (kcp.inputLoop data).2.rmtWnd) := fun h => absurd hneg (not_lt.mpr h.1)
    rw [if_neg hnot]
    exact ⟨h.congr hloop, hloopRmt hrmt, hcwnd⟩
  · simp only [if_neg hneg]
    obtain ⟨hgrown, hnext⟩ := (h.congr hloop).growCwnd (hloopRmt hrmt) kcp.sndUna
    have hpace := (kcp.inputLoop data).2.pace_growCwnd kcp.sndUna
    simp only [pace, Prod.mk.injEq] at hpace
    rw [hcwnd] at hnext
    rw [hpace.1, hpace.2]
    refine ⟨hgrown, hloopRmt hrmt, hnext.trans (if_congr ?_ rfl rfl)⟩
    exact (and_iff_right (le_refl (0 : ℤ))).symm

/-! ## Flush -/

/-- `ssthresh` is half of something, and two at least. -/
theorem half_le {n : U32} {m : ℕ} (hn : n.toNat ≤ 2 * m) (hm : 2 ≤ m) :
    2 ≤ (if n / 2 < threshMin then threshMin else n / 2).toNat ∧
      (if n / 2 < threshMin then threshMin else n / 2).toNat ≤ m := by
  have htwo : (2 : U32).toNat = 2 := rfl
  have hhalf : (n / 2).toNat = n.toNat / 2 := by rw [BitVec.toNat_udiv, htwo]
  split_ifs with hlt
  · exact ⟨le_rfl, hm⟩
  · have := BitVec.le_def.mp (BitVec.not_lt.mp hlt)
    change 2 ≤ (n / 2).toNat at this
    omega

/-- **Segments have been overtaken**: half of what is in flight, and what it takes to be overtaken;
without fast retransmission the latter is the largest number, and the sum one less. -/
theorem onChange (h : kcp.Congestion) (hflight : (kcp.sndNxt - kcp.sndUna).toNat ≤ 2 ^ 19)
    {resent : U32} (hresent : resent = 0xffffffff ∨ resent.toNat ≤ 2 ^ 19) (change : ℕ) :
    (kcp.onChange resent change).Congestion := by
  unfold Ikcpcb.onChange
  split_ifs
  · obtain ⟨hlow, hhigh⟩ :=
      half_le (m := 2 ^ 18) (n := kcp.sndNxt - kcp.sndUna) (by omega) (by omega)
    refine of_segments h.mss hlow ?_ rfl
    change ((if (kcp.sndNxt - kcp.sndUna) / 2 < threshMin then threshMin else
      (kcp.sndNxt - kcp.sndUna) / 2) + resent).toNat ≤ 2 ^ 20
    rw [BitVec.toNat_add]
    rcases hresent with rfl | hresent
    · have hmax : (0xffffffff : U32).toNat = 2 ^ 32 - 1 := rfl
      rw [hmax]
      omega
    · omega
  · exact h

theorem onLost (h : kcp.Congestion) (cwnd : U32) (lost : Bool) :
    (kcp.onLost cwnd lost).Congestion := by
  unfold Ikcpcb.onLost
  split_ifs
  · have hcwnd := cwnd.isLt
    refine of_segments h.mss (half_le (m := 2 ^ 31) (n := cwnd) (by omega) (by omega)).1 ?_ ?_
    · exact show (1 : U32).toNat ≤ 2 ^ 20 by decide
    · exact (BitVec.one_mul kcp.mss).symm
  · exact h

theorem minCwnd (h : kcp.Congestion) : kcp.minCwnd.Congestion ∧ 1 ≤ kcp.minCwnd.cwnd.toNat := by
  unfold Ikcpcb.minCwnd
  split_ifs with hlt
  · refine ⟨of_segments h.mss h.ssthresh ?_ ?_, ?_⟩
    · exact show (1 : U32).toNat ≤ 2 ^ 20 by decide
    · exact (BitVec.one_mul kcp.mss).symm
    · exact show 1 ≤ (1 : U32).toNat by decide
  · exact ⟨h, BitVec.le_def.mp (BitVec.not_lt.mp hlt)⟩

theorem flush (h : kcp.Congestion) (hu : kcp.updated ≠ 0)
    (hflight : (kcp.flush.1.sndNxt - kcp.flush.1.sndUna).toNat ≤ 2 ^ 19)
    (hresend : kcp.fastresend.toInt ≤ 0 ∨ kcp.fastresend.toNat ≤ 2 ^ 19) :
    kcp.flush.1.Congestion ∧ 1 ≤ kcp.flush.1.cwnd.toNat := by
  have hprobe (kcp : Ikcpcb) : kcp.probeWindow.congestion = kcp.congestion := by
    unfold probeWindow
    split_ifs <;> rfl
  have hfast : kcp.loaded.fastresend = kcp.fastresend :=
    congrArg Settings.fastresend kcp.settings_probed
  have hresent : kcp.loaded.resent = 0xffffffff ∨ kcp.loaded.resent.toNat ≤ 2 ^ 19 := by
    unfold Ikcpcb.resent
    rw [hfast]
    split_ifs with hpos
    · exact Or.inr (hresend.resolve_left (not_le.mpr hpos))
    · exact Or.inl rfl
  -- the end of the flush leaves the numbers alone
  have hend (kcp : Ikcpcb) (resent cwnd : U32) (change : ℕ) (lost : Bool) :
      ((kcp.onChange resent change).onLost cwnd lost).minCwnd.outstanding = kcp.outstanding := by
    unfold Ikcpcb.minCwnd Ikcpcb.onLost Ikcpcb.onChange
    split_ifs <;> rfl
  rw [kcp.flush_eq hu] at hflight ⊢
  dsimp only at hflight ⊢
  generalize hX : ({ kcp.loaded with
    sndBuf := kcp.flushed.1, xmit := kcp.flushed.2.xmit, state := kcp.flushed.2.state } :
      Ikcpcb) = X at hflight ⊢
  have hkept : X.Congestion := by
    subst hX
    exact h.congr (hprobe { kcp with acklist := [] })
  have hout := hend X kcp.loaded.resent kcp.probed.flushCwnd kcp.flushed.2.change
    kcp.flushed.2.lost
  simp only [outstanding, Prod.mk.injEq] at hout
  rw [hout.1, hout.2.1] at hflight
  exact ((hkept.onChange hflight hresent _).onLost _ _).minCwnd

end Congestion

/-- **The congestion window of the next calls**: a datagram that acknowledges something adds one
segment to it while the remote window is wider, and a flush leaves one segment at least. -/
structure Congested : Prop where
  grows : ∀ data, (kcp.input data).2.cwnd =
    if 0 ≤ (kcp.input data).1 ∧ 0 < itimediff (kcp.input data).2.sndUna kcp.sndUna ∧
      kcp.cwnd < (kcp.input data).2.rmtWnd then kcp.cwnd + 1 else kcp.cwnd
  flushed : kcp.updated ≠ 0 → 1 ≤ kcp.flush.1.cwnd.toNat
  ssthresh : 2 ≤ kcp.ssthresh.toNat
  bytes : kcp.incr.toNat ≤ kcp.cwnd.toNat * 1376
  bound : kcp.cwnd.toNat ≤ 2 ^ 20

end Ikcp.Ikcpcb

/-- The number of segments in flight. -/
theorem Ikcp.Ikcpcb.Outstanding.inFlight_le {kcp : Ikcpcb} {n : ℕ} {is : List ℕ}
    (h : kcp.Outstanding n is) : (kcp.sndNxt - kcp.sndUna).toNat ≤ kcp.sndWnd.toNat := by
  have hwidth := h.width
  have hlt := kcp.sndWnd.isLt
  have hahead := ahead_ofNat h.head_le (by omega)
  unfold ahead at hahead
  rw [h.una, h.nxt, hahead]
  omega

/-- What the congestion window depends on. -/
structure Ikcp.Ikcpcb.Controlled (kcp : Ikcpcb) : Prop where
  sndWnd : kcp.sndWnd.toNat ≤ 2 ^ 19
  fastresend : kcp.fastresend.toInt ≤ 0 ∨ kcp.fastresend.toNat ≤ 2 ^ 19
  rmtWnd : kcp.rmtWnd.toNat ≤ 65535
  outstanding : ∃ n is, kcp.Outstanding n is
  congestion : kcp.Congestion

namespace Ikcp.Ikcpcb.Controlled

variable {kcp kcp' : Ikcpcb}

theorem congr (h : kcp.Controlled) (hset : kcp'.settings = kcp.settings)
    (hpace : kcp'.rmtWnd.toNat ≤ 65535) (hout : ∃ n is, kcp'.Outstanding n is)
    (hcong : kcp'.Congestion) : kcp'.Controlled := by
  have hsnd : kcp'.sndWnd = kcp.sndWnd := congrArg Settings.sndWnd hset
  have hfast : kcp'.fastresend = kcp.fastresend := congrArg Settings.fastresend hset
  exact ⟨hsnd ▸ h.sndWnd, hfast ▸ h.fastresend, hpace, hout, hcong⟩

theorem start (conv : U32) {sndwnd resend : ℤ} (hsnd : sndwnd ≤ 2 ^ 19) (hresend : resend ≤ 2 ^ 19)
    (rcvwnd nodelay interval nc : ℤ) :
    (madeWith conv sndwnd rcvwnd nodelay interval resend nc).Controlled := by
  have hwnd := (windows_madeWith conv sndwnd rcvwnd (W := 2 ^ 19) (by norm_num) (by norm_num)
    nodelay interval resend nc).1 hsnd
  refine ⟨hwnd, ?_, ?_, ⟨0, [], outstanding_madeWith ..⟩, ?_⟩ <;> rw [madeWith_eq]
  · dsimp only
    split_ifs with hpos
    · refine Or.inr ?_
      rw [BitVec.toNat_ofInt, Int.emod_eq_of_lt hpos (by push_cast; omega)]
      omega
    · exact Or.inl le_rfl
  · exact show wndRcv.toNat ≤ 65535 by decide
  · exact .of_values rfl le_rfl (c := 0) (i := 0) rfl rfl (by omega) (by omega) (by omega)
      (by omega)

theorem flush (h : kcp.Controlled) (hu : kcp.updated ≠ 0) :
    kcp.flush.1.Controlled ∧ 1 ≤ kcp.flush.1.cwnd.toNat := by
  obtain ⟨n, is, hout⟩ := h.outstanding
  obtain ⟨k, -, hout', -⟩ := hout.flush (h.sndWnd.trans (by norm_num)) hu
  have hset := kcp.settings_flush
  have hsnd : kcp.flush.1.sndWnd = kcp.sndWnd := congrArg Settings.sndWnd hset
  have hflight := hout'.inFlight_le
  rw [hsnd] at hflight
  obtain ⟨hcong, hone⟩ := h.congestion.flush hu (hflight.trans h.sndWnd) h.fastresend
  refine ⟨h.congr hset ?_ ⟨_, _, hout'⟩ hcong, hone⟩
  rw [kcp.rmtWnd_flush]
  exact h.rmtWnd

end Ikcp.Ikcpcb.Controlled

/-- **The congestion window** in every state that an endpoint reaches. -/
theorem congested_of_reaches {conv : U32} {sndwnd rcvwnd nodelay interval resend nc : ℤ}
    (hsnd : sndwnd ≤ 2 ^ 19) (hresend : resend ≤ 2 ^ 19) {s : Endpoint}
    (h : (endpointMadeWith conv sndwnd rcvwnd nodelay interval resend nc).Reaches
      Machine.anyStep s) : s.kcp.Congested := by
  have hctl : s.kcp.Controlled := by
    refine invariant_madeWith (P := Ikcpcb.Controlled)
      (.start conv hsnd hresend rcvwnd nodelay interval nc) ?_ ?_ ?_ ?_ ?_ h
    · intro kcp buffer len hk
      obtain ⟨n, is, hout⟩ := hk.outstanding
      have hrmt : (kcp.send buffer len).2.rmtWnd = kcp.rmtWnd :=
        congrArg Prod.snd (kcp.pace_send buffer len)
      exact hk.congr (kcp.settings_send buffer len) (hrmt ▸ hk.rmtWnd)
        ⟨n, is, hout.congr (kcp.outstanding_send buffer len)⟩
        (hk.congestion.congr (kcp.congestion_send buffer len))
    · intro kcp len hk
      obtain ⟨n, is, hout⟩ := hk.outstanding
      have hrmt : (kcp.recv len).2.2.rmtWnd = kcp.rmtWnd :=
        congrArg Prod.snd (kcp.pace_recv len)
      exact hk.congr (kcp.settings_recv len) (hrmt ▸ hk.rmtWnd)
        ⟨n, is, hout.congr (kcp.outstanding_recv len)⟩
        (hk.congestion.congr (kcp.congestion_recv len))
    · intro kcp data hk
      obtain ⟨n, is, hout⟩ := hk.outstanding
      obtain ⟨is', hout', -⟩ := hout.input data
      obtain ⟨hcong, hrmt, -⟩ := hk.congestion.input hk.rmtWnd data
      exact hk.congr (kcp.settings_input data) hrmt ⟨n, is', hout'⟩ hcong
    · intro kcp current u ts hk
      obtain ⟨n, is, hout⟩ := hk.outstanding
      exact hk.congr rfl hk.rmtWnd ⟨n, is, hout.congr rfl⟩ (hk.congestion.congr rfl)
    · exact fun kcp hu hk => (hk.flush hu).1
  exact ⟨fun data => (hctl.congestion.input hctl.rmtWnd data).2.2, fun hu => (hctl.flush hu).2,
    hctl.congestion.ssthresh, hctl.congestion.high, hctl.congestion.cwnd⟩

/-- An endpoint past its threshold, in which an acknowledgement still adds a whole segment. -/
theorem congested_of_reaches_avoiding : ∃ s, (endpointMadeWith 1 128 128 1 10 2 0).Reaches
    Machine.anyStep s ∧ s.kcp.ssthresh ≤ s.kcp.cwnd ∧ 0 < s.kcp.sndBuf.length ∧
      s.kcp.Congested := by
  have h : ((endpointMadeWith 1 128 128 1 10 2 0).run (fun _ _ => true)
      (endpointMadeWith 1 128 128 1 10 2 0).init
      [.send [1], .send [2], .send [3], .send [4], .update 0, .update 10,
        .input (encodeSegs [{ soleSegment 1 10 0 1 [] with cmd := cmdAck }]), .update 20]).any
      (fun s => decide (s.kcp.ssthresh ≤ s.kcp.cwnd) && decide (0 < s.kcp.sndBuf.length)) =
        true := by
    decide +kernel
  obtain ⟨s, hrun, hs⟩ := Option.any_eq_true _ _ |>.mp h
  have hreach : (endpointMadeWith 1 128 128 1 10 2 0).Reaches Machine.anyStep s :=
    Machine.path_of_run (fun _ _ _ => trivial) _ hrun
  obtain ⟨hpast, hbuf⟩ := Bool.and_eq_true_iff.mp hs
  exact ⟨s, hreach, of_decide_eq_true hpast, of_decide_eq_true hbuf,
    congested_of_reaches (by norm_num) (by norm_num) hreach⟩

end LuaKcp
