import LuaKcp.Ikcp.Storage
import LuaKcp.Session.Acknowledging
import LuaKcp.Session.Scheduling

/-!
# What an endpoint holds is bounded by its windows

An endpoint with any parameters is called in any order and fed datagrams with any contents. The
segments that it waits to have acknowledged and those that it keeps for reassembly are numbered
inside its windows, in order and without repetition (`buffered_of_reaches`), so nothing that comes
from the network makes it hold more.
-/

namespace LuaKcp

open Ikcp

/-- An invariant of the control block, for the runs of an endpoint with any parameters: what is kept
by the calls, a flush being one that follows an update. -/
theorem invariant_madeWith {conv : U32} {sndwnd rcvwnd nodelay interval resend nc : ℤ}
    {P : Ikcpcb → Prop} (hinit : P (madeWith conv sndwnd rcvwnd nodelay interval resend nc))
    (hsend : ∀ kcp buffer len, P kcp → P (kcp.send buffer len).2)
    (hrecv : ∀ kcp len, P kcp → P (kcp.recv len).2.2)
    (hinput : ∀ kcp data, P kcp → P (kcp.input data).2)
    (htick : ∀ kcp current u ts, P kcp →
      P ({ kcp with current := current, updated := u, tsFlush := ts } : Ikcpcb))
    (hflush : ∀ kcp, kcp.updated ≠ 0 → P kcp → P kcp.flush.1)
    {s : Endpoint} (h : (endpointMadeWith conv sndwnd rcvwnd nodelay interval resend nc).Reaches
      Machine.anyStep s) : P s.kcp := by
  have hflush' (s : Endpoint) (hs : P s.kcp) : P (s.call .flush).kcp := by
    by_cases hu : s.kcp.updated = 0
    · rw [Acks.call_flush_eq s hu]
      exact hs
    · exact hflush s.kcp hu hs
  refine h.invariant (I := fun s => P s.kcp) hinit fun s e t hs _ hstep => ?_
  obtain rfl : s.call e = t := Option.some.inj hstep
  cases e with
  | send m => exact hsend s.kcp m _ hs
  | recv => exact hrecv s.kcp _ hs
  | input data => exact hinput s.kcp data hs
  | flush => exact hflush' s hs
  | update current =>
    obtain ⟨u, ts, he | he⟩ := s.call_update current
    · rw [he]
      exact hflush' _ (htick s.kcp _ u ts hs)
    · rw [he]
      exact htick s.kcp _ u ts hs

/-- Making an endpoint sets its windows and what `ikcp_nodelay` sets, and nothing else. -/
theorem madeWith_eq (conv : U32) (sndwnd rcvwnd nodelay interval resend nc : ℤ) :
    madeWith conv sndwnd rcvwnd nodelay interval resend nc = { create conv with
      sndWnd := if 0 < sndwnd then BitVec.ofInt 32 sndwnd else wndSnd
      rcvWnd := if 0 < rcvwnd then BitVec.ofInt 32 rcvwnd else wndRcv
      nodelay := if 0 ≤ nodelay then BitVec.ofInt 32 nodelay else 0
      rxMinrto := if 0 ≤ nodelay then (if nodelay ≠ 0 then rtoNdl else rtoMin) else rtoMin
      interval := if 0 ≤ interval then BitVec.ofInt 32
        (if interval > 5000 then 5000 else if interval < 10 then 10 else interval) else intervalDef
      fastresend := if 0 ≤ resend then BitVec.ofInt 32 resend else 0
      nocwnd := if 0 ≤ nc then BitVec.ofInt 32 nc else 0 } := by
  have hwnd (kcp : Ikcpcb) : kcp.wndsize sndwnd rcvwnd = { kcp with
      sndWnd := if 0 < sndwnd then BitVec.ofInt 32 sndwnd else kcp.sndWnd
      rcvWnd := if 0 < rcvwnd then BitVec.ofInt 32 rcvwnd else kcp.rcvWnd } := by
    unfold Ikcpcb.wndsize
    dsimp only
    split_ifs <;> rfl
  have hnodelay (kcp : Ikcpcb) : kcp.setNodelay nodelay interval resend nc = { kcp with
      nodelay := if 0 ≤ nodelay then BitVec.ofInt 32 nodelay else kcp.nodelay
      rxMinrto := if 0 ≤ nodelay then (if nodelay ≠ 0 then rtoNdl else rtoMin) else kcp.rxMinrto
      interval := if 0 ≤ interval then BitVec.ofInt 32
        (if interval > 5000 then 5000 else if interval < 10 then 10 else interval) else kcp.interval
      fastresend := if 0 ≤ resend then BitVec.ofInt 32 resend else kcp.fastresend
      nocwnd := if 0 ≤ nc then BitVec.ofInt 32 nc else kcp.nocwnd } := by
    unfold Ikcpcb.setNodelay
    dsimp only
    by_cases hn : 0 ≤ nodelay <;> by_cases hi : 0 ≤ interval <;> by_cases hr : 0 ≤ resend <;>
      by_cases hc : 0 ≤ nc <;> simp only [hn, hi, hr, hc, if_true, if_false]
  unfold madeWith
  rw [hnodelay, hwnd]
  rfl

/-- A window set from an argument, or left as it was. -/
theorem toNat_wnd_le {wnd : ℤ} {W : ℕ} (hle : wnd ≤ W) (hdef : 32 ≤ W) (hW : W < 2 ^ 31) :
    (if 0 < wnd then BitVec.ofInt 32 wnd else (32 : U32)).toNat ≤ W := by
  split_ifs with hpos
  · rw [BitVec.toNat_ofInt, Int.emod_eq_of_lt hpos.le (by push_cast; omega)]
    omega
  · exact hdef

/-- The windows of an endpoint that has been given no larger ones. -/
theorem windows_madeWith (conv : U32) (sndwnd rcvwnd : ℤ) {W : ℕ} (hdef : 32 ≤ W) (hW : W < 2 ^ 31)
    (nodelay interval resend nc : ℤ) :
    let kcp := madeWith conv sndwnd rcvwnd nodelay interval resend nc
    (sndwnd ≤ W → kcp.sndWnd.toNat ≤ W) ∧ (rcvwnd ≤ W → kcp.rcvWnd.toNat ≤ W) ∧
      kcp.recvSide = ⟨0, kcp.rcvWnd, [], []⟩ := by
  rw [madeWith_eq]
  exact ⟨fun h => toNat_wnd_le h hdef hW, fun h => toNat_wnd_le h hdef hW, rfl⟩

/-- At the start nothing is outstanding. -/
theorem outstanding_madeWith (conv : U32) (sndwnd rcvwnd nodelay interval resend nc : ℤ) :
    (madeWith conv sndwnd rcvwnd nodelay interval resend nc).Outstanding 0 [] := by
  rw [madeWith_eq]
  exact ⟨rfl, rfl, .nil, by simp, rfl, Nat.zero_le _⟩

/-- What an endpoint holds: the outstanding segments and those kept for reassembly are numbered
inside the windows, in order. -/
structure Ikcp.Ikcpcb.Buffered (kcp : Ikcpcb) : Prop where
  una : kcp.sndUna = (kcp.sndBuf.map Ikcpseg.sn).headD kcp.sndNxt
  inFlight : ahead kcp.sndUna kcp.sndNxt ≤ kcp.sndWnd.toNat
  sndSorted : kcp.sndBuf.Pairwise fun a b => ahead kcp.sndUna a.sn < ahead kcp.sndUna b.sn
  sndWindow : ∀ seg ∈ kcp.sndBuf, ahead kcp.sndUna seg.sn < ahead kcp.sndUna kcp.sndNxt
  sndLength : kcp.sndBuf.length ≤ kcp.sndWnd.toNat
  stored : Stored kcp.recvSide
  settled : Settled kcp.recvSide
  rcvLength : kcp.rcvBuf.length ≤ kcp.rcvWnd.toNat

theorem ahead_ofNat {a b : ℕ} (hab : a ≤ b) (hlt : b < a + 2 ^ 32) :
    ahead (BitVec.ofNat 32 a) (BitVec.ofNat 32 b) = b - a := by
  have hsum : BitVec.ofNat 32 b = BitVec.ofNat 32 (b - a) + BitVec.ofNat 32 a := by
    rw [← BitVec.ofNat_add, Nat.sub_add_cancel hab]
  rw [ahead, hsum, BitVec.add_sub_cancel, BitVec.toNat_ofNat, Nat.mod_eq_of_lt (by omega)]

theorem Ikcp.Ikcpcb.Buffered.of_outstanding {kcp : Ikcpcb} {n : ℕ} {is : List ℕ}
    (h : kcp.Outstanding n is) (hstored : Stored kcp.recvSide) (hset : Settled kcp.recvSide) :
    kcp.Buffered := by
  have hwidth := h.width
  have hlt := kcp.sndWnd.isLt
  have hnxt : ahead kcp.sndUna kcp.sndNxt = n - is.headD n := by
    rw [h.una, h.nxt, ahead_ofNat h.head_le (by omega)]
  have hi : ∀ i ∈ is, ahead kcp.sndUna (BitVec.ofNat 32 i) = i - is.headD n := fun i hi => by
    have := h.bounds i hi
    rw [h.una, ahead_ofNat (h.head_le_of_mem hi) (by omega)]
  -- the segments rise as their numbers do
  have hsorted : kcp.sndBuf.Pairwise fun a b => ahead kcp.sndUna a.sn < ahead kcp.sndUna b.sn := by
    have hsns : (kcp.sndBuf.map Ikcpseg.sn).Pairwise
        fun a b => ahead kcp.sndUna a < ahead kcp.sndUna b := by
      rw [h.sns, List.pairwise_map]
      refine h.sorted.imp_of_mem fun {i j} hmem hmem' hlt => ?_
      rw [hi i hmem, hi j hmem']
      have := h.head_le_of_mem hmem
      omega
    rwa [List.pairwise_map] at hsns
  refine ⟨?_, by omega, hsorted, fun seg hseg => ?_, h.length_le, hstored,
    hset, hstored.length_le⟩
  · rw [h.sns, h.una, h.nxt]
    cases is <;> rfl
  · have hsn : seg.sn ∈ is.map (BitVec.ofNat 32) := h.sns ▸ List.mem_map_of_mem hseg
    obtain ⟨i, hmem, he⟩ := List.mem_map.mp hsn
    have hin := h.bounds i hmem
    have hle := h.head_le_of_mem hmem
    rw [← he, hi i hmem, hnxt]
    omega

/-- **Bounded buffers**: in every state that an endpoint reaches, whatever it is fed and in whatever
order it is called. -/
theorem buffered_of_reaches {conv : U32} {sndwnd rcvwnd nodelay interval resend nc : ℤ}
    (hsnd : sndwnd ≤ 2 ^ 30) (hrcv : rcvwnd ≤ 2 ^ 30) {s : Endpoint}
    (h : (endpointMadeWith conv sndwnd rcvwnd nodelay interval resend nc).Reaches
      Machine.anyStep s) : s.kcp.Buffered := by
  obtain ⟨hwsnd, hwrcv, hside⟩ := windows_madeWith conv sndwnd rcvwnd (W := 2 ^ 30)
    (by norm_num) (by norm_num) nodelay interval resend nc
  have hinv : s.kcp.sndWnd.toNat ≤ 2 ^ 30 ∧ s.kcp.rcvWnd.toNat ≤ 2 ^ 30 ∧
      (∃ n is, s.kcp.Outstanding n is) ∧ Stored s.kcp.recvSide ∧ Settled s.kcp.recvSide := by
    refine invariant_madeWith (P := fun kcp => kcp.sndWnd.toNat ≤ 2 ^ 30 ∧
      kcp.rcvWnd.toNat ≤ 2 ^ 30 ∧ (∃ n is, kcp.Outstanding n is) ∧ Stored kcp.recvSide ∧
        Settled kcp.recvSide) ?_ ?_ ?_ ?_ ?_ ?_ h
    · refine ⟨hwsnd hsnd, hwrcv hrcv, ⟨0, [], outstanding_madeWith ..⟩, ?_, ?_⟩
      · rw [hside]
        exact ⟨Nat.zero_le _, .nil, by simp⟩
      · rw [hside]
        exact fun seg hseg => absurd hseg (by simp)
    · rintro kcp buffer len ⟨hws, hwr, ⟨n, is, ho⟩, hst, hse⟩
      have hset : (kcp.send buffer len).2.sndWnd = kcp.sndWnd :=
        congrArg Ikcpcb.Settings.sndWnd (kcp.settings_send buffer len)
      have hrside := kcp.recvSide_send buffer len
      have hwnd : (kcp.send buffer len).2.rcvWnd = kcp.rcvWnd := congrArg RecvSide.rcvWnd hrside
      rw [hset, hwnd, hrside]
      exact ⟨hws, hwr, ⟨n, is, ho.congr (kcp.outstanding_send buffer len)⟩, hst, hse⟩
    · rintro kcp len ⟨hws, hwr, ⟨n, is, ho⟩, hst, hse⟩
      have hset : (kcp.recv len).2.2.sndWnd = kcp.sndWnd :=
        congrArg Ikcpcb.Settings.sndWnd (kcp.settings_recv len)
      have hwnd : (kcp.recv len).2.2.rcvWnd = kcp.rcvWnd :=
        congrArg Ikcpcb.Params.rcvWnd (kcp.params_recv len)
      rw [hset, hwnd]
      exact ⟨hws, hwr, ⟨n, is, ho.congr (kcp.outstanding_recv len)⟩, hst.recv hse len⟩
    · rintro kcp data ⟨hws, hwr, ⟨n, is, ho⟩, hst, hse⟩
      have hset : (kcp.input data).2.sndWnd = kcp.sndWnd :=
        congrArg Ikcpcb.Settings.sndWnd (kcp.settings_input data)
      have hwnd : (kcp.input data).2.rcvWnd = kcp.rcvWnd :=
        congrArg Ikcpcb.Params.rcvWnd (kcp.params_input data)
      obtain ⟨is', ho', -⟩ := ho.input data
      rw [hset, hwnd]
      exact ⟨hws, hwr, ⟨n, is', ho'⟩, hst.input hse hwr data⟩
    · rintro kcp current u ts ⟨hws, hwr, ⟨n, is, ho⟩, hst, hse⟩
      exact ⟨hws, hwr, ⟨n, is, ho.congr rfl⟩, hst, hse⟩
    · rintro kcp hu ⟨hws, hwr, ⟨n, is, ho⟩, hst, hse⟩
      have hset : kcp.flush.1.sndWnd = kcp.sndWnd :=
        congrArg Ikcpcb.Settings.sndWnd kcp.settings_flush
      have hrside := kcp.recvSide_flush
      have hwnd : kcp.flush.1.rcvWnd = kcp.rcvWnd := congrArg RecvSide.rcvWnd hrside
      obtain ⟨k, -, ho', -⟩ := ho.flush hws hu
      rw [hset, hwnd, hrside]
      exact ⟨hws, hwr, ⟨_, _, ho'⟩, hst, hse⟩
  obtain ⟨-, -, ⟨n, is, ho⟩, hst, hse⟩ := hinv
  exact .of_outstanding ho hst hse

/-- Segments out of order, repeated, outside the window, and an acknowledgement of everything. -/
theorem buffered_hostile : ∃ s, (endpointMadeWith 1 128 128 0 50 0 1).Reaches Machine.anyStep s ∧
    s.kcp.rcvBuf.map Ikcpseg.sn = [3, 5] ∧ s.kcp.sndBuf = [] ∧ s.kcp.Buffered := by
  have h : ((endpointMadeWith 1 128 128 0 50 0 1).run (fun _ _ => true)
      (endpointMadeWith 1 128 128 0 50 0 1).init
      [.send [1], .update 0, .input (encodeSegs ([5, 3, 200, 5, 3].map fun sn =>
        soleSegment 1 0 sn 0x7fffffff [7]))]).any
      (fun s => s.kcp.rcvBuf.map Ikcpseg.sn == [3, 5] && s.kcp.sndBuf == []) = true := by
    decide +kernel
  obtain ⟨s, hrun, hs⟩ := Option.any_eq_true _ _ |>.mp h
  have hreach : (endpointMadeWith 1 128 128 0 50 0 1).Reaches Machine.anyStep s :=
    Machine.path_of_run (fun _ _ _ => trivial) _ hrun
  obtain ⟨hrcv, hsnd⟩ := Bool.and_eq_true_iff.mp hs
  exact ⟨s, hreach, eq_of_beq hrcv, eq_of_beq hsnd,
    buffered_of_reaches (by norm_num) (by norm_num) hreach⟩

end LuaKcp
