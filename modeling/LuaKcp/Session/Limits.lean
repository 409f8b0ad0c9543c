import LuaKcp.Session.Duplex

/-!
# Which accepted messages arrive

`lkcp_send` accepts a message by the number of its fragments, and of its length only the low 32
bits; the other end puts a message together from its receive queue, which never holds more than the
128 fragments of the window, and reports an empty message as it reports none. So of the messages
accepted exactly those of 1 to 176128 bytes are received (`received_iff`).
-/

namespace LuaKcp

open Ikcp

/-! ## The other end -/

/-- The other end: which fragments it has been fed inside its window, and how many messages it has
read. -/
structure Peer where
  kcp : Ikcpcb
  fed : List ℕ
  read : ℕ

/-- The calls on the other end; a datagram is given by its segments, and `idx` tells the number of
the fragment that a data segment carries. -/
inductive PeerCall
  | feed (idx : Ikcpseg → ℕ) (segs : List Ikcpseg)
  | recv
  | send (m : Bytes)
  | update (current : ℤ)
  | flush

namespace Peer

/-- The number of the fragment expected next: those of the messages read and those queued are
there. -/
def next (ms : List Bytes) (p : Peer) : ℕ := (streamOf (ms.take p.read)).length + p.kcp.nrcvQue

/-- The segment carries a fragment below the end of the window. -/
def takes (ms : List Bytes) (p : Peer) (idx : Ikcpseg → ℕ) (seg : Ikcpseg) : Bool :=
  decide (seg.cmd = cmdPush ∧ idx seg < p.next ms + 128)

def call (ms : List Bytes) (p : Peer) : PeerCall → Peer
  | .feed idx segs =>
    { p with
      kcp := (p.kcp.input (encodeSegs segs)).2
      fed := p.fed ++ (segs.filter (p.takes ms idx)).map idx }
  | .recv =>
    let r := p.kcp.lkcpRecv
    { p with kcp := r.2, read := if 0 ≤ r.1.1 then p.read + 1 else p.read }
  | .send m => { p with kcp := (p.kcp.lkcpSend m).2 }
  | .update current => { p with kcp := (p.kcp.lkcpUpdate current).1 }
  | .flush => { p with kcp := p.kcp.flush.1 }

/-- The datagrams fed are those of the sending end, and no fragment is so far from the window that
its number is taken for another one. -/
def InWindow (conv : U32) (ms : List Bytes) (p : Peer) (e : PeerCall) : Prop :=
  ∀ idx segs, e = .feed idx segs → ∀ seg ∈ segs, Sendable conv seg ∧ (seg.cmd = cmdPush →
    seg.frg.toNat < 256 ∧ Placed (streamOf ms) (idx seg) seg ∧
      idx seg < p.next ms + 2 ^ 31 ∧ p.next ms + 128 ≤ idx seg + 2 ^ 31)

end Peer

/-- The runs of the other end, for the messages `ms`. -/
def peerMachine (conv : U32) (ms : List Bytes) : Machine Peer PeerCall where
  init := ⟨configured conv, [], 0⟩
  step p e := some (p.call ms e)

/-- The other end holds what it has been fed. -/
structure Peer.Inv (conv : U32) (ms : List Bytes) (p : Peer) (R : ℕ) (is : List ℕ) : Prop where
  configured : Configured conv p.kcp
  taking : Taking ms (streamOf ms).length p.kcp.recvSide p.read R is
  settled : Settled p.kcp.recvSide
  held : ∀ i ∈ p.fed, Held R is i

namespace Peer.Inv

variable {conv : U32} {ms : List Bytes} {p : Peer} {R : ℕ} {is : List ℕ}

theorem rcvWnd (h : p.Inv conv ms R is) : p.kcp.rcvWnd.toNat = 128 := by
  rw [h.configured.rcvWnd_eq]
  rfl

theorem next_eq (h : p.Inv conv ms R is) : p.next ms = R := by
  have hlen : p.kcp.rcvQueue.length = _ := Receives.length_queue h.taking.awaits
  have hle : (streamOf (ms.take p.read)).length ≤ R := h.taking.awaits.le
  unfold Peer.next Ikcpcb.nrcvQue
  rw [hlen]
  exact Nat.add_sub_cancel' hle

theorem le_window (h : p.Inv conv ms R is) : R ≤ (streamOf (ms.take p.read)).length + 128 := by
  have hw : R ≤ (streamOf (ms.take p.read)).length + p.kcp.rcvWnd.toNat := h.taking.awaits.wnd
  rwa [h.rcvWnd] at hw

/-- A call that leaves the receiving side alone. -/
theorem of_recvSide (h : p.Inv conv ms R is) {kcp : Ikcpcb} (hp : kcp.params = p.kcp.params)
    (hside : kcp.recvSide = p.kcp.recvSide) : ({ p with kcp := kcp } : Peer).Inv conv ms R is :=
  ⟨h.configured.of_params hp, hside ▸ h.taking, hside ▸ h.settled, h.held⟩

/-- **A datagram fed**: the fragments inside the window are held after it. -/
theorem feed (h : p.Inv conv ms R is) {idx : Ikcpseg → ℕ} {segs : List Ikcpseg}
    (hok : p.InWindow conv ms (.feed idx segs)) :
    ∃ R' is', (p.call ms (.feed idx segs)).Inv conv ms R' is' := by
  have hok := hok idx segs rfl
  have hnext := h.next_eq
  have hwin := h.le_window
  have haw := h.taking.awaits
  unfold Awaits at haw
  rw [Taking.stream_eq] at haw
  obtain ⟨R', is', htake, hheld⟩ := haw.input (by rw [h.rcvWnd]; norm_num) idx
    (fun seg hseg => by rw [h.configured.conv_eq]; exact (hok seg hseg).1)
    fun seg hseg hpush => by
      obtain ⟨hf, hp, h₁, h₂⟩ := (hok seg hseg).2 hpush
      refine ⟨hf, hp, fun R' hR hlen hR' => ⟨by omega, ?_⟩⟩
      rw [h.rcvWnd] at hR'
      have hD : R' ≤ (streamOf (ms.take p.read)).length + 128 := hR'
      have hle : (streamOf (ms.take p.read)).length ≤ R := h.taking.awaits.le
      omega
  rw [h.rcvWnd] at hheld
  refine ⟨R', is', h.configured.of_params (p.kcp.params_input _), ⟨?_, h.taking.le, ?_, ?_⟩,
    htake.settled h.settled, fun i hi => ?_⟩
  · unfold Awaits
    rw [Taking.stream_eq]
    exact htake.receives
  · exact htake.receives.len
  · intro i hi
    obtain ⟨k, hk, rfl⟩ := List.mem_iff_getElem.mp hi
    have hbuf := htake.receives.buf
    have hk' := hk
    rw [hbuf.length_eq] at hk'
    exact (List.getElem?_eq_some_iff.mp (hbuf.get hk hk').2).1
  · rcases List.mem_append.mp hi with hi | hi
    · exact htake.held i (h.held i hi)
    · obtain ⟨seg, hseg, rfl⟩ := List.mem_map.mp hi
      obtain ⟨hmem, htakes⟩ := List.mem_filter.mp hseg
      obtain ⟨hpush, hlt⟩ := of_decide_eq_true htakes
      exact hheld seg hmem hpush (by rw [← hnext]; exact hlt)

/-- **Reading** at the other end. -/
theorem recv (h : p.Inv conv ms R is) (hms : ∀ m ∈ ms, Acceptable m) :
    ∃ R' is', (p.call ms .recv).Inv conv ms R' is' := by
  have hconf : Configured conv p.kcp.lkcpRecv.2 :=
    h.configured.of_params (p.kcp.params_recv recvBufferLen)
  unfold Peer.call
  rcases h.taking.recv h.rcvWnd hms with
    ⟨hneg, hsame, -⟩ | ⟨m, R', is', hm, hle, hret, htaking, hset, hheld⟩
  · dsimp only
    rw [if_neg (by omega), hsame]
    exact ⟨R, is, h⟩
  · dsimp only
    rw [if_pos (by rw [hret]; exact Int.natCast_nonneg _)]
    exact ⟨R', is', hconf, htaking, hset, fun i hi => hheld i (h.held i hi)⟩

/-- Every call keeps the invariant. -/
theorem call (h : p.Inv conv ms R is) (hms : ∀ m ∈ ms, Acceptable m) {e : PeerCall}
    (hok : p.InWindow conv ms e) : ∃ R' is', (p.call ms e).Inv conv ms R' is' := by
  cases e with
  | feed idx segs => exact h.feed hok
  | recv => exact h.recv hms
  | send m => exact ⟨R, is, h.of_recvSide (p.kcp.params_send m _) (p.kcp.recvSide_send m _)⟩
  | update current => exact ⟨R, is, h.of_recvSide (p.kcp.params_update _) (p.kcp.recvSide_update _)⟩
  | flush => exact ⟨R, is, h.of_recvSide p.kcp.params_flush p.kcp.recvSide_flush⟩

end Peer.Inv

theorem Peer.inv_of_reaches {conv : U32} {ms : List Bytes} (hms : ∀ m ∈ ms, Acceptable m)
    {p : Peer} (h : (peerMachine conv ms).Reaches (Peer.InWindow conv ms) p) :
    ∃ R is, p.Inv conv ms R is := by
  have hset : Settled (configured conv).recvSide := by
    intro seg hseg
    simp [configured, Ikcpcb.setNodelay, Ikcpcb.wndsize, create, Ikcpcb.recvSide] at hseg
  have hinit : (peerMachine conv ms).init.Inv conv ms 0 [] :=
    ⟨rfl, .start conv ms _, hset, by simp [peerMachine]⟩
  refine Machine.Reaches.invariant (I := fun p => ∃ R is, p.Inv conv ms R is) ⟨0, [], hinit⟩
    (fun p e q hp hok hstep => ?_) h
  obtain rfl : p.call ms e = q := Option.some.inj hstep
  obtain ⟨R, is, hp⟩ := hp
  exact hp.call hms hok

/-! ## The limits -/

/-- A message of which every fragment is in the queue is one of at most 176128 bytes. -/
theorem length_cutOf_le_iff {m : Bytes} (h : m.length < 2 ^ 31) :
    (cutOf m).length ≤ 128 ↔ m.length ≤ 128 * 1376 := by
  rw [Acceptable.length_cutOf, toInt32_of_lt h, Int.toNat_natCast, sendCount_configured _ h]
  split_ifs <;> omega

/-- **What is received**: let an endpoint have accepted the messages `earlier`, then `m`, then
`later`; let the other end have been fed every fragment of the earlier messages and of `m` inside
its window, in whatever order and among any others, and have read the earlier messages. Then
`lkcp_recv` returns `m` exactly when `m` has 1 to 176128 bytes. -/
theorem received_iff {conv : U32} {s : Endpoint} {p : Peer} {earlier later : List Bytes} {m : Bytes}
    (hs : (endpointMachine conv).Reaches Machine.anyStep s)
    (hacc : s.accepted = earlier ++ m :: later)
    (hp : (peerMachine conv s.accepted).Reaches (Peer.InWindow conv s.accepted) p)
    (hfed : ∀ i < (streamOf (earlier ++ [m])).length, i ∈ p.fed)
    (hread : p.read = earlier.length) :
    p.kcp.lkcpRecv.1 = ((m.length : ℤ), some m) ↔ 1 ≤ m.length ∧ m.length ≤ 128 * 1376 := by
  obtain ⟨n, hsending⟩ := Endpoint.sending hs
  have hms := hsending.acceptable
  obtain ⟨R, is, hinv⟩ := Peer.inv_of_reaches hms hp
  have hget : s.accepted[p.read]? = some m := by rw [hacc, hread]; simp
  have htake : s.accepted.take p.read = earlier := by rw [hacc, hread]; simp
  have hlen : (streamOf (earlier ++ [m])).length =
      (streamOf earlier).length + (cutOf m).length := by
    rw [streamOf_append, streamOf_singleton, List.length_append]
  have hwin := hinv.le_window
  rw [htake] at hwin
  have hrecv := hinv.taking.recv hinv.rcvWnd hms
  rw [htake] at hrecv
  constructor
  · intro hret
    rcases hrecv with ⟨hneg, -⟩ | ⟨m', R', is', hm', hle, hret', -⟩
    · rw [hret] at hneg
      exact absurd hneg (by simp)
    · obtain rfl : m = m' := by simpa [hget] using hm'
      rw [hret'] at hret
      simp only [Prod.mk.injEq] at hret
      obtain ⟨-, hstr⟩ := hret
      split_ifs at hstr with h0
      have hsent : sentBytes m = m := Option.some.inj hstr
      have hlt : m.length < 2 ^ 31 := by
        have h₁ := congrArg List.length hsent
        rw [sentBytes, List.length_take] at h₁
        have h₂ := Acceptable.toNat_lt (m := m)
        omega
      refine ⟨List.length_pos_iff.mpr (by rwa [hsent] at h0), ?_⟩
      exact (length_cutOf_le_iff hlt).mp (by omega)
  · rintro ⟨hpos, hmax⟩
    have hlt : m.length < 2 ^ 31 := by omega
    have hcount := (length_cutOf_le_iff hlt).mpr hmax
    -- all fragments of the message have been moved to the queue
    have hR : (streamOf (earlier ++ [m])).length ≤ R := by
      refine Receives.le_of_held hinv.taking.awaits hinv.settled ?_
        fun i hi => hinv.held i (hfed i hi)
      change _ ≤ (streamOf (s.accepted.take p.read)).length + p.kcp.rcvWnd.toNat
      rw [htake, hinv.rcvWnd]
      omega
    rcases hrecv with ⟨-, -, hmiss⟩ | ⟨m', R', is', hm', -, hret, -⟩
    · have := hmiss m hget
      omega
    · obtain rfl : m = m' := by simpa [hget] using hm'
      rw [hret, sentBytes_of_lt hlt, if_neg (List.length_pos_iff.mp hpos)]

/-- A message of at most one byte is accepted, then another one, and the segments of both are fed to
the other end, the second one first. -/
theorem fed_swapped {m : Bytes} (hm : m = [] ∨ m = [42]) :
    ∃ s p, (endpointMachine 1).Reaches Machine.anyStep s ∧ s.accepted = [] ++ m :: [[43]] ∧
      (peerMachine 1 s.accepted).Reaches (Peer.InWindow 1 s.accepted) p ∧
      (∀ i < (streamOf ([] ++ [m])).length, i ∈ p.fed) ∧ p.read = 0 ∧ p.kcp = ((configured 1).input
        (encodeSegs [soleSegment 1 0 1 0 [43], soleSegment 1 0 0 0 m])).2 := by
  have hcut : streamOf [m, [43]] = [⟨0, m⟩, ⟨0, [43]⟩] ∧ streamOf [m] = [⟨0, m⟩] := by
    rcases hm with rfl | rfl <;> decide +kernel
  have hlen : m.length < 2 ^ 32 := by
    rcases hm with rfl | rfl <;> decide
  have haccepted :
      ((endpointMachine 1).init.calls [.send m, .send [43]]).accepted = [m, [43]] := by
    rcases hm with rfl | rfl <;> decide +kernel
  have hnext : Peer.next [m, [43]] (peerMachine 1 [m, [43]]).init = 0 := rfl
  refine ⟨(endpointMachine 1).init.calls [.send m, .send [43]],
    (peerMachine 1 [m, [43]]).init.call [m, [43]] (.feed (fun seg => seg.sn.toNat)
      [soleSegment 1 0 1 0 [43], soleSegment 1 0 0 0 m]),
    (Machine.Path.single (e := .send m) trivial rfl).tail (e := .send [43]) trivial rfl,
    haccepted, ?_, ?_, rfl, rfl⟩
  · rw [haccepted]
    refine .single ?_ rfl
    intro idx segs he seg hseg
    obtain ⟨rfl, rfl⟩ := PeerCall.feed.inj he
    rw [hcut.1, hnext]
    rcases List.mem_pair.mp hseg with rfl | rfl
    · exact ⟨⟨rfl, Or.inl rfl, (by decide : ([43] : Bytes).length < 2 ^ 32)⟩,
        fun _ => ⟨Nat.zero_lt_succ 255, ⟨rfl, rfl⟩, by decide, by decide⟩⟩
    · exact ⟨⟨rfl, Or.inl rfl, hlen⟩, fun _ => ⟨Nat.zero_lt_succ 255, ⟨rfl, rfl⟩,
        (by decide : 0 < 0 + 2 ^ 31), (by decide : 0 + 128 ≤ 0 + 2 ^ 31)⟩⟩
  · rw [List.nil_append, hcut.2]
    intro i hi
    obtain rfl : i = 0 := Nat.lt_one_iff.mp hi
    have htakes (seg : Ikcpseg) (hseg : seg.cmd = cmdPush ∧ seg.sn.toNat < 128) :
        Peer.takes [m, [43]] (peerMachine 1 [m, [43]]).init (fun seg => seg.sn.toNat) seg =
          true := by
      unfold Peer.takes
      rw [hnext]
      exact decide_eq_true hseg
    refine List.mem_append_right _ (List.mem_map.mpr ⟨soleSegment 1 0 0 0 m, ?_, rfl⟩)
    exact List.mem_filter.mpr
      ⟨List.mem_cons_of_mem _ List.mem_cons_self, htakes _ ⟨rfl, Nat.zero_lt_succ 127⟩⟩

/-- The second message has arrived before the first one. -/
theorem received_iff_swapped : ∃ s p, (endpointMachine 1).Reaches Machine.anyStep s ∧
    (peerMachine 1 s.accepted).Reaches (Peer.InWindow 1 s.accepted) p ∧
    s.accepted = [[42], [43]] ∧
    (p.kcp.lkcpRecv.1 = (1, some [42]) ↔ 1 ≤ 1 ∧ 1 ≤ 128 * 1376) := by
  obtain ⟨s, p, hs, hacc, hp, hfed, hread, -⟩ := fed_swapped (m := [42]) (Or.inr rfl)
  exact ⟨s, p, hs, hp, hacc, received_iff hs hacc hp hfed hread⟩

/-- An empty message is accepted, and its segment arrives, but it is read as nothing. -/
theorem not_received_empty : ¬ ∀ (conv : U32) (s : Endpoint) (p : Peer) (earlier later : List Bytes)
    (m : Bytes), (endpointMachine conv).Reaches Machine.anyStep s →
    s.accepted = earlier ++ m :: later →
    (peerMachine conv s.accepted).Reaches (Peer.InWindow conv s.accepted) p →
    (∀ i < (streamOf (earlier ++ [m])).length, i ∈ p.fed) → p.read = earlier.length →
      p.kcp.lkcpRecv.1 = ((m.length : ℤ), some m) := by
  intro hall
  obtain ⟨s, p, hs, hacc, hp, hfed, hread, hkcp⟩ := fed_swapped (m := []) (Or.inl rfl)
  have hret := hall 1 s p [] [[43]] [] hs hacc hp hfed hread
  rw [hkcp] at hret
  exact absurd hret (by decide +kernel)

end LuaKcp
