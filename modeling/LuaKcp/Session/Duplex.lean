import LuaKcp.Foundations.Channel
import LuaKcp.Session.Endpoint

/-!
# Two endpoints

A kcp object together with what has gone through it, under any calls of the binding; and two such
endpoints, each of which is fed only buffers that the other has handed over, in any order and any
number of times. In each direction they refine a channel (`channelFrom`): what has been read is a
prefix of the messages accepted at the other end, without the empty ones.
-/

namespace LuaKcp

open Ikcp

/-! ## One endpoint -/

/-- A kcp object, the messages its `lkcp_send` has accepted, the strings its `lkcp_recv` has
returned and the buffers it has handed over. -/
structure Endpoint where
  kcp : Ikcpcb
  accepted : List Bytes
  received : List Bytes
  sent : List Bytes

/-- The calls on an endpoint. -/
inductive EndpointCall
  | send (m : Bytes)
  | recv
  | input (data : Bytes)
  | update (current : ℤ)
  | flush

namespace Endpoint

variable (s : Endpoint)

def call : EndpointCall → Endpoint
  | .send m =>
    let r := s.kcp.lkcpSend m
    { s with kcp := r.2, accepted := if 0 ≤ r.1 then s.accepted ++ [m] else s.accepted }
  | .recv =>
    let r := s.kcp.lkcpRecv
    { s with kcp := r.2, received := s.received ++ r.1.2.toList }
  | .input data => { s with kcp := (s.kcp.input data).2 }
  | .update current =>
    let r := s.kcp.lkcpUpdate current
    { s with kcp := r.1, sent := s.sent ++ r.2 }
  | .flush =>
    let r := s.kcp.flush
    { s with kcp := r.1, sent := s.sent ++ r.2 }

/-- A sequence of calls. -/
def calls (cs : List EndpointCall) : Endpoint := cs.foldl call s

theorem calls_append (cs cs' : List EndpointCall) :
    s.calls (cs ++ cs') = (s.calls cs).calls cs' := List.foldl_append ..

theorem configured_call {conv : U32} (h : Configured conv s.kcp) (c : EndpointCall) :
    Configured conv (s.call c).kcp := by
  cases c with
  | send m => exact h.of_params (s.kcp.params_send m _)
  | recv => exact h.of_params (s.kcp.params_recv _)
  | input data => exact h.of_params (s.kcp.params_input data)
  | update current => exact h.of_params (s.kcp.params_update _)
  | flush => exact h.of_params s.kcp.params_flush

/-- Calls leave the parameters of the object alone. -/
theorem configured_calls {conv : U32} (h : Configured conv s.kcp) (cs : List EndpointCall) :
    Configured conv (s.calls cs).kcp := by
  induction cs generalizing s with
  | nil => exact h
  | cons c cs ih => exact ih (s.call c) (s.configured_call h c)

/-- The control block that a call flushes, when it does. -/
def flushing : EndpointCall → Option Ikcpcb
  | .update current =>
    let r := s.kcp.ticked (BitVec.ofInt 32 current)
    if r.2 then some r.1 else none
  | .flush => if s.kcp.updated = 0 then none else some s.kcp
  | _ => none

/-- Only a flush hands anything over. -/
theorem call_flushing (c : EndpointCall) :
    (∃ kcp, s.flushing c = some kcp ∧ kcp.updated ≠ 0 ∧ (s.call c).kcp = kcp.flush.1 ∧
        (s.call c).sent = s.sent ++ kcp.flush.2) ∨
      s.flushing c = none ∧ (s.call c).sent = s.sent := by
  cases c with
  | send m => exact Or.inr ⟨rfl, rfl⟩
  | recv => exact Or.inr ⟨rfl, rfl⟩
  | input data => exact Or.inr ⟨rfl, rfl⟩
  | update current =>
    obtain ⟨u, ts, hu, hticked⟩ := s.kcp.ticked_eq (BitVec.ofInt 32 current)
    unfold flushing call Ikcpcb.lkcpUpdate
    dsimp only
    rw [Ikcpcb.update_ticked]
    split_ifs
    · exact Or.inl ⟨_, rfl, hticked ▸ hu, rfl, rfl⟩
    · exact Or.inr ⟨rfl, List.append_nil _⟩
  | flush =>
    unfold flushing call
    by_cases hu : s.kcp.updated = 0
    · rw [if_pos hu, Ikcpcb.flush, if_pos hu]
      exact Or.inr ⟨rfl, List.append_nil _⟩
    · rw [if_neg hu]
      exact Or.inl ⟨s.kcp, rfl, hu, rfl, rfl⟩

/-- How many segments the endpoint has sent: the fragments accepted, but for those that have no
number yet. -/
def segments : ℕ := (streamOf s.accepted).length - s.kcp.sndQueue.length

end Endpoint

/-- The runs of an endpoint made by `getKcp`. -/
def endpointMachine (conv : U32) : Machine Endpoint EndpointCall where
  init := ⟨configured conv, [], [], []⟩
  step s e := some (s.call e)

/-- **Any call** keeps what an endpoint sends. -/
theorem Sending.call {conv : U32} {s : Endpoint} {n : ℕ}
    (h : Sending conv s.kcp s.accepted n s.sent) (c : EndpointCall) :
    ∃ n', n ≤ n' ∧ Sending conv (s.call c).kcp (s.call c).accepted n' (s.call c).sent := by
  cases c with
  | send m => exact ⟨n, le_rfl, h.send m⟩
  | recv => exact ⟨n, le_rfl, h.recv⟩
  | input data => exact ⟨n, le_rfl, h.input data⟩
  | update current => exact h.update current
  | flush => exact h.flush

theorem Endpoint.sending {conv : U32} {s : Endpoint}
    (h : (endpointMachine conv).Reaches Machine.anyStep s) :
    ∃ n, Sending conv s.kcp s.accepted n s.sent := by
  refine Machine.Reaches.invariant (I := fun s => ∃ n, Sending conv s.kcp s.accepted n s.sent)
    ⟨0, .start conv⟩ (fun s e t hs _ hstep => ?_) h
  obtain rfl : s.call e = t := Option.some.inj hstep
  obtain ⟨n, hs⟩ := hs
  obtain ⟨n', -, hs'⟩ := hs.call e
  exact ⟨n', hs'⟩

/-! ## Two endpoints -/

/-- The two ends of a connection. -/
inductive Side
  | client
  | server
  deriving DecidableEq

def Side.other : Side → Side
  | .client => .server
  | .server => .client

theorem Side.other_other (x : Side) : x.other.other = x := by cases x <;> rfl

theorem Side.other_ne (x : Side) : x.other ≠ x := by cases x <;> simp [Side.other]

/-- An endpoint at each end. -/
abbrev Duplex := Side → Endpoint

/-- A buffer fed is one of those that the other end has handed over. -/
def EndpointCall.fedFrom (sent : List Bytes) : EndpointCall → Bool
  | .input data => decide (data ∈ sent)
  | _ => true

/-- The runs of two endpoints made by `getKcp`. -/
def duplexMachine (conv : U32) : Machine Duplex (Side × EndpointCall) where
  init := fun _ => (endpointMachine conv).init
  step d e :=
    if e.2.fedFrom (d e.1.other).sent then some (Function.update d e.1 ((d e.1).call e.2)) else none

/-- An endpoint is fed only while the other one has sent fewer than `2 ^ 31` segments. -/
def Duplex.Bounded (d : Duplex) (e : Side × EndpointCall) : Prop :=
  ∀ data, e.2 = .input data → (d e.1.other).segments < 2 ^ 31

/-- The messages that `lkcp_recv` can return. -/
def withoutEmpty (ms : List Bytes) : List Bytes := ms.filter fun m => decide (m ≠ [])

@[simp] theorem withoutEmpty_append (ms ms' : List Bytes) :
    withoutEmpty (ms ++ ms') = withoutEmpty ms ++ withoutEmpty ms' := List.filter_append ..

/-- What `t` has received is the beginning of what `s` has accepted. -/
def Carried (conv : U32) (s t : Endpoint) : Prop :=
  ∃ n read R is, Sending conv s.kcp s.accepted n s.sent ∧
    Taking s.accepted n t.kcp.recvSide read R is ∧
    t.received = withoutEmpty ((s.accepted.take read).map sentBytes)

theorem Endpoint.accepted_call (s : Endpoint) (c : EndpointCall) :
    s.accepted <+: (s.call c).accepted := by
  cases c with
  | send m =>
    unfold call
    dsimp only
    split_ifs
    · exact List.prefix_append _ _
    · exact List.prefix_refl _
  | recv | input | update | flush => exact List.prefix_refl _

theorem Endpoint.received_call (s : Endpoint) (c : EndpointCall) :
    s.received <+: (s.call c).received := by
  cases c with
  | recv => exact List.prefix_append _ _
  | send | input | update | flush => exact List.prefix_refl _

namespace Carried

variable {conv : U32} {s t : Endpoint}

theorem start (conv : U32) :
    Carried conv (endpointMachine conv).init (endpointMachine conv).init :=
  ⟨0, 0, 0, [], .start conv, .start conv [] 0, rfl⟩

theorem configured (h : Carried conv s t) : Configured conv s.kcp := by
  obtain ⟨n, read, R, is, hs, -⟩ := h
  exact hs.configured

/-- A call on the sending end. -/
theorem call_sender (h : Carried conv s t) (c : EndpointCall) : Carried conv (s.call c) t := by
  obtain ⟨n, read, R, is, hs, ht, hgot⟩ := h
  obtain ⟨n', hn, hs'⟩ := hs.call c
  obtain ⟨ms, hms⟩ := s.accepted_call c
  refine ⟨n', read, R, is, hs', ?_, ?_⟩
  · rw [← hms]
    exact ht.mono ms hn
  · rw [← hms, List.take_append_of_le_length ht.le]
    exact hgot

/-- A call that leaves the receiving side of the other end alone. -/
theorem of_recvSide (h : Carried conv s t) {t' : Endpoint}
    (hside : t'.kcp.recvSide = t.kcp.recvSide) (hgot : t'.received = t.received) :
    Carried conv s t' := by
  obtain ⟨n, read, R, is, hs, ht, hgot'⟩ := h
  exact ⟨n, read, R, is, hs, hside ▸ ht, hgot.trans hgot'⟩

/-- **A buffer fed** to the other end. -/
theorem input (h : Carried conv s t) (hc : Configured conv t.kcp) (hn : s.segments < 2 ^ 31)
    {data : Bytes} (hdata : data ∈ s.sent) : Carried conv s (t.call (.input data)) := by
  obtain ⟨n, read, R, is, hs, ht, hgot⟩ := h
  have hn : n < 2 ^ 31 := by
    rw [hs.numbered]
    exact hn
  obtain ⟨R', is', ht'⟩ := ht.input hc hn (hs.genuine data hdata)
  exact ⟨n, read, R', is', hs, ht', hgot⟩

/-- **Reading** at the other end. -/
theorem recv (h : Carried conv s t) (hc : Configured conv t.kcp) :
    Carried conv s (t.call .recv) := by
  obtain ⟨n, read, R, is, hs, ht, hgot⟩ := h
  have hwnd : t.kcp.rcvWnd.toNat = 128 := by
    rw [hc.rcvWnd_eq]
    rfl
  rcases ht.recv hwnd hs.acceptable with
    ⟨hneg, hsame, -⟩ | ⟨m, R', is', hm, -, hret, ht', -⟩
  · have hnone : t.kcp.lkcpRecv.1.2 = none := if_pos hneg.le
    refine ⟨n, read, R, is, hs, ?_, ?_⟩
    · change Taking s.accepted n t.kcp.lkcpRecv.2.recvSide read R is
      rwa [hsame]
    · change t.received ++ t.kcp.lkcpRecv.1.2.toList = _
      rw [hnone, hgot]
      exact List.append_nil _
  · refine ⟨n, read + 1, R', is', hs, ht', ?_⟩
    have htake : s.accepted.take (read + 1) = s.accepted.take read ++ [m] := by
      rw [List.take_add_one, hm]
      rfl
    change t.received ++ t.kcp.lkcpRecv.1.2.toList = _
    rw [hret, htake, List.map_append, withoutEmpty_append, ← hgot]
    congr 1
    by_cases h0 : sentBytes m = []
    · simp [h0, withoutEmpty]
    · simp [h0, withoutEmpty]

/-- A call on the other end. -/
theorem call_receiver (h : Carried conv s t) (hc : Configured conv t.kcp) {c : EndpointCall}
    (hfed : c.fedFrom s.sent) (hn : ∀ data, c = .input data → s.segments < 2 ^ 31) :
    Carried conv s (t.call c) := by
  cases c with
  | send m => exact h.of_recvSide (t.kcp.recvSide_send m _) rfl
  | recv => exact h.recv hc
  | input data => exact h.input hc (hn data rfl) (of_decide_eq_true hfed)
  | update current => exact h.of_recvSide (t.kcp.recvSide_update _) rfl
  | flush => exact h.of_recvSide t.kcp.recvSide_flush rfl

/-- What has been received is a prefix of what has been accepted. -/
theorem received_in_order (h : Carried conv s t) :
    t.received <+: withoutEmpty (s.accepted.map sentBytes) := by
  obtain ⟨n, read, R, is, -, -, hgot⟩ := h
  rw [hgot]
  exact ((List.take_prefix read s.accepted).map sentBytes).filter _

end Carried

namespace Duplex

variable {conv : U32} {d d' : Duplex}

/-- Both directions carry what they should. -/
def Inv (conv : U32) (d : Duplex) : Prop := ∀ x, Carried conv (d x) (d x.other)

theorem inv_init (conv : U32) : Duplex.Inv conv (duplexMachine conv).init := fun _ => .start conv

theorem inv_step {e : Side × EndpointCall} (h : d.Inv conv) (hok : d.Bounded e)
    (hstep : (duplexMachine conv).step d e = some d') : d'.Inv conv := by
  obtain ⟨x, c⟩ := e
  unfold duplexMachine at hstep
  dsimp only at hstep
  split_ifs at hstep with hfed
  obtain rfl := Option.some.inj hstep
  intro y
  by_cases hy : y = x
  · subst hy
    rw [Function.update_self, Function.update_of_ne y.other_ne]
    exact (h y).call_sender c
  · obtain rfl : y = x.other := by cases x <;> cases y <;> simp_all [Side.other]
    rw [Function.update_of_ne hy, Side.other_other, Function.update_self]
    have hback := h x.other
    rw [Side.other_other] at hback
    exact hback.call_receiver (h x).configured hfed hok

theorem inv_of_path (h : d.Inv conv) (hpath : (duplexMachine conv).Path Duplex.Bounded d d') :
    d'.Inv conv :=
  hpath.invariant (I := Duplex.Inv conv) (fun _ _ _ hd hok hstep => inv_step hd hok hstep) h

/-- **A sequence of calls at one end**: the other end does not change meanwhile, so it is enough
that it has handed over what is fed. -/
theorem path_calls (conv : U32) (d : Duplex) (x : Side) {cs : List EndpointCall}
    (h : ∀ data, .input data ∈ cs →
      data ∈ (d x.other).sent ∧ (d x.other).segments < 2 ^ 31) :
    (duplexMachine conv).Path Duplex.Bounded d (Function.update d x ((d x).calls cs)) := by
  induction cs generalizing d with
  | nil =>
    have : Function.update d x ((d x).calls []) = d := Function.update_eq_self x d
    rw [this]
    exact .refl _
  | cons c cs ih =>
    have hfed : c.fedFrom (d x.other).sent := by
      cases c with
      | input data => exact decide_eq_true (h data (by simp)).1
      | _ => rfl
    have hok : Duplex.Bounded d (x, c) := by
      rintro data hc
      exact (h data (by rw [← hc]; exact List.mem_cons_self ..)).2
    have hstep : (duplexMachine conv).step d (x, c) = some (Function.update d x ((d x).call c)) :=
      if_pos hfed
    have hother : Function.update d x ((d x).call c) x.other = d x.other :=
      Function.update_of_ne x.other_ne ..
    have hrest := ih (Function.update d x ((d x).call c)) fun data hdata => by
      rw [hother]
      exact h data (List.mem_cons_of_mem _ hdata)
    rw [Function.update_self, Function.update_idem] at hrest
    exact (Machine.Path.single hok hstep).trans hrest

end Duplex

/-- **In each direction two endpoints refine a channel.** -/
def channelFrom (conv : U32) (x : Side) :
    Machine.Refinement (duplexMachine conv) (channelMachine Bytes) Duplex.Bounded
      Machine.anyStep where
  abs d := ⟨withoutEmpty ((d x).accepted.map sentBytes), (d x.other).received⟩
  Inv d := d.Inv conv
  init := .refl _
  inv_init := Duplex.inv_init conv
  step := by
    intro d e d' h hok hstep
    have h' : d'.Inv conv := Duplex.inv_step h hok hstep
    refine ⟨h', Channel.path_of_grow ?_ ?_ (h' x).received_in_order⟩
    all_goals
      unfold duplexMachine at hstep
      dsimp only at hstep
      split_ifs at hstep
      obtain rfl := Option.some.inj hstep
      dsimp only
      rw [Function.update_apply]
      split_ifs with hx
    · rw [← hx]
      exact (((d x).accepted_call e.2).map sentBytes).filter _
    · exact List.prefix_refl _
    · rw [← hx]
      exact (d x.other).received_call e.2
    · exact List.prefix_refl _

end LuaKcp
