import LuaKcp.Ikcp.Reassembly
import LuaKcp.Session.Duplex

/-!
# Hostile datagrams

An endpoint made by `getKcp` is fed datagrams with any contents, of the size that UDP allows, and
called in any order. What it holds stays bounded by its window, and so `lkcp_recv` copies exactly
the message whose size it has computed, or refuses one that is too large for its buffer
(`receives_exactly`).
-/

namespace LuaKcp

open Ikcp

/-- A datagram fed is one that UDP can carry. -/
def Endpoint.FedByUdp (_ : Endpoint) : EndpointCall → Prop
  | .input data => data.length ≤ 65535
  | _ => True

theorem contained_configured (conv : U32) : Contained (configured conv).recvSide := by
  refine ⟨Nat.zero_le _, fun seg hseg => ?_⟩
  have hnil : (configured conv).recvSide.rcvQueue ++ (configured conv).recvSide.rcvBuf = [] := rfl
  rw [hnil] at hseg
  exact absurd hseg (List.not_mem_nil)

/-- Every call keeps what the endpoint holds bounded. -/
theorem contained_call {s : Endpoint} (h : Contained s.kcp.recvSide) {e : EndpointCall}
    (he : s.FedByUdp e) : Contained (s.call e).kcp.recvSide := by
  cases e with
  | send m =>
    change Contained (s.kcp.lkcpSend m).2.recvSide
    rw [Ikcpcb.lkcpSend, Ikcpcb.recvSide_send]
    exact h
  | recv => exact h.recv _
  | input data => exact h.input he
  | update current =>
    change Contained (s.kcp.update _).1.recvSide
    rw [Ikcpcb.recvSide_update]
    exact h
  | flush =>
    change Contained s.kcp.flush.1.recvSide
    rw [Ikcpcb.recvSide_flush]
    exact h

/-- The endpoint has the parameters of `getKcp`, and what it holds is bounded. -/
theorem configured_contained_of_reaches {conv : U32} {s : Endpoint}
    (h : (endpointMachine conv).Reaches Endpoint.FedByUdp s) :
    Configured conv s.kcp ∧ Contained s.kcp.recvSide := by
  refine Machine.Reaches.invariant
    (I := fun s => Configured conv s.kcp ∧ Contained s.kcp.recvSide)
    ⟨configured_configured conv, contained_configured conv⟩ (fun s e t hs he hstep => ?_) h
  obtain rfl := Option.some.inj hstep
  exact ⟨s.configured_call hs.1 e, contained_call hs.2 he⟩

/-- **Hostile reassembly stays inside the receive buffer**: in every state that datagrams of any
contents and the other calls lead to, the parsing loop ends for every datagram, within as many
rounds as headers fit into it; `lkcp_recv` copies exactly `ikcp_peeksize` bytes, as many as it
counts while it copies, and at most `RECV_BUFFER_LEN`; and a larger message is refused and stays in
the queue. -/
theorem receives_exactly {conv : U32} {s : Endpoint}
    (h : (endpointMachine conv).Reaches Endpoint.FedByUdp s) :
    (∀ data, inputRounds (data.length / overhead + 1) s.kcp data = some (s.kcp.inputLoop data)) ∧
      ReceivesExactly s.kcp recvBufferLen := by
  obtain ⟨hconf, hcont⟩ := configured_contained_of_reaches h
  refine ⟨fun data => inputRounds_eq ?_ s.kcp, receivesExactly_of_contained hcont ?_ (by decide)⟩
  · unfold overhead
    omega
  · rw [hconf.rcvWnd_eq]
    decide

/-- Three segments whose numbers make no message: the second one ends it. -/
theorem receives_exactly_hostile : ∃ s, (endpointMachine 1).Reaches Endpoint.FedByUdp s ∧
    s.kcp.rcvQueue.map (fun seg => seg.frg) = [2, 0, 5] ∧ ReceivesExactly s.kcp recvBufferLen := by
  have h : ((endpointMachine 1).run (fun _ e => match e with
        | .input data => decide (data.length ≤ 65535)
        | _ => true) (endpointMachine 1).init
      [.input (encodeSegs [{ soleSegment 1 0 0 0 [7] with frg := 2 }, soleSegment 1 0 1 0 [8, 9],
        { soleSegment 1 0 2 0 [] with frg := 5 }])]).any
      (fun s => s.kcp.rcvQueue.map (fun seg => seg.frg) == [2, 0, 5]) = true := by
    decide +kernel
  obtain ⟨s, hrun, hs⟩ := Option.any_eq_true _ _ |>.mp h
  have hreach : (endpointMachine 1).Reaches Endpoint.FedByUdp s := by
    refine Machine.path_of_run (fun s e he => ?_) _ hrun
    cases e with
    | input data =>
      have hle : data.length ≤ 65535 := of_decide_eq_true he
      exact hle
    | send m => trivial
    | recv => trivial
    | update current => trivial
    | flush => trivial
  exact ⟨s, hreach, by simpa using hs, (receives_exactly hreach).2⟩

end LuaKcp
