import LuaKcp.Server.State

/-!
# The address of a peer

`dispatch_msg` stores the address of a datagram in the connection before it looks at the datagram,
and `lkcp_input` stores it in the object whatever `ikcp_input` returns. A datagram leaves the
addresses alone exactly when it comes from there, whether it is accepted or rejected
(`peer_stays_iff`).
-/

namespace LuaKcp

namespace Conn

/-- A dispatch leaves the connection's two addresses alone, and sends to the old one. -/
structure PeerStays (u t : Conn) (out : List Datagram) : Prop where
  fromAddr : t.fromAddr = u.fromAddr
  address : t.kcp.address = u.kcp.address
  out : ∀ d ∈ out, d.address = u.kcp.address

variable (u : Conn)

@[simp] theorem fromAddr_receive : u.receive.1.fromAddr = u.fromAddr := by
  unfold receive
  dsimp only
  split_ifs <;> rfl

@[simp] theorem address_receive : u.receive.1.kcp.address = u.kcp.address := by
  unfold receive
  dsimp only
  split_ifs <;> rfl

@[simp] theorem fromAddr_serve (wall : ℕ) : (u.serve wall).1.fromAddr = u.fromAddr :=
  fromAddr_receive _

@[simp] theorem address_serve (wall : ℕ) : (u.serve wall).1.kcp.address = u.kcp.address :=
  address_receive _

/-- The datagrams of an update go to the object's address. -/
theorem out_serve (wall : ℕ) : ∀ d ∈ (u.serve wall).2.2, d.address = u.kcp.address := by
  intro d hd
  obtain ⟨buf, -, rfl⟩ := List.mem_map.mp hd
  rfl

/-- The addresses after a dispatch are those that the datagram came with. -/
theorem dispatch_addresses (fromAddr str : Bytes) (wall wall' : ℕ) :
    (u.dispatch fromAddr str wall wall').1.fromAddr = fromAddr ∧
      (u.dispatch fromAddr str wall wall').1.kcp.address =
        (if fromAddr = [] then u.kcp.address else fromAddr) ∧
      ∀ d ∈ (u.dispatch fromAddr str wall wall').2,
        d.address = if fromAddr = [] then u.kcp.address else fromAddr := by
  have hinput : (u.input fromAddr str).kcp.address =
      if fromAddr = [] then u.kcp.address else fromAddr := u.kcp.address_lkcpInput str fromAddr
  unfold dispatch
  dsimp only
  by_cases hsleep : (u.input fromAddr str).kcp.lkcpCheck (getms wall) - getms wall ≥ 0
  · rw [if_pos hsleep]
    exact ⟨rfl, hinput, fun d hd => absurd hd List.not_mem_nil⟩
  · rw [if_neg hsleep]
    refine ⟨fromAddr_serve _ wall', (address_serve _ wall').trans hinput, fun d hd => ?_⟩
    rw [out_serve (u.input fromAddr str) wall' d hd, hinput]

theorem peerStays_dispatch_iff (fromAddr str : Bytes) (wall wall' : ℕ) :
    u.PeerStays (u.dispatch fromAddr str wall wall').1 (u.dispatch fromAddr str wall wall').2 ↔
      fromAddr = u.fromAddr ∧ (fromAddr ≠ [] → fromAddr = u.kcp.address) := by
  obtain ⟨hfrom, haddress, hout⟩ := u.dispatch_addresses fromAddr str wall wall'
  constructor
  · intro hstays
    refine ⟨hfrom.symm.trans hstays.fromAddr, fun hne => ?_⟩
    have heq := haddress.symm.trans hstays.address
    rwa [if_neg hne] at heq
  · rintro ⟨heq, hsame⟩
    have hold : (if fromAddr = [] then u.kcp.address else fromAddr) = u.kcp.address := by
      split_ifs with hne
      · rfl
      · exact hsame hne
    exact ⟨hfrom.trans heq, haddress.trans hold, fun d hd => (hout d hd).trans hold⟩

end Conn

/-- The payload is rejected by `ikcp_input`. -/
def Conn.Rejects (u : Conn) (str : Bytes) : Prop := (u.kcp.cb.input str).1 < 0

instance (u : Conn) (str : Bytes) : Decidable (u.Rejects str) := inferInstanceAs (Decidable (_ < _))

/-- **A datagram for a live connection**, rejected or not, leaves the peer where it is exactly when
it comes from there. -/
theorem peer_stays_iff {s : Server} {fromAddr msg str : Bytes} {wall wall' wall'' subid r : ℕ}
    {u : Conn} {o : Outcome} (hmsg : unpackPackage msg = some (subid, str)) (hsubid : subid ≠ 0)
    (hr : s.connection.get subid = some r) (hu : s.conns[r]? = some u)
    (hstep : s.step (.datagram fromAddr msg wall wall' wall'') = some o) :
    ∃ t, o.state.conns[r]? = some t ∧
      (u.PeerStays t o.out ↔
        fromAddr = u.fromAddr ∧ (fromAddr ≠ [] → fromAddr = u.kcp.address)) := by
  have hlength : r < s.conns.length := (List.getElem?_eq_some_iff.mp hu).1
  simp only [Server.step, Server.dispatchMsg, hmsg, hsubid, if_false, hr, Server.onConn, hu,
    Option.bind_some, Conn.step, Option.map_some, Option.some.injEq] at hstep
  subst hstep
  exact ⟨_, List.getElem?_set_self hlength, u.peerStays_dispatch_iff fromAddr str wall wall'⟩

/-- A rejected datagram from the peer itself: no payload after the header. -/
theorem peer_stays_iff_own : ∃ s u t out, serverMachine.Reaches Machine.anyStep s ∧
    s.connection.get 1 = some 0 ∧ s.conns[0]? = some u ∧ u.Rejects (List.replicate 24 0) ∧
      u.PeerStays t out := by
  have h : (serverMachine.run (fun _ _ => true) .ctor [.datagram [1] (helloDatagram 7 1) 0 0 0]).any
      (fun s => decide (s.connection.get 1 = some 0) && (s.conns[0]?).any fun u =>
        decide (u.Rejects (List.replicate 24 0) ∧ u.fromAddr = [1] ∧ u.kcp.address = [1]) &&
        (s.step (.datagram [1] (pack 1 (List.replicate 24 0)) 0 0 0)).isSome) = true := by
    decide +kernel
  obtain ⟨s, hrun, hs⟩ := Option.any_eq_true _ _ |>.mp h
  obtain ⟨hr, hs⟩ := (Bool.and_eq_true _ _).mp hs
  obtain ⟨u, hu, hs⟩ := Option.any_eq_true _ _ |>.mp hs
  obtain ⟨hs, hstep⟩ := (Bool.and_eq_true _ _).mp hs
  obtain ⟨hrejects, hfrom, haddress⟩ := of_decide_eq_true hs
  obtain ⟨o, ho⟩ := Option.isSome_iff_exists.mp hstep
  have hr := of_decide_eq_true hr
  have hmsg : unpackPackage (pack 1 (List.replicate 24 0)) = some (1, List.replicate 24 0) := by
    decide +kernel
  obtain ⟨t, -, hiff⟩ := peer_stays_iff hmsg one_ne_zero hr hu ho
  exact ⟨s, u, t, o.out, Machine.path_of_run (fun _ _ _ => trivial) _ hrun, hr, hu, hrejects,
    hiff.mpr ⟨hfrom.symm, fun _ => haddress.symm⟩⟩

/-- A datagram from elsewhere with the connection's id and nothing valid in it takes the connection
over. -/
theorem not_peer_stays_spoofed : ¬ ∀ s fromAddr msg str wall wall' wall'' subid r u t o,
    serverMachine.Reaches Machine.anyStep s → unpackPackage msg = some (subid, str) → subid ≠ 0 →
    s.connection.get subid = some r → s.conns[r]? = some u → u.Rejects str →
    s.step (.datagram fromAddr msg wall wall' wall'') = some o → o.state.conns[r]? = some t →
      u.PeerStays t o.out := by
  intro hall
  have h : (serverMachine.run (fun _ _ => true) .ctor [.datagram [1] (helloDatagram 7 1) 0 0 0]).any
      (fun s => decide (s.connection.get 1 = some 0) && (s.conns[0]?).any fun u =>
        decide (u.Rejects (List.replicate 24 0) ∧ u.fromAddr = [1]) &&
        (s.step (.datagram [2] (pack 1 (List.replicate 24 0)) 0 0 0)).any fun o =>
          (o.state.conns[0]?).any fun t => decide (t.fromAddr = [2])) = true := by
    decide +kernel
  obtain ⟨s, hrun, hs⟩ := Option.any_eq_true _ _ |>.mp h
  obtain ⟨hr, hs⟩ := (Bool.and_eq_true _ _).mp hs
  obtain ⟨u, hu, hs⟩ := Option.any_eq_true _ _ |>.mp hs
  obtain ⟨hs, hstep⟩ := (Bool.and_eq_true _ _).mp hs
  obtain ⟨hrejects, hfrom⟩ := of_decide_eq_true hs
  obtain ⟨o, ho, hs⟩ := Option.any_eq_true _ _ |>.mp hstep
  obtain ⟨t, ht, hs⟩ := Option.any_eq_true _ _ |>.mp hs
  have hmsg : unpackPackage (pack 1 (List.replicate 24 0)) = some (1, List.replicate 24 0) := by
    decide +kernel
  have hstays := hall s [2] _ _ 0 0 0 1 0 u t o
    (Machine.path_of_run (fun _ _ _ => trivial) _ hrun) hmsg one_ne_zero (of_decide_eq_true hr) hu
    hrejects ho ht
  have heq := hstays.fromAddr
  rw [of_decide_eq_true hs, hfrom] at heq
  exact absurd heq (by decide)

end LuaKcp
