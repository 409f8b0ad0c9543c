import LuaKcp.Session.Client
import LuaKcp.Session.Connection
import LuaKcp.Session.Duplex

/-!
# Delivery over a connection

A connection record of the server and a client that uses the same connection id, with a network
between them that loses, repeats, reorders and delays what they send, but makes up nothing. Every
step of either side is a sequence of calls on its kcp object, so the whole refines two endpoints
(`linkRefines`), and these refine a channel in each direction: the requests of the server are the
messages of the client, in order, and the other way round (`delivered_in_order`).
-/

namespace LuaKcp

open Ikcp

/-- The payloads of the packages for a connection id. -/
def payloads (subid : ℕ) (ds : List Bytes) : List Bytes :=
  ds.filterMap fun d => match unpackPackage d with
    | some (id, str) => if id = subid then some str else none
    | none => none

@[simp] theorem payloads_append (subid : ℕ) (ds ds' : List Bytes) :
    payloads subid (ds ++ ds') = payloads subid ds ++ payloads subid ds' := List.filterMap_append ..

theorem mem_payloads {subid : ℕ} {ds : List Bytes} {d str : Bytes} (hd : d ∈ ds)
    (h : unpackPackage d = some (subid, str)) : str ∈ payloads subid ds :=
  List.mem_filterMap.mpr ⟨d, hd, by simp [h]⟩

theorem payloads_pack {subid : ℕ} (hs : subid < 2 ^ 32) {bufs : List Bytes}
    (h : ∀ buf ∈ bufs, buf.length < 2 ^ 16) : payloads subid (bufs.map (pack subid)) = bufs := by
  induction bufs with
  | nil => rfl
  | cons buf bufs ih =>
    obtain ⟨hbuf, hbufs⟩ := List.forall_mem_cons.mp h
    have ih := ih hbufs
    unfold payloads at ih ⊢
    rw [List.map_cons, List.filterMap_cons, unpackPackage_pack hs hbuf]
    simp only [if_true, ih]

theorem payloads_pack_of_ne {id subid : ℕ} (hs : id < 2 ^ 32) (hne : id ≠ subid)
    (bufs : List Bytes) : payloads subid (bufs.map (pack id)) = [] := by
  refine List.filterMap_eq_nil_iff.mpr fun d hd => ?_
  obtain ⟨buf, -, rfl⟩ := List.mem_map.mp hd
  cases h : unpackPackage (pack id buf) with
  | none => rfl
  | some r =>
    have : r.1 = id := fst_of_unpackPackage_pack hs h
    exact if_neg (this ▸ hne)

/-! ## The steps of the server as calls -/

namespace Conn

/-- The endpoint of a connection record. -/
def endpoint (u : Conn) (sent : List Bytes) : Endpoint := ⟨u.kcp.cb, u.accepted, u.requested, sent⟩

/-- The change from `u` to `t` is that of the calls, and the datagrams are what they hand over. -/
def Does (conv : U32) (u : Conn) (cs : List EndpointCall) (t : Conn) (out : List Datagram) :
    Prop :=
  ∃ bufs, out.map Datagram.data = bufs.map (pack conv.toNat) ∧
    ∀ sent, (u.endpoint sent).calls cs = t.endpoint (sent ++ bufs)

variable {conv : U32} {u t v : Conn} {cs cs' : List EndpointCall} {out out' : List Datagram}

theorem Does.refl {conv : U32} {u t : Conn} (h : ∀ sent, u.endpoint sent = t.endpoint sent) :
    Does conv u [] t [] := by
  refine ⟨[], rfl, fun sent => ?_⟩
  rw [List.append_nil]
  exact h sent

theorem Does.trans (h₁ : Does conv u cs t out) (h₂ : Does conv t cs' v out') :
    Does conv u (cs ++ cs') v (out ++ out') := by
  obtain ⟨bufs, hout, hcs⟩ := h₁
  obtain ⟨bufs', hout', hcs'⟩ := h₂
  refine ⟨bufs ++ bufs', by rw [List.map_append, List.map_append, hout, hout'], fun sent => ?_⟩
  rw [Endpoint.calls_append, hcs, hcs', List.append_assoc]

theorem Does.configured (h : Does conv u cs t out) (hc : Configured conv u.kcp.cb) :
    Configured conv t.kcp.cb := by
  obtain ⟨bufs, -, hcs⟩ := h
  have hcalls := (u.endpoint []).configured_calls hc cs
  rwa [hcs] at hcalls

/-- The coroutines and their flag are no part of the endpoint. -/
theorem Does.congr (h : Does conv u cs t out) (ht : ∀ sent, t.endpoint sent = v.endpoint sent) :
    Does conv u cs v out := by
  obtain ⟨bufs, hout, hcs⟩ := h
  exact ⟨bufs, hout, fun sent => (hcs sent).trans (ht _)⟩

theorem map_data_output (k : Kcp) (bufs : List Bytes) :
    (k.output bufs).map Datagram.data = bufs.map (pack k.cb.conv.toNat) := by
  simp [Kcp.output]

theorem does_update (hc : Configured conv u.kcp.cb) (wall : ℕ) :
    Does conv u [.update (getms wall)] (u.update wall).1 (u.update wall).2 := by
  refine ⟨(u.kcp.cb.lkcpUpdate (getms wall)).2, ?_, fun sent => rfl⟩
  rw [← hc.conv_eq]
  exact map_data_output _ _

theorem does_flush (hc : Configured conv u.kcp.cb) :
    Does conv u [.flush] u.flush.1 u.flush.2 := by
  refine ⟨u.kcp.cb.flush.2, ?_, fun sent => rfl⟩
  rw [← hc.conv_eq]
  exact map_data_output _ _

theorem does_send (conv : U32) (u : Conn) (package : Bytes) :
    Does conv u [.send package] (u.send package).2 [] := by
  refine ⟨[], rfl, fun sent => ?_⟩
  rw [List.append_nil]
  unfold endpoint send
  rw [Kcp.cb_lkcpSend]
  rfl

theorem does_input (conv : U32) (u : Conn) (fromAddr str : Bytes) :
    Does conv u [.input str] (u.input fromAddr str) [] := by
  refine ⟨[], rfl, fun sent => ?_⟩
  simp [Endpoint.calls, Endpoint.call, endpoint, input, Kcp.lkcpInput]

theorem does_receive (conv : U32) (u : Conn) : Does conv u [.recv] u.receive.1 [] := by
  refine ⟨[], rfl, fun sent => ?_⟩
  have hstr : u.kcp.cb.lkcpRecv.1.2 = if u.kcp.cb.lkcpRecv.1.1 ≤ 0 then none else
      some (u.kcp.cb.recv recvBufferLen).2.1 := rfl
  unfold receive
  dsimp only
  split_ifs with h
  · have h : ¬ u.kcp.cb.lkcpRecv.1.1 ≤ 0 := not_le.mpr h
    rw [if_neg h] at hstr
    simp [Endpoint.calls, Endpoint.call, endpoint, Kcp.lkcpRecv, hstr]
  · have h : u.kcp.cb.lkcpRecv.1.1 ≤ 0 := not_lt.mp h
    rw [if_pos h] at hstr
    simp [Endpoint.calls, Endpoint.call, endpoint, Kcp.lkcpRecv, hstr]

theorem does_serve (hc : Configured conv u.kcp.cb) (wall : ℕ) :
    Does conv u [.update (getms wall), .recv] (u.serve wall).1 (u.serve wall).2.2 := by
  have hread := does_receive conv ({ (u.update wall).1 with ms := none })
  have := ((does_update hc wall).congr fun _ => rfl).trans hread
  rwa [List.append_nil] at this

/-- What a step of the record does; it feeds the datagram that it dispatches, and no other. -/
theorem does_step {e : ConnEvent} (hc : Configured conv u.kcp.cb) (h : u.step e = some (t, out)) :
    ∃ cs, (∀ data, .input data ∈ cs → ∃ a w w', e = .dispatch a data w w') ∧
      Does conv u cs t out := by
  cases e with
  | dispatch fromAddr str wall wall' =>
    obtain h := Option.some.inj h
    have hin := does_input conv u fromAddr str
    unfold dispatch at h
    dsimp only at h
    split_ifs at h
    · obtain ⟨rfl, rfl⟩ := h
      exact ⟨[.input str], by simp, hin.congr fun _ => rfl⟩
    · obtain ⟨rfl, rfl⟩ := h
      exact ⟨[.input str, .update (getms wall'), .recv], by simp,
        (hin.trans (does_serve (hin.configured hc) wall')).congr fun _ => rfl⟩
  | wake i wall =>
    obtain ⟨-, h⟩ := wake_of_step h
    unfold wake at h
    split_ifs at h
    · obtain ⟨rfl, rfl⟩ := h
      exact ⟨[], by simp, .refl fun _ => rfl⟩
    · obtain ⟨rfl, rfl⟩ := h
      exact ⟨_, by simp, (does_serve hc wall).congr fun _ => rfl⟩
  | returned i =>
    obtain ⟨msg, -, rfl, rfl⟩ := returned_of_step h
    exact ⟨_, by simp, (does_receive conv u).congr fun _ => rfl⟩
  | died i =>
    obtain ⟨msg, -, rfl, rfl⟩ := died_of_step h
    exact ⟨[], by simp, .refl fun _ => rfl⟩
  | update wall =>
    obtain ⟨rfl, rfl⟩ := Option.some.inj h
    exact ⟨_, by simp, does_update hc wall⟩
  | send package =>
    obtain ⟨rfl, rfl⟩ := Option.some.inj h
    exact ⟨_, by simp, does_send conv u package⟩
  | flush =>
    obtain ⟨rfl, rfl⟩ := Option.some.inj h
    exact ⟨_, by simp, does_flush hc⟩
  | responseMsg package =>
    obtain ⟨rfl, rfl⟩ := Option.some.inj h
    have hsend := does_send conv u package
    exact ⟨_, by simp, hsend.trans (does_flush (hsend.configured hc))⟩
  | sendMsg package =>
    obtain h := Option.some.inj h
    have hsend := does_send conv u package
    unfold sendMsg at h
    dsimp only at h
    split_ifs at h
    · obtain ⟨rfl, rfl⟩ := h
      exact ⟨_, by simp, hsend⟩
    · rw [Prod.mk.injEq] at h
      obtain ⟨rfl, rfl⟩ := h
      exact ⟨_, by simp, hsend.trans (does_flush (hsend.configured hc))⟩

end Conn

/-! ## The steps of a connected client as calls -/

namespace Client

/-- The endpoint of a connected client. -/
def endpoint (c : Client) (sent : List Bytes) : Endpoint :=
  ⟨c.kcp2.getD (create 0), c.accepted, c.received, sent⟩

/-- The client has the connection id `subid` and the object for it, and reads no answers any
more. -/
structure Connected (subid : ℕ) (c : Client) : Prop where
  subid : c.subid = subid
  kcp2 : ∃ kcp, c.kcp2 = some kcp
  start : c.phase ≠ .start
  receive : c.phase ≠ .handshakeReceive
  read : c.phase ≠ .handshakeRead

/-- The change from `c` to `t` is that of the calls, and the datagrams are what they hand over and
what the first object hands over. -/
def Does (subid : ℕ) (c : Client) (cs : List EndpointCall) (t : Client) (out : List Bytes) : Prop :=
  ∃ bufs bufs' : List Bytes, out = bufs.map (pack subid) ++ bufs'.map (pack 0) ∧
    ∀ sent, (c.endpoint sent).calls cs = t.endpoint (sent ++ bufs)

variable {subid : ℕ} {c t v : Client} {cs cs' : List EndpointCall} {out out' : List Bytes}

theorem eq_of_some {α β : Type*} {r : α × β} {a : α} {b : β} (h : some r = some (a, b)) :
    r.1 = a ∧ r.2 = b := by
  obtain rfl := Option.some.inj h
  exact ⟨rfl, rfl⟩

theorem Does.refl {subid : ℕ} {c t : Client} (h : ∀ sent, c.endpoint sent = t.endpoint sent) :
    Does subid c [] t [] := by
  refine ⟨[], [], rfl, fun sent => ?_⟩
  rw [List.append_nil]
  exact h sent

theorem connected_update1 (h : c.Connected subid) (ms : ℤ) :
    (c.update1 ms).1.Connected subid := by
  unfold update1
  split
  · exact h
  · exact ⟨h.subid, h.kcp2, h.start, h.receive, h.read⟩

/-- The first object is no part of the endpoint. -/
theorem update1_spec (c : Client) (ms : ℤ) :
    (∃ bufs : List Bytes, (c.update1 ms).2 = bufs.map (pack 0)) ∧
      ∀ sent, (c.update1 ms).1.endpoint sent = c.endpoint sent := by
  unfold update1
  split
  · exact ⟨⟨[], rfl⟩, fun _ => rfl⟩
  · exact ⟨⟨_, rfl⟩, fun _ => rfl⟩

theorem connected_update2 (h : c.Connected subid) (ms : ℤ) :
    (c.update2 ms).1.Connected subid := by
  unfold update2
  split
  · exact h
  · exact ⟨h.subid, ⟨_, rfl⟩, h.start, h.receive, h.read⟩

theorem update2_spec (h : c.Connected subid) (ms : ℤ) :
    ∃ bufs, (c.update2 ms).2 = bufs.map (pack subid) ∧
      ∀ sent, (c.endpoint sent).calls [.update ms] =
        (c.update2 ms).1.endpoint (sent ++ bufs) := by
  obtain ⟨kcp, hkcp⟩ := h.kcp2
  have hid : c.subid.toNat = subid := by rw [h.subid, Int.toNat_natCast]
  unfold update2 endpoint
  rw [hkcp]
  exact ⟨(kcp.lkcpUpdate ms).2, by rw [← hid], fun sent => rfl⟩

theorem connected_send (h : c.Connected subid) (package : Bytes) :
    (c.send package).Connected subid := by
  unfold send
  split
  · exact h
  · exact ⟨h.subid, ⟨_, rfl⟩, h.start, h.receive, h.read⟩

theorem send_spec (h : c.Connected subid) (package : Bytes) (sent : List Bytes) :
    (c.endpoint sent).calls [.send package] = (c.send package).endpoint sent := by
  obtain ⟨kcp, hkcp⟩ := h.kcp2
  unfold send endpoint
  rw [hkcp]
  rfl

theorem connected_flush (h : c.Connected subid) : c.flush.1.Connected subid := by
  unfold flush
  split
  · exact h
  · exact ⟨h.subid, ⟨_, rfl⟩, h.start, h.receive, h.read⟩

theorem flush_spec (h : c.Connected subid) :
    ∃ bufs, c.flush.2 = bufs.map (pack subid) ∧
      ∀ sent, (c.endpoint sent).calls [.flush] = c.flush.1.endpoint (sent ++ bufs) := by
  obtain ⟨kcp, hkcp⟩ := h.kcp2
  have hid : c.subid.toNat = subid := by rw [h.subid, Int.toNat_natCast]
  unfold flush endpoint
  rw [hkcp]
  exact ⟨kcp.flush.2, by rw [← hid], fun sent => rfl⟩

theorem connected_top (h : c.Connected subid) (hpos : 0 < subid) (wall : ℕ) :
    (c.top wall).Connected subid := by
  have hid := h.subid
  unfold top
  rw [if_neg (by omega), if_neg (by omega)]
  exact ⟨h.subid, h.kcp2, by simp, by simp, by simp⟩

theorem endpoint_top (c : Client) (wall : ℕ) (sent : List Bytes) :
    (c.top wall).endpoint sent = c.endpoint sent := by
  unfold top
  split_ifs <;> rfl

theorem connected_read (h : c.Connected subid) : c.read.Connected subid := by
  obtain ⟨kcp, hkcp⟩ := h.kcp2
  unfold read
  rw [hkcp]
  dsimp only
  split_ifs
  · exact ⟨h.subid, ⟨_, rfl⟩, h.start, h.receive, h.read⟩
  · exact ⟨h.subid, ⟨_, rfl⟩, by simp, by simp, by simp⟩

theorem read_spec (h : c.Connected subid) (sent : List Bytes) :
    (c.endpoint sent).calls [.recv] = c.read.endpoint sent := by
  obtain ⟨kcp, hkcp⟩ := h.kcp2
  have hstr : kcp.lkcpRecv.1.2 = if kcp.lkcpRecv.1.1 ≤ 0 then none else
      some (kcp.recv recvBufferLen).2.1 := rfl
  unfold read endpoint
  rw [hkcp]
  dsimp only
  split_ifs with hpos
  · rfl
  · rw [if_pos (not_lt.mp hpos)] at hstr
    simp [Endpoint.calls, Endpoint.call, hstr]

/-- What a datagram does: one of the connection is fed to the second object. -/
theorem receive_spec (h : c.Connected subid) (d : Bytes) :
    (c.receive d).1.Connected subid ∧ ∃ cs,
      (∀ data, .input data ∈ cs → unpackPackage d = some (subid, data)) ∧
      Does subid c cs (c.receive d).1 (c.receive d).2 := by
  obtain ⟨kcp, hkcp⟩ := h.kcp2
  unfold receive
  split
  · exact ⟨h, [], by simp, .refl fun _ => rfl⟩
  · rename_i id str hd
    split_ifs with hid hzero
    · have hid : id = subid := by
        have := h.subid
        omega
      refine ⟨⟨h.subid, ⟨(kcp.input str).2, by rw [hkcp]; rfl⟩, h.start, h.receive, h.read⟩,
        [.input str], fun data hdata => ?_, [], [], rfl, fun sent => ?_⟩
      · obtain rfl : data = str := by simpa using hdata
        rw [hd, hid]
      · rw [List.append_nil]
        unfold endpoint
        rw [hkcp]
        rfl
    · set c' : Client := { c with kcp1 := c.kcp1.map fun (kcp : Ikcpcb) => (kcp.input str).2 }
      have hc' : c'.Connected subid := ⟨h.subid, h.kcp2, h.start, h.receive, h.read⟩
      obtain ⟨⟨bufs, hbufs⟩, hend⟩ := update1_spec c' c.ms
      refine ⟨connected_update1 hc' c.ms, [], by simp, [], bufs, hbufs, fun sent => ?_⟩
      rw [List.append_nil, hend]
      rfl
    · exact ⟨h, [], by simp, .refl fun _ => rfl⟩

/-- The round of the main loop that leads to a command: both objects are updated. -/
theorem does_wait (h : c.Connected subid) (ms : ℤ) :
    ((c.update2 ms).1.update1 ms).1.Connected subid ∧
      Does subid c [.update ms] ((c.update2 ms).1.update1 ms).1
        ((c.update2 ms).2 ++ ((c.update2 ms).1.update1 ms).2) := by
  obtain ⟨bufs, hout, hend⟩ := update2_spec h ms
  obtain ⟨⟨bufs', hout'⟩, hend'⟩ := update1_spec (c.update2 ms).1 ms
  refine ⟨connected_update1 (connected_update2 h _) _, bufs, bufs', ?_, fun sent => ?_⟩
  · rw [hout, hout']
  · exact (hend sent).trans (hend' _).symm

/-- A command sends its package, if there is one, and goes back to the main loop. -/
theorem does_command (h : c.Connected subid) (hpos : 0 < subid) (package : Option Bytes)
    (wall : ℕ) :
    (c.command package wall).1.Connected subid ∧ ∃ cs, (∀ data, .input data ∉ cs) ∧
      Does subid c cs (c.command package wall).1 (c.command package wall).2 := by
  cases package with
  | none =>
    exact ⟨connected_top h hpos wall, [], by simp, .refl fun sent => (endpoint_top c wall _).symm⟩
  | some package =>
    have h₁ := connected_send h package
    obtain ⟨bufs, hout, hend⟩ := flush_spec h₁
    refine ⟨connected_top (connected_flush h₁) hpos wall, [.send package, .flush], by simp, bufs,
      [], hout.trans (List.append_nil _).symm, fun sent => ?_⟩
    calc (c.endpoint sent).calls [.send package, .flush]
        = ((c.endpoint sent).calls [.send package]).calls [.flush] := rfl
      _ = (c.send package).flush.1.endpoint (sent ++ bufs) := by rw [send_spec h package, hend]
      _ = (c.command (some package) wall).1.endpoint (sent ++ bufs) :=
        (endpoint_top _ wall _).symm

/-- What a step of a connected client does; it feeds the datagram that it receives, and no
other. -/
theorem does_step {e : ClientEvent} (h : c.Connected subid) (hpos : 0 < subid)
    (hstep : c.step e = some (t, out)) :
    t.Connected subid ∧ ∃ cs,
      (∀ data, .input data ∈ cs → ∃ d, e = .receive d ∧ unpackPackage d = some (subid, data)) ∧
      Does subid c cs t out := by
  cases e with
  | begin wall time =>
    simp only [step] at hstep
    rw [if_neg h.start] at hstep
    simp at hstep
  | receive d =>
    simp only [step] at hstep
    split at hstep
    · rename_i hphase
      exact absurd hphase h.receive
    · obtain ⟨rfl, rfl⟩ := eq_of_some hstep
      obtain ⟨ht, cs, hcs, hdoes⟩ := receive_spec h d
      exact ⟨ht, cs, fun data hdata => ⟨d, rfl, hcs data hdata⟩, hdoes⟩
    · simp at hstep
  | drained =>
    simp only [step] at hstep
    split at hstep
    · rename_i hphase
      exact absurd hphase h.receive
    · obtain ⟨rfl, rfl⟩ := eq_of_some hstep
      exact ⟨⟨h.subid, h.kcp2, by simp, by simp, by simp⟩, [], by simp, .refl fun _ => rfl⟩
    · simp at hstep
  | read wall =>
    simp only [step] at hstep
    split at hstep
    · rename_i hphase
      exact absurd hphase h.read
    · obtain ⟨rfl, rfl⟩ := eq_of_some hstep
      refine ⟨connected_read h, [.recv], by simp, [], [], rfl, fun sent => ?_⟩
      rw [List.append_nil]
      exact read_spec h sent
    · simp at hstep
  | wait wall =>
    have h₀ : Connected subid { c with ms := getms wall, phase := .command } :=
      ⟨h.subid, h.kcp2, by simp, by simp, by simp⟩
    simp only [step] at hstep
    split at hstep
    · obtain ⟨rfl, rfl⟩ := eq_of_some hstep
      obtain ⟨⟨bufs, hbufs⟩, hend⟩ :=
        update1_spec { c with ms := getms wall, phase := .command } (getms wall)
      refine ⟨connected_update1 h₀ _, [], by simp, [], bufs, hbufs, fun sent => ?_⟩
      rw [List.append_nil]
      exact (hend sent).symm
    · obtain ⟨rfl, rfl⟩ := eq_of_some hstep
      obtain ⟨ht, hdoes⟩ := does_wait h₀ (getms wall)
      exact ⟨ht, [.update (getms wall)], by simp, hdoes⟩
    · simp at hstep
  | command package wall =>
    simp only [step] at hstep
    split_ifs at hstep
    obtain ⟨rfl, rfl⟩ := eq_of_some hstep
    obtain ⟨ht, cs, hcs, hdoes⟩ := does_command h hpos package wall
    exact ⟨ht, cs, fun data hdata => absurd hdata (hcs data), hdoes⟩
  | send package =>
    obtain ⟨rfl, rfl⟩ := eq_of_some hstep
    refine ⟨connected_send h package, [.send package], by simp, [], [], rfl, fun sent => ?_⟩
    rw [List.append_nil]
    exact send_spec h package sent
  | flush =>
    obtain ⟨rfl, rfl⟩ := eq_of_some hstep
    obtain ⟨bufs, hout, hend⟩ := flush_spec h
    exact ⟨connected_flush h, [.flush], by simp, bufs, [],
      hout.trans (List.append_nil _).symm, hend⟩
  | update wall =>
    obtain ⟨rfl, rfl⟩ := eq_of_some hstep
    obtain ⟨bufs, hout, hend⟩ := update2_spec h (getms wall)
    exact ⟨connected_update2 h _, [.update (getms wall)], by simp, bufs, [],
      hout.trans (List.append_nil _).symm, hend⟩

end Client

/-! ## The connection -/

/-- Both sides of a connection, and all the datagrams that each has sent: the network may hand over
any of them at any time, and any number of times. -/
structure Link where
  server : Conn
  client : Client
  up : List Bytes
  down : List Bytes

/-- Something happens at one of the sides. -/
inductive LinkEvent
  | server (e : ConnEvent)
  | client (e : ClientEvent)

namespace Link

/-- A payload dispatched for the connection comes from a datagram of the client. -/
def delivers (s : Link) : ConnEvent → Bool
  | .dispatch _ str _ _ => decide (str ∈ payloads s.server.subid s.up)
  | _ => true

/-- A datagram that the client receives comes from the connection, or is one for another
connection. -/
def hands (s : Link) : ClientEvent → Bool
  | .receive d => decide (d ∈ s.down) ||
      decide ((unpackPackage d).map Prod.fst ≠ some s.server.subid)
  | _ => true

/-- Each side has sent fewer than `2 ^ 31` segments, and has accepted shorter messages only. -/
structure Bounded (s : Link) : Prop where
  client : (s.client.endpoint []).segments < 2 ^ 31
  server : (s.server.endpoint []).segments < 2 ^ 31
  up : ∀ m ∈ s.client.accepted, m.length < 2 ^ 31
  down : ∀ m ∈ s.server.accepted, m.length < 2 ^ 31

def step (s : Link) : LinkEvent → Option Link
  | .server e =>
    if s.delivers e then
      (s.server.step e).map fun r =>
        { s with server := r.1, down := s.down ++ r.2.map Datagram.data }
    else none
  | .client e =>
    if s.hands e then
      (s.client.step e).map fun r => { s with client := r.1, up := s.up ++ r.2 }
    else none

/-- A connection record made for `subid` at the time `wall`, and a client that has just been told
this id and has made its second object at the time `wall'`. -/
def start (subid : ℕ) (fromAddr : Bytes) (uid : LuaNumber) (born wall : ℕ)
    (uid' wall' time : ℕ) (kcp1 : Option Ikcpcb) : Link where
  server := Conn.start fromAddr subid uid (getKcp fromAddr subid wall).1 born
  client := Client.connected uid' subid wall' time kcp1
  up := (Client.getKcp subid wall').2
  down := (getKcp fromAddr subid wall).2.map Datagram.data

/-- The step keeps both sides bounded. -/
def StaysBounded (s : Link) (e : LinkEvent) : Prop := ∀ t, s.step e = some t → t.Bounded

/-- The two endpoints of a connection. -/
def duplex (subid : ℕ) (s : Link) : Duplex
  | .client => s.client.endpoint (payloads subid s.up)
  | .server => s.server.endpoint (payloads subid s.down)

/-- What holds of a connection for `subid`. -/
structure Inv (subid : ℕ) (s : Link) : Prop where
  id : s.server.subid = subid
  connected : s.client.Connected subid
  duplex : (s.duplex subid).Inv (convOf subid)
  bounded : s.Bounded

theorem toNat_convOf {subid : ℕ} (h : subid < 2 ^ 32) : (convOf subid).toNat = subid := by
  rw [convOf, BitVec.toNat_ofNat, Nat.mod_eq_of_lt h]

variable {subid : ℕ} {s t : Link}

/-- The buffers handed over by an endpoint in the invariant fit packages. -/
theorem length_lt {d : Duplex} {conv : U32} (h : d.Inv conv) {x : Side} {buf : Bytes}
    (hbuf : buf ∈ (d x).sent) : buf.length < 2 ^ 16 := by
  obtain ⟨n, read, R, is, hs, -⟩ := h x
  exact hs.length_lt hbuf

/-- **A step of the server** is a run of the two endpoints. -/
theorem server_step {e : ConnEvent} (hs : subid < 2 ^ 32) (h : s.Inv subid)
    (hstep : s.step (.server e) = some t) :
    t.server.subid = subid ∧ t.client = s.client ∧
      (duplexMachine (convOf subid)).Path Duplex.Bounded (s.duplex subid) (t.duplex subid) := by
  simp only [step] at hstep
  split_ifs at hstep with hdel
  obtain ⟨⟨u, out⟩, hu, rfl⟩ := Option.map_eq_some_iff.mp hstep
  obtain ⟨cs, hfed, bufs, hout, hcalls⟩ := Conn.does_step (h.duplex .server).configured hu
  rw [toNat_convOf hs] at hout
  have hpath := Duplex.path_calls (convOf subid) (s.duplex subid) .server fun data hdata => by
    obtain ⟨a, w, w', rfl⟩ := hfed data hdata
    have hmem := of_decide_eq_true hdel
    rw [h.id] at hmem
    exact ⟨hmem, h.bounded.client⟩
  have hinv := Duplex.inv_of_path h.duplex hpath
  have hend : (s.duplex subid .server).calls cs = u.endpoint (payloads subid s.down ++ bufs) :=
    hcalls _
  rw [hend] at hpath hinv
  have hlen : ∀ buf ∈ bufs, buf.length < 2 ^ 16 := fun buf hbuf => by
    refine length_lt hinv (x := .server) ?_
    rw [Function.update_self]
    exact List.mem_append_right _ hbuf
  have hmade : u.made = s.server.made := Conn.made_step hu
  refine ⟨(congrArg Prod.fst hmade).trans h.id, rfl, ?_⟩
  convert hpath using 1
  ext x : 1
  cases x with
  | client => rfl
  | server =>
    rw [Function.update_self]
    change u.endpoint (payloads subid (s.down ++ out.map Datagram.data)) = _
    rw [payloads_append, hout, payloads_pack hs hlen]

/-- **A step of the client** is a run of the two endpoints. -/
theorem client_step {e : ClientEvent} (hpos : 0 < subid) (hs : subid < 2 ^ 32)
    (h : s.Inv subid) (hstep : s.step (.client e) = some t) :
    t.client.Connected subid ∧ t.server = s.server ∧
      (duplexMachine (convOf subid)).Path Duplex.Bounded (s.duplex subid) (t.duplex subid) := by
  simp only [step] at hstep
  split_ifs at hstep with hhands
  obtain ⟨⟨c, out⟩, hc, rfl⟩ := Option.map_eq_some_iff.mp hstep
  obtain ⟨hconn, cs, hfed, bufs, bufs', hout, hcalls⟩ := Client.does_step h.connected hpos hc
  have hpath := Duplex.path_calls (convOf subid) (s.duplex subid) .client fun data hdata => by
    obtain ⟨d, rfl, hd⟩ := hfed data hdata
    have hmem : d ∈ s.down := by
      rcases Bool.or_eq_true_iff.mp hhands with hmem | hne
      · exact of_decide_eq_true hmem
      · have := of_decide_eq_true hne
        simp [hd, h.id] at this
    exact ⟨mem_payloads hmem hd, h.bounded.server⟩
  have hinv := Duplex.inv_of_path h.duplex hpath
  have hend : (s.duplex subid .client).calls cs = c.endpoint (payloads subid s.up ++ bufs) :=
    hcalls _
  rw [hend] at hpath hinv
  have hlen : ∀ buf ∈ bufs, buf.length < 2 ^ 16 := fun buf hbuf => by
    refine length_lt hinv (x := .client) ?_
    rw [Function.update_self]
    exact List.mem_append_right _ hbuf
  refine ⟨hconn, rfl, ?_⟩
  convert hpath using 1
  ext x : 1
  cases x with
  | client =>
    rw [Function.update_self]
    change c.endpoint (payloads subid (s.up ++ out)) = _
    rw [payloads_append, hout, payloads_append, payloads_pack hs hlen,
      payloads_pack_of_ne (by norm_num) (by omega), List.append_nil]
  | server => rfl

/-- The endpoints of a new connection are those made by `getKcp`, after their first update. -/
theorem path_start {subid : ℕ} (hs : subid < 2 ^ 32) (fromAddr : Bytes) (uid : LuaNumber)
    (born wall uid' wall' time : ℕ) (kcp1 : Option Ikcpcb) :
    (duplexMachine (convOf subid)).Reaches Duplex.Bounded
      ((start subid fromAddr uid born wall uid' wall' time kcp1).duplex subid) := by
  set conv := convOf subid
  set d₁ := Function.update (duplexMachine conv).init .server
    ((endpointMachine conv).init.calls [.update (getms wall)])
  set d₂ := Function.update d₁ .client
    ((endpointMachine conv).init.calls [.update (getms wall')])
  have hserver : (duplexMachine conv).Reaches Duplex.Bounded d₁ :=
    Duplex.path_calls conv (duplexMachine conv).init .server (by simp)
  have hboth : (duplexMachine conv).Reaches Duplex.Bounded d₂ :=
    hserver.trans (Duplex.path_calls conv d₁ .client (by simp))
  have hinv : Duplex.Inv conv d₂ := Duplex.inv_of_path (Duplex.inv_init conv) hboth
  have hlen (x : Side) : payloads subid ((d₂ x).sent.map (pack subid)) = (d₂ x).sent :=
    payloads_pack hs fun buf hbuf => length_lt hinv hbuf
  convert hboth using 1
  ext x : 1
  cases x with
  | client =>
    have hup := hlen .client
    change Endpoint.mk _ [] [] _ = Endpoint.mk _ [] [] _
    congr 1
  | server =>
    have hdown := hlen .server
    have hdata : (getKcp fromAddr subid wall).2.map Datagram.data =
        ((configured conv).lkcpUpdate (getms wall)).2.map (pack subid) := by
      rw [getKcp_eq]
      refine (Conn.map_data_output _ _).trans ?_
      change List.map (pack conv.toNat) _ = _
      rw [toNat_convOf hs]
    have hcb : (getKcp fromAddr subid wall).1.cb =
        ((configured conv).lkcpUpdate (getms wall)).1 := by
      rw [getKcp_eq]
      rfl
    change Endpoint.mk (getKcp fromAddr subid wall).1.cb [] []
      (payloads subid ((getKcp fromAddr subid wall).2.map Datagram.data)) = Endpoint.mk _ [] [] _
    rw [hdata, hcb]
    congr 1

theorem bounded_start (subid : ℕ) (fromAddr : Bytes) (uid : LuaNumber)
    (born wall uid' wall' time : ℕ) (kcp1 : Option Ikcpcb) :
    (start subid fromAddr uid born wall uid' wall' time kcp1).Bounded := by
  have hzero (kcp : Ikcpcb) (received sent : List Bytes) :
      (Endpoint.mk kcp [] received sent).segments < 2 ^ 31 := by
    simp [Endpoint.segments, streamOf, Piece.stream]
  exact ⟨hzero _ _ _, hzero _ _ _, by simp [start, Client.connected], by simp [start, Conn.start]⟩

end Link

/-- The runs of a connection. -/
def linkMachine (s₀ : Link) : Machine Link LinkEvent where
  init := s₀
  step := Link.step

/-- **A connection refines two endpoints.** -/
def linkRefines {subid : ℕ} (hpos : 0 < subid) (hs : subid < 2 ^ 32) (fromAddr : Bytes)
    (uid : LuaNumber) (born wall uid' wall' time : ℕ) (kcp1 : Option Ikcpcb) :
    Machine.Refinement (linkMachine (.start subid fromAddr uid born wall uid' wall' time kcp1))
      (duplexMachine (convOf subid)) Link.StaysBounded Duplex.Bounded where
  abs := Link.duplex subid
  Inv := Link.Inv subid
  init := Link.path_start hs fromAddr uid born wall uid' wall' time kcp1
  inv_init :=
    ⟨rfl, ⟨rfl, ⟨_, rfl⟩, by simp [linkMachine, Link.start, Client.connected],
        by simp [linkMachine, Link.start, Client.connected],
        by simp [linkMachine, Link.start, Client.connected]⟩,
      Duplex.inv_of_path (Duplex.inv_init _)
        (Link.path_start hs fromAddr uid born wall uid' wall' time kcp1),
      Link.bounded_start subid fromAddr uid born wall uid' wall' time kcp1⟩
  step := by
    intro s e t h hok hstep
    cases e with
    | server e =>
      obtain ⟨hid, hclient, hpath⟩ := Link.server_step hs h hstep
      exact ⟨⟨hid, hclient ▸ h.connected, Duplex.inv_of_path h.duplex hpath, hok t hstep⟩, hpath⟩
    | client e =>
      obtain ⟨hconn, hserver, hpath⟩ := Link.client_step hpos hs h hstep
      exact ⟨⟨hserver ▸ h.id, hconn, Duplex.inv_of_path h.duplex hpath, hok t hstep⟩, hpath⟩

theorem withoutEmpty_map_sentBytes {ms : List Bytes} (h : ∀ m ∈ ms, m.length < 2 ^ 31) :
    withoutEmpty (ms.map sentBytes) = withoutEmpty ms := by
  rw [List.map_congr_left fun m hm => sentBytes_of_lt (h m hm), List.map_id']

/-- **Delivery in order**: in every run of a connection whose sides stay bounded, the strings that
the server has passed to `self:request` are a prefix of the messages that the client's `lkcp_send`
has accepted, without the empty ones, and what the client has read is a prefix of those that the
connection's `lkcp_send` has accepted. -/
theorem delivered_in_order {subid : ℕ} (hpos : 0 < subid) (hs : subid < 2 ^ 32) {fromAddr : Bytes}
    {uid : LuaNumber} {born wall uid' wall' time : ℕ} {kcp1 : Option Ikcpcb} {s : Link}
    (h : (linkMachine (.start subid fromAddr uid born wall uid' wall' time kcp1)).Reaches
      Link.StaysBounded s) :
    s.server.requested <+: withoutEmpty s.client.accepted ∧
      s.client.received <+: withoutEmpty s.server.accepted := by
  obtain ⟨hinv, hreach⟩ :=
    (linkRefines hpos hs fromAddr uid born wall uid' wall' time kcp1).reaches h
  have hup := Channel.got_in_order ((channelFrom (convOf subid) .client).reaches hreach).2
  have hdown := Channel.got_in_order ((channelFrom (convOf subid) .server).reaches hreach).2
  rw [← withoutEmpty_map_sentBytes hinv.bounded.up, ← withoutEmpty_map_sentBytes hinv.bounded.down]
  exact ⟨hup, hdown⟩

instance (s : Link) : Decidable s.Bounded :=
  decidable_of_iff
    (((s.client.endpoint []).segments < 2 ^ 31 ∧ (s.server.endpoint []).segments < 2 ^ 31) ∧
      (∀ m ∈ s.client.accepted, m.length < 2 ^ 31) ∧ ∀ m ∈ s.server.accepted, m.length < 2 ^ 31)
    ⟨fun h => ⟨h.1.1, h.1.2, h.2.1, h.2.2⟩, fun h => ⟨⟨h.client, h.server⟩, h.up, h.down⟩⟩

/-- The step keeps both sides bounded, decidably. -/
def Link.staysBounded (s : Link) (e : LinkEvent) : Bool := (s.step e).all fun t => decide t.Bounded

theorem Link.staysBounded_of (s : Link) (e : LinkEvent) (h : s.staysBounded e = true) :
    s.StaysBounded e := by
  intro t ht
  unfold staysBounded at h
  rw [ht, Option.all_some] at h
  exact of_decide_eq_true h

/-- The client's message is requested, and the answer read. -/
theorem delivered_in_order_answer : ∃ s : Link,
    (linkMachine (.start 1 [2] (.ofInt 7) 1 0 7 0 0 none)).Reaches Link.StaysBounded s ∧
      s.server.requested = [[42]] ∧ s.client.received = [[43]] ∧
      s.server.requested <+: withoutEmpty s.client.accepted ∧
      s.client.received <+: withoutEmpty s.server.accepted := by
  have h : ((linkMachine (.start 1 [2] (.ofInt 7) 1 0 7 0 0 none)).run Link.staysBounded
      (.start 1 [2] (.ofInt 7) 1 0 7 0 0 none)
      [.client (.wait 100), .client (.command (some [42]) 100),
        .server (.dispatch [2] (encodeSegs [soleSegment 1 0 0 0 [42]]) 0 0), .server (.wake 0 50),
        .server (.returned 0), .server (.responseMsg [43]),
        .client (.receive (pack 1 (encodeSegs [soleSegment 1 50 0 1 [43]]))), .client .drained,
        .client (.read 100)]).any
      (fun s => decide (s.server.requested = [[42]] ∧ s.client.received = [[43]])) = true := by
    decide +kernel
  obtain ⟨s, hrun, hs⟩ := Option.any_eq_true _ _ |>.mp h
  have hreach := Machine.path_of_run Link.staysBounded_of _ hrun
  obtain ⟨hreq, hrecv⟩ := of_decide_eq_true hs
  obtain ⟨hup, hdown⟩ := delivered_in_order (by norm_num) (by norm_num) hreach
  exact ⟨s, hreach, hreq, hrecv, hup, hdown⟩

end LuaKcp
