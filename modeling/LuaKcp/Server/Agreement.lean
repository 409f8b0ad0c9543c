import LuaKcp.Server.Answers

/-!
# A client and the server agree on the connection

A client with one handshake, at one address, and the server, over a network that loses, repeats,
delays and reorders datagrams. The client's loop and the server's coroutines run in any order; other
addresses send what they like, but no handshake of the client's uid. When a connected client is told
its connection id, it is the id of the connection that the server keeps for its uid, as long as no
datagram with the handshake comes after its record has expired (`agreed_of_reaches`): the record is
all that makes the server see that the handshake is an old one.
-/

namespace LuaKcp

open Ikcp

/-- A client and the server, with the datagrams that the client has sent and those that have been
sent to it. -/
structure Network where
  server : Server
  client : Client
  up : List Bytes
  down : List Bytes

/-- A step of the server or of the client. -/
inductive NetworkEvent
  | server (e : ServerEvent)
  | client (e : ClientEvent)

namespace Network

/-- The datagram is a handshake of `uid`. -/
def greets (uid : LuaNumber) : ServerEvent → Bool
  | .datagram fromAddr msg wall wall' _ =>
    match unpackPackage msg with
    | none => false
    | some (subid, str) =>
      let h := hello fromAddr str wall wall'
      decide (subid = 0 ∧ 0 < h.1.1 ∧ (handshakeFields (h.1.2.getD [])).1 = some uid)
  | _ => false

/-- What the network delivers: from the address of the client what it has sent, from others no
handshake of its uid, and to the client what was sent to its address. Times of `os.time` are Lua
integers. -/
def allows (uid : ℕ) (addr : Bytes) (N : Network) : NetworkEvent → Bool
  | .server (.datagram fromAddr msg wall wall' wall'') =>
    if fromAddr = addr then decide (msg ∈ N.up)
    else !greets (.ofInt uid) (.datagram fromAddr msg wall wall' wall'')
  | .server _ => true
  | .client (.receive d) => decide (d ∈ N.down)
  | .client (.begin _ time) => decide (time < 2 ^ 63)
  | .client _ => true

/-- A step, and the datagrams that it adds. -/
def step (uid : ℕ) (addr : Bytes) (N : Network) (e : NetworkEvent) : Option Network :=
  if N.allows uid addr e then
    match e with
    | .server e => (N.server.step e).map fun o =>
      { N with server := o.state, down := N.down ++ told addr o.out }
    | .client e => (N.client.step e).map fun r =>
      { N with client := r.1, up := N.up ++ r.2 }
  else none

/-- A connected client has the id of the live connection of its uid. -/
def Agreed (uid : ℕ) (N : Network) : Prop :=
  0 < N.client.subid → ∃ r u, N.server.uidMap.get (.ofInt uid) = some r ∧
    N.server.conns[r]? = some u ∧ u.subid = N.client.subid ∧
      N.server.connection.get u.subid = some r

/-- A handshake of `uid` that comes when `uid` has a connection finds its record. -/
def Timely (uid : LuaNumber) (s : Server) (e : ServerEvent) : Prop :=
  greets uid e = true → s.uidMap.get uid ≠ none → s.handshakeMap.get uid ≠ none

/-- The id allocated to a handshake is not that of a connection of another uid, where one of the two
is `uid`. -/
def Apart (uid : LuaNumber) (s : Server) (e : ServerEvent) : Prop :=
  ∀ a, s.accepted e = some a → ∀ v, v ≠ a.uid → (v = uid ∨ a.uid = uid) →
    (s.connectionOf v).map Conn.subid ≠ some (Server.nextSubid s.subid)

/-- A step that does not disturb the connection of `uid`. -/
def Undisturbed (uid : ℕ) (N : Network) : NetworkEvent → Prop
  | .server e => Timely (.ofInt uid) N.server e ∧ Apart (.ofInt uid) N.server e
  | .client _ => True

end Network

/-- The runs of a client with the uid `uid` at `addr`, and the server. -/
def networkMachine (uid : ℕ) (addr : Bytes) : Machine Network NetworkEvent where
  init := ⟨.ctor, .ctor uid, [], []⟩
  step := Network.step uid addr

/-! ## The connection of the uid -/

namespace Server

/-- The connection of `uid` has the id `n`, and no other uid has it. -/
structure Kept (uid : LuaNumber) (n : ℕ) (s : Server) : Prop where
  live : ∃ r born, s.uidMap.get uid = some r ∧ s.connAt r = some (n, uid, born) ∧
    s.connection.get n = some r
  apart : ∀ v, v ≠ uid → (s.connectionOf v).map Conn.subid ≠ some n

namespace Kept

variable {uid : LuaNumber} {n : ℕ} {s t : Server}

/-- Steps that keep the connection tables and what their records were made with. -/
theorem congr (h : s.Kept uid n) (hat : ∀ r, t.connAt r = s.connAt r)
    (hc : t.connection = s.connection) (hu : t.uidMap = s.uidMap) : t.Kept uid n := by
  refine ⟨?_, fun v hv => ?_⟩
  · obtain ⟨r, born, hr, hconn, hget⟩ := h.live
    exact ⟨r, born, by rw [hu, hr], by rw [hat, hconn], by rw [hc, hget]⟩
  · have hold := h.apart v hv
    rw [map_subid_connectionOf] at hold ⊢
    simpa only [hat, hu] using hold

/-- A handshake of another uid is registered. -/
theorem registered_of_ne (h : s.Kept uid n) {a : Accepted} (hu : a.uid ≠ uid)
    (hapart : (s.connectionOf uid).map Conn.subid ≠ some (nextSubid s.subid))
    (hr : Registered s a t) : t.Kept uid n := by
  obtain ⟨r, born, hmap, hconn, hget⟩ := h.live
  have hid : (s.connectionOf uid).map Conn.subid = some n := by
    rw [map_subid_connectionOf, hmap]
    simp [hconn]
  have hnext : n ≠ nextSubid s.subid := by
    rintro rfl
    exact hapart hid
  refine ⟨⟨r, born, ?_, ?_, ?_⟩, fun v hv => ?_⟩
  · rw [hr.uidMap, if_neg (Ne.symm hu), hmap]
  · rw [hr.connAt, if_neg (connAt_lt hconn).ne, hconn]
  · rw [hr.connection, if_neg (h.apart a.uid hu), if_neg hnext, hget]
  · have hold := h.apart v hv
    rw [map_subid_connectionOf] at hold ⊢
    rw [hr.uidMap]
    split_ifs with hva hsame
    · simp
    · rw [Option.bind_some, hr.connAt, if_pos rfl]
      simpa using hnext.symm
    · cases hv' : s.uidMap.get v with
      | none => simp
      | some r' =>
        rw [hv'] at hold
        rw [Option.bind_some] at hold ⊢
        rw [hr.connAt]
        split_ifs with hr'
        · simpa using hnext.symm
        · exact hold

/-- The first handshake of the uid is registered. -/
theorem registered {a : Accepted} (hnone : s.uidMap.get a.uid = none) (hwf : s.Wf)
    (hapart : ∀ v, v ≠ a.uid → (s.connectionOf v).map Conn.subid ≠ some (nextSubid s.subid))
    (hr : Registered s a t) : t.Kept a.uid (nextSubid s.subid) := by
  have hold : (s.connectionOf a.uid).map Conn.subid = none := by
    rw [map_subid_connectionOf, hnone]
    rfl
  refine ⟨⟨s.conns.length, s.advances + 1, ?_, ?_, ?_⟩, fun v hv => ?_⟩
  · rw [hr.uidMap, if_pos rfl, hold]
    simp
  · rw [hr.connAt, if_pos rfl]
  · rw [hr.connection, hold]
    simp
  · have hother := hapart v hv
    rw [map_subid_connectionOf] at hother ⊢
    rw [hr.uidMap, if_neg hv]
    cases hv' : s.uidMap.get v with
    | none => simp
    | some r' =>
      rw [hv'] at hother
      rw [Option.bind_some] at hother ⊢
      rw [hr.connAt, if_neg (hwf.uidMap_lt r' hv').ne]
      exact hother

end Kept

/-- A step that accepts no handshake leaves the connection tables alone. -/
theorem connections_of_accepted_eq_none {s : Server} {e : ServerEvent} {o : Outcome}
    (hstep : s.step e = some o) (ha : s.accepted e = none) :
    (∀ r, o.state.connAt r = s.connAt r) ∧ o.state.connection = s.connection ∧
      o.state.uidMap = s.uidMap := by
  have hsame (h : Same s o.state) : (∀ r, o.state.connAt r = s.connAt r) ∧
      o.state.connection = s.connection ∧ o.state.uidMap = s.uidMap :=
    ⟨connAt_of_map h.conns, h.connection, h.uidMap⟩
  cases step_cases hstep with
  | accept a ha' => exact absurd (ha.symm.trans ha') (by simp)
  | quiet ha' h => exact hsame h.same
  | keepAlive ha' i k hk h => exact hsame h
  | tick ha' i l hl hrun hkeep ht =>
    cases ht with
    | stop hnone h => exact hsame h
    | update hmore h => exact hsame h
    | expire hlast hs hh conns connection connectNum uidMap =>
      refine ⟨fun r => ?_, connection, uidMap⟩
      unfold connAt
      rw [conns]

/-- A handshake that is accepted is one of its uid. -/
theorem greets_of_accepted {s : Server} {e : ServerEvent} {a : Accepted}
    (h : s.accepted e = some a) : Network.greets a.uid e = true := by
  cases e with
  | datagram fromAddr msg wall wall' wall'' =>
    obtain ⟨str, hmsg, hpos, hfields, -⟩ := accepted_datagram h
    simp [Network.greets, hmsg, hpos, hfields]
  | _ => simp [accepted] at h

end Server

/-- A client that has not asked yet asks, or does nothing. -/
theorem Client.ctor_step {uid : ℕ} {e : ClientEvent} {t : Client} {out : List Bytes}
    (h : (Client.ctor uid).step e = some (t, out)) :
    (∃ wall time, e = .begin wall time ∧ (t, out) = (Client.ctor uid).begin wall time) ∨
      t = Client.ctor uid ∧ out = [] := by
  cases e with
  | begin wall time =>
    refine Or.inl ⟨wall, time, rfl, ?_⟩
    simpa [Client.step, Client.ctor] using h.symm
  | receive | drained | read | wait | command => simp [Client.step, Client.ctor] at h
  | send | flush | update =>
    refine Or.inr ?_
    simpa [Client.step, Client.ctor, Client.send, Client.flush, Client.update2, eq_comm] using h

/-! ## The invariant -/

namespace Network

/-- The uid has no connection yet, and nothing has been answered. -/
structure Unanswered (uid : ℕ) (answers : List Bytes) (N : Network) : Prop where
  answers : answers = []
  uidMap : N.server.uidMap.get (.ofInt uid) = none
  client : N.client.subid ≤ 0

/-- The uid has the connection `n`, which the one answer tells. -/
structure Answered (uid : ℕ) (answers : List Bytes) (n : ℕ) (N : Network) : Prop where
  pos : 0 < n
  lt : n < 4294967295
  answers : answers = [replyPackage n (natDigits N.client.handshaketime)]
  kept : N.server.Kept (.ofInt uid) n
  client : 0 < N.client.subid → N.client.subid = n

/-- What holds in all runs: `answers` is what the client has been answered. -/
structure Inv (uid : ℕ) (addr : Bytes) (answers : List Bytes) (N : Network) : Prop where
  wf : N.server.Wf
  speaks : N.server.Speaks (.ofInt uid) addr (.ofInt N.client.handshaketime) answers
  down : Conveys answers 1 (payloads 0 N.down)
  time : N.client.handshaketime < 2 ^ 63
  client : (N.client = .ctor uid ∧ N.up = [] ∧ answers = []) ∨
    ∃ n, N.client.Asks uid answers n 1 N.up
  agreed : N.Unanswered uid answers ∨ ∃ n, N.Answered uid answers n

theorem inv_init (uid : ℕ) (addr : Bytes) : (networkMachine uid addr).init.Inv uid addr [] where
  wf := .ctor
  speaks := .ctor _ addr _
  down := .nil [] 1
  time := by norm_num [networkMachine, Client.ctor]
  client := Or.inl ⟨rfl, rfl, rfl⟩
  agreed := Or.inl ⟨rfl, by simp [networkMachine, Server.ctor], by
    norm_num [networkMachine, Client.ctor]⟩

/-- The answer is read as the connection id. -/
theorem Answered.tell {uid : ℕ} {answers : List Bytes} {n : ℕ} {N : Network}
    (h : N.Answered uid answers n) (htime : N.client.handshaketime < 2 ^ 63) :
    Client.Tell N.client.handshaketime answers := by
  have hlt : n < 2 ^ 32 := h.lt.trans (by norm_num)
  have hlen := length_replyPackage_le hlt htime
  rw [h.answers]
  intro a ha
  obtain rfl := List.mem_singleton.mp ha
  exact ⟨acceptable_of_length_le hlen, sentBytes_of_lt (by omega), n, h.pos, hlt,
    answer_replyPackage ⟨h.pos, hlt⟩ htime⟩

namespace Inv

variable {uid : ℕ} {addr : Bytes} {answers : List Bytes} {N : Network}

theorem agreed_of_inv (h : N.Inv uid addr answers) : N.Agreed uid := by
  intro hpos
  rcases h.agreed with hno | ⟨n, hyes⟩
  · exact absurd hpos (not_lt.mpr hno.client)
  · obtain ⟨r, born, hmap, hconn, hget⟩ := hyes.kept.live
    obtain ⟨u, hu, hmade⟩ := Option.map_eq_some_iff.mp hconn
    have hid : u.subid = n := congrArg Prod.fst hmade
    refine ⟨r, u, hmap, hu, ?_, by rw [hid, hget]⟩
    rw [hyes.client hpos, hid]

/-- A step of the client. -/
theorem client_step (h : N.Inv uid addr answers) (hu : uid < 2 ^ 63) {e : ClientEvent}
    {t : Network} (hstep : N.step uid addr (.client e) = some t) : t.Inv uid addr answers := by
  unfold Network.step at hstep
  split_ifs at hstep with hallows
  obtain ⟨⟨c, out⟩, hc, rfl⟩ := Option.map_eq_some_iff.mp hstep
  rcases h.client with ⟨hctor, hup, rfl⟩ | ⟨n, hasks⟩
  · rw [hctor] at hc
    have hno : N.Unanswered uid [] := by
      rcases h.agreed with hno | ⟨n, hyes⟩
      · exact hno
      · exact absurd hyes.answers (by simp)
    rcases Client.ctor_step hc with ⟨wall, time, rfl, hbegin⟩ | ⟨rfl, rfl⟩
    · have htime : time < 2 ^ 63 := of_decide_eq_true hallows
      obtain ⟨rfl, rfl⟩ := Prod.mk.inj hbegin
      obtain ⟨heq, n, hasks⟩ := Client.asks_begin uid wall
        (length_handshakePackage_le hu htime) [] 1
      refine ⟨h.wf, h.speaks.told_first _ h.speaks.short, h.down, ?_, Or.inr ⟨n, ?_⟩, Or.inl
        ⟨rfl, hno.uidMap, le_rfl⟩⟩
      · exact heq ▸ htime
      · rw [hup]
        exact hasks
    · rw [List.append_nil, ← hctor]
      exact h
  · have hm : (1 : ℕ) < 2 ^ 31 := by norm_num
    have htell : Client.Tell N.client.handshaketime answers := by
      rcases h.agreed with hno | ⟨n, hyes⟩
      · rw [hno.answers]
        exact fun a ha => absurd ha List.not_mem_nil
      · exact hyes.tell h.time
    have hreceive (d : Bytes) (hd : e = .receive d) : Conveys answers 1 (payloads 0 [d]) := by
      subst hd
      have hmem : [d] ⊆ N.down := by
        simpa using of_decide_eq_true hallows
      exact fun str hstr => h.down str (payloads_subset 0 hmem hstr)
    obtain ⟨htime, hsubid, n', hasks'⟩ := hasks.step hm htell hreceive hc
    refine ⟨h.wf, by rw [htime]; exact h.speaks, h.down, by rw [htime]; exact h.time,
      Or.inr ⟨n', hasks'⟩, ?_⟩
    rcases h.agreed with hno | ⟨n, hyes⟩
    · refine Or.inl ⟨hno.answers, hno.uidMap, ?_⟩
      rcases hsubid with hsame | ⟨a, ha, -⟩
      · exact hsame.le.trans hno.client
      · rw [hno.answers] at ha
        exact absurd ha List.not_mem_nil
    · refine Or.inr ⟨n, hyes.pos, hyes.lt, by rw [htime]; exact hyes.answers, hyes.kept, ?_⟩
      intro hpos
      rcases hsubid with hsame | ⟨a, ha, hanswer⟩
      · rw [hsame] at hpos ⊢
        exact hyes.client hpos
      · rw [hyes.answers] at ha
        obtain rfl := List.mem_singleton.mp ha
        rw [answer_replyPackage ⟨hyes.pos, hyes.lt.trans (by norm_num)⟩ h.time] at hanswer
        have hint := LuaNumber.fin.inj (Option.some.inj hanswer)
        exact_mod_cast hint.symm

/-- The server has told the address what it did before, and what the step adds. -/
theorem of_server (h : N.Inv uid addr answers) {answers' : List Bytes} {o : Outcome}
    (hwf : o.state.Wf)
    (hspeaks : o.state.Speaks (.ofInt uid) addr (.ofInt N.client.handshaketime) answers')
    (hout : Conveyed addr answers' o.out) (hmore : ∃ more, answers' = answers ++ more)
    (hfirst : answers' = answers ∨ N.up ≠ [])
    (hagreed :
      ({ N with server := o.state, down := N.down ++ told addr o.out } : Network).Unanswered uid
        answers' ∨
      ∃ n, ({ N with server := o.state, down := N.down ++ told addr o.out } : Network).Answered uid
        answers' n) :
    ({ N with server := o.state, down := N.down ++ told addr o.out } : Network).Inv uid addr
      answers' := by
  obtain ⟨more, rfl⟩ := hmore
  refine ⟨hwf, hspeaks, ?_, h.time, ?_, hagreed⟩
  · rw [payloads_append]
    exact (h.down.mono more le_rfl).append hout
  · rcases h.client with ⟨hctor, hup, hnil⟩ | ⟨n, hasks⟩
    · rcases hfirst with hsame | hne
      · exact Or.inl ⟨hctor, hup, hsame.trans hnil⟩
      · exact absurd hup hne
    · exact Or.inr ⟨n, hasks.mono more le_rfl⟩

/-- A step of the server that accepts no handshake. -/
theorem server_quiet (h : N.Inv uid addr answers) {e : ServerEvent} {o : Outcome}
    (hstep : N.server.step e = some o) (ha : N.server.accepted e = none) :
    ({ N with server := o.state, down := N.down ++ told addr o.out } : Network).Inv uid addr
      answers := by
  obtain ⟨hat, hc, hmap⟩ := Server.connections_of_accepted_eq_none hstep ha
  obtain ⟨hspeaks, hout⟩ := h.speaks.step h.wf
    (fun a ha' => absurd (ha.symm.trans ha') (by simp)) hstep
  refine h.of_server (h.wf.step hstep) hspeaks hout ⟨[], (List.append_nil _).symm⟩ (Or.inl rfl) ?_
  rcases h.agreed with hno | ⟨n, hyes⟩
  · refine Or.inl ⟨hno.answers, ?_, hno.client⟩
    rw [← hno.uidMap]
    exact congrArg (fun x => LuaTable.get x (.ofInt uid)) hmap
  · exact Or.inr ⟨n, hyes.pos, hyes.lt, hyes.answers, hyes.kept.congr hat hc hmap, hyes.client⟩

/-- The server accepts a handshake of another uid. -/
theorem server_other (h : N.Inv uid addr answers) {e : ServerEvent} {a : Accepted} {o : Outcome}
    (hstep : N.server.step e = some o) (ha : N.server.accepted e = some a)
    (hu : a.uid ≠ .ofInt uid) (hfrom : a.fromAddr ≠ addr) (hapart : Apart (.ofInt uid) N.server e) :
    ({ N with server := o.state, down := N.down ++ told addr o.out } : Network).Inv uid addr
      answers := by
  have hexpects : N.server.Expects (.ofInt uid) addr (.ofInt N.client.handshaketime) answers e := by
    intro a' ha'
    obtain rfl : a = a' := Option.some.inj (ha.symm.trans ha')
    exact ⟨iff_of_false hfrom hu, fun heq => absurd heq hu⟩
  obtain ⟨hspeaks, hout⟩ := h.speaks.step h.wf hexpects hstep
  have hcases := (Server.accepted_cases h.wf ha hstep).2
  refine h.of_server (h.wf.step hstep) hspeaks hout ⟨[], (List.append_nil _).symm⟩ (Or.inl rfl) ?_
  rcases h.agreed with hno | ⟨n, hyes⟩
  · refine Or.inl ⟨hno.answers, ?_, hno.client⟩
    rcases hcases with ⟨-, -, hr⟩ | ⟨-, -, hr⟩
    · rw [← hno.uidMap]
      exact congrArg (fun x => LuaTable.get x (.ofInt uid)) hr.uidMap
    · change o.state.uidMap.get (.ofInt uid) = none
      rw [hr.uidMap, if_neg (Ne.symm hu), hno.uidMap]
  · refine Or.inr ⟨n, hyes.pos, hyes.lt, hyes.answers, ?_, hyes.client⟩
    rcases hcases with ⟨-, -, hr⟩ | ⟨-, -, hr⟩
    · refine hyes.kept.congr (fun r => ?_) hr.connection hr.uidMap
      exact hr.connAt r
    · exact hyes.kept.registered_of_ne hu (hapart a ha (.ofInt uid) (Ne.symm hu) (Or.inl rfl)) hr

/-- The record of a handshake of the uid keeps the server from accepting it again. -/
theorem not_admits (h : N.Inv uid addr answers)
    (hrecord : N.server.handshakeMap.get (.ofInt uid) ≠ none) :
    N.server.admits (.ofInt uid) (.ofInt N.client.handshaketime) = false := by
  obtain ⟨r, hr⟩ := Option.ne_none_iff_exists'.mp hrecord
  obtain ⟨fromAddr, time, hat⟩ := h.wf.handshakeMap _ r hr
  obtain ⟨g, hg, hmade⟩ := Option.map_eq_some_iff.mp hat
  have hgu : g.uid = .ofInt uid := congrArg Prod.fst hmade
  have htime := ((h.speaks.handshakes g (List.mem_of_getElem? hg)).sending hgu).1
  have hof : N.server.handshakeOf (.ofInt uid) = some g := by
    unfold Server.handshakeOf
    rw [hr]
    exact hg
  unfold Server.admits
  rw [hof, Option.map_some, Option.getD_some, htime]
  simp [LuaNumber.lt, LuaNumber.ofInt]

/-- What the server reads from a datagram of the client is its handshake. -/
theorem reads (h : N.Inv uid addr answers) (hu : uid < 2 ^ 63) {msg str : Bytes}
    (hup : msg ∈ N.up) (hmsg : unpackPackage msg = some (0, str)) {fromAddr : Bytes}
    {wall wall' : ℕ} (hpos : 0 < (hello fromAddr str wall wall').1.1) :
    handshakeFields ((hello fromAddr str wall wall').1.2.getD []) =
      (some (.ofInt uid), some (.ofInt N.client.handshaketime)) := by
  rcases h.client with ⟨-, hnil, -⟩ | ⟨n, hasks⟩
  · rw [hnil] at hup
    exact absurd hup List.not_mem_nil
  · have hlen := length_handshakePackage_le hu h.time
    have hn := hasks.le
    rw [length_streamOf_singleton hlen] at hn
    have hcarries := hasks.conveys str (mem_payloads hup hmsg)
    rw [hello_reads hlen hcarries hn hpos, Option.getD_some]
    exact handshakeFields_handshakePackage hu h.time

/-- The server accepts the handshake of the client. -/
theorem server_own (h : N.Inv uid addr answers) {e : ServerEvent} {a : Accepted} {o : Outcome}
    (hstep : N.server.step e = some o) (ha : N.server.accepted e = some a)
    (hu : a.uid = .ofInt uid) (hfrom : a.fromAddr = addr)
    (htime : a.time = .ofInt N.client.handshaketime) (hup : N.up ≠ [])
    (hadmits : N.server.admits a.uid a.time = true) (htimely : Timely (.ofInt uid) N.server e)
    (hapart : Apart (.ofInt uid) N.server e) :
    ∃ answers', ({ N with server := o.state, down := N.down ++ told addr o.out } : Network).Inv uid
      addr answers' := by
  -- the record would have kept it out
  have hrecord : N.server.handshakeMap.get (.ofInt uid) = none := by
    by_contra hne
    have hno := h.not_admits hne
    rw [hu, htime, hno] at hadmits
    exact absurd hadmits (by simp)
  have hgreets : greets (.ofInt uid) e = true := hu ▸ Server.greets_of_accepted ha
  have hnone : N.server.uidMap.get (.ofInt uid) = none := by
    by_contra hne
    exact htimely hgreets hne hrecord
  obtain ⟨rfl, hclient⟩ : answers = [] ∧ N.client.subid ≤ 0 := by
    rcases h.agreed with hno | ⟨n, hyes⟩
    · exact ⟨hno.answers, hno.client⟩
    · obtain ⟨r, -, hr, -⟩ := hyes.kept.live
      exact absurd (hnone.symm.trans hr) (by simp)
  -- its answer is the first
  have hlt : Server.nextSubid N.server.subid < 2 ^ 32 :=
    (Server.nextSubid_lt _).trans (by norm_num)
  set answer := replyPackage (Server.nextSubid N.server.subid) (natDigits N.client.handshaketime)
  have htext : formatD a.time = some (natDigits N.client.handshaketime) := by
    rw [htime]
    exact formatD_natCast h.time
  have hlen : (streamOf [answer]).length ≤ 1 :=
    (length_streamOf_singleton (length_replyPackage_le hlt h.time)).le
  have hexpects :
      N.server.Expects (.ofInt uid) addr (.ofInt N.client.handshaketime) [answer] e := by
    intro a' ha'
    obtain rfl : a = a' := Option.some.inj (ha.symm.trans ha')
    exact ⟨iff_of_true hfrom hu, fun _ => ⟨htime, _, htext, rfl⟩⟩
  obtain ⟨hspeaks, hout⟩ :=
    (h.speaks.told_first (.ofInt N.client.handshaketime) hlen).step h.wf hexpects hstep
  refine ⟨[answer], h.of_server (h.wf.step hstep) hspeaks hout ⟨[answer], rfl⟩ (Or.inr hup)
    (Or.inr ⟨_, Server.nextSubid_pos _, Server.nextSubid_lt _, rfl, ?_, fun hpos => ?_⟩)⟩
  · rcases (Server.accepted_cases h.wf ha hstep).2 with ⟨hno, -⟩ | ⟨-, -, hr⟩
    · rw [htext] at hno
      simp at hno
    · rw [← hu]
      refine Server.Kept.registered (hu ▸ hnone) h.wf (fun v hv => ?_) hr
      exact hapart a ha v hv (Or.inr hu)
  · exact absurd hpos (not_lt.mpr hclient)

/-- A step of the server. -/
theorem server_step (h : N.Inv uid addr answers) (hu : uid < 2 ^ 63) {e : ServerEvent}
    (hok : Undisturbed uid N (.server e)) {t : Network}
    (hstep : N.step uid addr (.server e) = some t) : ∃ answers', t.Inv uid addr answers' := by
  unfold Network.step at hstep
  split_ifs at hstep with hallows
  obtain ⟨o, ho, rfl⟩ := Option.map_eq_some_iff.mp hstep
  cases ha : N.server.accepted e with
  | none => exact ⟨answers, h.server_quiet ho ha⟩
  | some a =>
    cases e with
    | datagram fromAddr msg wall wall' wall'' =>
      obtain ⟨str, hmsg, hpos, hfields, hadmits, heq⟩ := Server.accepted_datagram ha
      have hfrom : a.fromAddr = fromAddr := congrArg Accepted.fromAddr heq
      unfold allows at hallows
      dsimp only at hallows
      split_ifs at hallows with haddr
      · have hup : msg ∈ N.up := of_decide_eq_true hallows
        rw [h.reads hu hup hmsg hpos] at hfields
        obtain ⟨huid, htime⟩ := Prod.mk.inj hfields
        exact h.server_own ho ha (Option.some.inj huid).symm (hfrom.trans haddr)
          (Option.some.inj htime).symm (List.ne_nil_of_mem hup) hadmits hok.1 hok.2
      · refine ⟨answers, h.server_other ho ha (fun hsame => ?_) (hfrom ▸ haddr) hok.2⟩
        have hgreets := Server.greets_of_accepted ha
        rw [hsame] at hgreets
        rw [hgreets] at hallows
        exact absurd hallows (by simp)
    | _ => simp [Server.accepted] at ha

end Inv

end Network

/-- **A connected client and the server agree on the connection**, in every run in which no datagram
with the handshake comes after its record has expired. -/
theorem agreed_of_reaches {uid : ℕ} (hu : uid < 2 ^ 63) {addr : Bytes} {N : Network}
    (h : (networkMachine uid addr).Reaches (Network.Undisturbed uid) N) : N.Agreed uid := by
  have hinv : ∃ answers, N.Inv uid addr answers := by
    refine h.invariant (I := fun N : Network => ∃ answers, N.Inv uid addr answers)
      ⟨[], Network.inv_init uid addr⟩ fun s e t hs hok hstep => ?_
    obtain ⟨answers, hs⟩ := hs
    cases e with
    | server e => exact hs.server_step hu hok hstep
    | client e => exact ⟨answers, hs.client_step hu hstep⟩
  obtain ⟨answers, hinv⟩ := hinv
  exact hinv.agreed_of_inv

/-- The datagram of the answer to a first handshake, which also acknowledges it. -/
def answerDatagram (subid time : ℕ) : Bytes :=
  pack 0 (encodeSegs [{ soleSegment 0 0 0 1 [] with cmd := cmdAck },
    soleSegment 0 0 0 1 (replyPackage subid (natDigits time))])

/-- A handshake is answered, and the client takes the answer in. -/
def greeting : List NetworkEvent :=
  [.client (.begin 0 1), .client (.command none 0),
    .server (.datagram [2] (helloDatagram 7 1) 0 0 0), .client (.receive (answerDatagram 1 1)),
    .client .drained, .client (.read 0)]

/-- The six sleeps of the handshake's loop, and its datagram once more. -/
def latecomer : List NetworkEvent :=
  [500, 1000, 1500, 2000, 2500, 3000].map (fun wall => .server (.tick 0 wall)) ++
    [.server (.datagram [2] (helloDatagram 7 1) 3100 3100 3100)]

/-- A test of steps of a run in which one handshake is accepted. -/
def Network.undisturbed (uid : ℕ) (N : Network) : NetworkEvent → Bool
  | .server e => (!greets (.ofInt uid) e || (N.server.uidMap.get (.ofInt uid)).isNone ||
      (N.server.handshakeMap.get (.ofInt uid)).isSome) &&
    ((N.server.accepted e).isNone || N.server.uidMap.keys.isEmpty)
  | .client _ => true

theorem Network.undisturbed_of {uid : ℕ} (N : Network) (e : NetworkEvent)
    (h : N.undisturbed uid e = true) : Undisturbed uid N e := by
  cases e with
  | client e => trivial
  | server e =>
    simp only [undisturbed, Bool.and_eq_true, Bool.or_eq_true, Bool.not_eq_true',
      Option.isNone_iff_eq_none, Option.isSome_iff_ne_none, List.isEmpty_iff] at h
    obtain ⟨htimely, hapart⟩ := h
    refine ⟨fun hgreets hmap => ?_, fun a ha v _ _ hold => ?_⟩
    · rcases htimely with (hno | hnone) | hsome
      · rw [hgreets] at hno
        exact absurd hno (by simp)
      · exact absurd hnone hmap
      · exact hsome
    · rcases hapart with hnone | hempty
      · exact absurd (hnone.symm.trans ha) (by simp)
      · have hget : N.server.uidMap.get v = none := by
          by_contra hne
          have hmem := (LuaTable.mem_keys_iff _ v).mpr hne
          rw [hempty] at hmem
          exact absurd hmem List.not_mem_nil
        unfold Server.connectionOf at hold
        rw [hget] at hold
        simp at hold

/-- A client that has taken the answer in. -/
theorem agreed_of_reaches_greeting : ∃ N,
    (networkMachine 7 [2]).Reaches (Network.Undisturbed 7) N ∧ N.client.subid = 1 ∧ N.Agreed 7 := by
  have h : ((networkMachine 7 [2]).run (Network.undisturbed 7) (networkMachine 7 [2]).init
      greeting).any (fun N => decide (N.client.subid = 1)) = true := by
    decide +kernel
  obtain ⟨N, hrun, hN⟩ := Option.any_eq_true _ _ |>.mp h
  have hreaches : (networkMachine 7 [2]).Reaches (Network.Undisturbed 7) N :=
    Machine.path_of_run Network.undisturbed_of _ hrun
  exact ⟨N, hreaches, of_decide_eq_true hN, agreed_of_reaches (by norm_num) hreaches⟩

/-- The client has been told 1, and the datagram of its handshake comes once more when the record
has expired: the connection of its uid is now 2. -/
theorem not_agreed_latecomer : ¬ ∀ uid addr N, uid < 2 ^ 63 →
    (networkMachine uid addr).Reaches Machine.anyStep N → N.Agreed uid := by
  intro hall
  have h : ((networkMachine 7 [2]).run (fun _ _ => true) (networkMachine 7 [2]).init
      (greeting ++ latecomer)).any (fun N => decide (N.client.subid = 1 ∧
        (N.server.connectionOf (.ofInt (7 : ℕ))).map Conn.subid = some 2)) = true := by
    decide +kernel
  obtain ⟨N, hrun, hN⟩ := Option.any_eq_true _ _ |>.mp h
  obtain ⟨hsubid, hold⟩ := of_decide_eq_true hN
  obtain ⟨r, u, hr, hu, hsame, -⟩ := hall 7 [2] N (by norm_num)
    (Machine.path_of_run (fun _ _ _ => trivial) _ hrun) (by omega)
  unfold Server.connectionOf at hold
  rw [hr, Option.bind_some, hu] at hold
  have hid : u.subid = 2 := Option.some.inj hold
  omega

end LuaKcp
