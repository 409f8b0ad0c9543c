import LuaKcp.Server.State
import LuaKcp.Session.Endpoint

/-!
# What a step of the server changes

Most steps run on the objects of connections and handshakes, and leave the tables as they are
(`Same`). The others are those of a keep-alive loop, which may end, those of a handshake loop, which
may remove a handshake, and the acceptance of a handshake. `step_cases` says this once for all
properties of the tables.
-/

namespace LuaKcp

open Ikcp

/-- What a handshake was made with. -/
def Handshake.made (h : Handshake) : LuaNumber × Bytes × LuaNumber := (h.uid, h.fromAddr, h.time)

namespace Server

/-! ## Steps that leave the tables alone -/

/-- The two states have the same tables, with the same records but for their objects. -/
structure Same (s t : Server) : Prop where
  conns : t.conns.map Conn.made = s.conns.map Conn.made
  handshakes : t.handshakes.map Handshake.made = s.handshakes.map Handshake.made
  connection : t.connection = s.connection
  connectNum : t.connectNum = s.connectNum
  uidMap : t.uidMap = s.uidMap
  subid : t.subid = s.subid
  handshakeMap : t.handshakeMap = s.handshakeMap
  handshakeFrom : t.handshakeFrom = s.handshakeFrom
  advances : t.advances = s.advances

theorem Same.refl (s : Server) : Same s s := ⟨rfl, rfl, rfl, rfl, rfl, rfl, rfl, rfl, rfl⟩

theorem map_set_of_eq {α β : Type*} (f : α → β) {l : List α} {i : ℕ} {a b : α}
    (h : l[i]? = some a) (hf : f b = f a) : (l.set i b).map f = l.map f := by
  rw [List.map_set, hf]
  refine List.ext_getElem? fun j => ?_
  rw [List.getElem?_set]
  split_ifs with hj hlt
  · rw [← hj, List.getElem?_map, h]
    rfl
  · rw [← hj]
    exact (List.getElem?_eq_none (by omega)).symm
  · rfl

theorem setKcp_spec (s : Server) (r : ℕ) (kcp : Kcp) : ∃ hs,
    s.setKcp r kcp = { s with handshakes := hs } ∧
      hs.map Handshake.made = s.handshakes.map Handshake.made := by
  unfold setKcp
  split
  · exact ⟨s.handshakes, rfl, rfl⟩
  · rename_i h hh
    exact ⟨_, rfl, map_set_of_eq Handshake.made hh rfl⟩

/-- The steps of a connection record leave the tables alone. -/
theorem onConn_spec {s : Server} {r : ℕ} {e : ConnEvent} {o : Outcome}
    (h : s.onConn r e = some o) :
    Same s o.state ∧ o.state.keepAlives = s.keepAlives ∧ o.state.loops = s.loops ∧
      o.raised = false ∧ o.state.handshakes = s.handshakes := by
  obtain ⟨u, hu, h⟩ := Option.bind_eq_some_iff.mp h
  obtain ⟨⟨t, out⟩, ht, rfl⟩ := Option.map_eq_some_iff.mp h
  have hmade : (s.conns.set r t).map Conn.made = s.conns.map Conn.made :=
    map_set_of_eq Conn.made hu (Conn.made_step ht)
  exact ⟨⟨hmade, rfl, rfl, rfl, rfl, rfl, rfl, rfl, rfl⟩, rfl, rfl, rfl, rfl⟩

/-- The tables, the coroutines forked and the handshakes' own tables are left alone. -/
structure Quiet (s t : Server) : Prop where
  same : Same s t
  keepAlives : t.keepAlives = s.keepAlives
  loops : t.loops = s.loops

theorem Quiet.refl (s : Server) : Quiet s s := ⟨.refl s, rfl, rfl⟩

theorem Quiet.setKcp (s : Server) (r : ℕ) (kcp : Kcp) : Quiet s (s.setKcp r kcp) := by
  obtain ⟨hs, heq, hmade⟩ := s.setKcp_spec r kcp
  rw [heq]
  exact ⟨⟨rfl, hmade, rfl, rfl, rfl, rfl, rfl, rfl, rfl⟩, rfl, rfl⟩

theorem Quiet.onConn {s : Server} {r : ℕ} {e : ConnEvent} {o : Outcome}
    (h : s.onConn r e = some o) : Quiet s o.state := by
  obtain ⟨hsame, hk, hl, -⟩ := onConn_spec h
  exact ⟨hsame, hk, hl⟩

/-! ## The handshake tables -/

/-- Dropping a handshake touches the two handshake tables only. -/
theorem dropHandshake_spec (s : Server) (uid : LuaNumber) : ∃ m f,
    s.dropHandshake uid = { s with handshakeMap := m, handshakeFrom := f } ∧
    (∀ u, m.get u =
      if u = uid ∧ s.handshakeOf uid ≠ none then none else s.handshakeMap.get u) ∧
    ∀ a, f.get a =
      if (s.handshakeOf uid).map Handshake.fromAddr = some a then none
      else s.handshakeFrom.get a := by
  unfold dropHandshake
  cases h : s.handshakeOf uid with
  | none => exact ⟨s.handshakeMap, s.handshakeFrom, rfl, by simp, by simp⟩
  | some h =>
    refine ⟨_, _, rfl, fun u => ?_, fun a => ?_⟩
    · rw [LuaTable.get_set]
      simp
    · rw [LuaTable.get_set]
      simp [eq_comm]

/-- What accepting a handshake does before the answer is made, whatever comes after. -/
structure Began (s : Server) (a : Accepted) (t : Server) : Prop where
  handshakes : ∃ kcp, t.handshakes = s.handshakes ++ [⟨a.uid, a.fromAddr, s.subid, kcp, a.time⟩]
  handshakeMap : ∀ u, t.handshakeMap.get u =
    if u = a.uid then some s.handshakes.length else s.handshakeMap.get u
  handshakeFrom : ∀ f, t.handshakeFrom.get f =
    if f = a.fromAddr then some s.handshakes.length
    else if (s.handshakeOf a.uid).map Handshake.fromAddr = some f then none
    else s.handshakeFrom.get f
  subid : t.subid = nextSubid s.subid
  advances : t.advances = s.advances + 1

/-- The state in which the answer is made. -/
def begun (s : Server) (a : Accepted) : Server :=
  ((s.dropHandshake a.uid).addHandshake a.fromAddr a.uid a.time a.kcp).advance

theorem begun_spec (s : Server) (a : Accepted) : ∃ m f, s.begun a = { s with
      handshakes := s.handshakes ++ [⟨a.uid, a.fromAddr, s.subid, a.kcp, a.time⟩]
      handshakeMap := m
      handshakeFrom := f
      subid := nextSubid s.subid
      advances := s.advances + 1 } ∧ Began s a (s.begun a) := by
  obtain ⟨m, f, heq, hm, hf⟩ := s.dropHandshake_spec a.uid
  have hbegun : s.begun a = { s with
      handshakes := s.handshakes ++ [⟨a.uid, a.fromAddr, s.subid, a.kcp, a.time⟩]
      handshakeMap := m.set a.uid (some s.handshakes.length)
      handshakeFrom := f.set a.fromAddr (some s.handshakes.length)
      subid := nextSubid s.subid
      advances := s.advances + 1 } := by
    unfold begun
    rw [heq]
    rfl
  refine ⟨_, _, hbegun, ?_⟩
  rw [hbegun]
  refine ⟨⟨a.kcp, rfl⟩, fun u => ?_, fun b => ?_, rfl, rfl⟩
  · rw [LuaTable.get_set, hm]
    by_cases hu : u = a.uid
    · rw [if_pos hu, if_pos hu]
    · rw [if_neg hu, if_neg hu, if_neg fun h => hu h.1]
  · rw [LuaTable.get_set, hf]

theorem setKcp_append {s : Server} {hs : List Handshake} {h : Handshake} (kcp : Kcp)
    (hh : s.handshakes = hs ++ [h]) :
    s.setKcp hs.length kcp = { s with handshakes := hs ++ [{ h with kcp := kcp }] } := by
  unfold setKcp
  rw [hh, List.getElem?_append_right (Nat.le_refl _)]
  simp

/-! ## The connection tables -/

/-- Dropping a connection touches its two tables and their count. -/
theorem dropConnection_spec (s : Server) (uid : LuaNumber) : ∃ c n m,
    s.dropConnection uid = { s with connection := c, connectNum := n, uidMap := m } ∧
    (∀ k, c.get k =
      if (s.connectionOf uid).map Conn.subid = some k then none else s.connection.get k) ∧
    (∀ u, m.get u = if u = uid ∧ s.connectionOf uid ≠ none then none else s.uidMap.get u) ∧
    (s.connectNum = s.connection.size → n = c.size) := by
  unfold dropConnection
  cases h : s.connectionOf uid with
  | none => exact ⟨s.connection, s.connectNum, s.uidMap, rfl, by simp, by simp, id⟩
  | some u =>
    dsimp only
    split_ifs with hu
    · refine ⟨_, _, _, rfl, fun k => ?_, fun v => ?_, fun hnum => ?_⟩
      · rw [LuaTable.get_set]
        simp [eq_comm]
      · rw [LuaTable.get_set]
        simp
      · have := LuaTable.size_set_none_of_some s.connection hu
        rw [hnum]
        omega
    · refine ⟨s.connection, s.connectNum, _, rfl, fun k => ?_, fun v => ?_, id⟩
      · split_ifs with hk
        · rw [Option.map_some, Option.some_inj] at hk
          rw [← hk]
          exact not_not.mp hu
        · rfl
      · rw [LuaTable.get_set]
        simp

/-- What accepting a handshake does after the answer is sent. -/
structure Registered (s : Server) (a : Accepted) (t : Server) : Prop where
  conns : ∃ kcp, t.conns =
    s.conns ++ [Conn.start a.fromAddr (nextSubid s.subid) a.uid kcp (s.advances + 1)]
  connection : ∀ k, t.connection.get k =
    if (s.connectionOf a.uid).map Conn.subid = some k then none
    else if k = nextSubid s.subid then some s.conns.length else s.connection.get k
  uidMap : ∀ u, t.uidMap.get u =
    if u = a.uid then
      if (s.connectionOf a.uid).map Conn.subid = some (nextSubid s.subid) then none
      else some s.conns.length
    else s.uidMap.get u
  connectNum : s.connectNum = s.connection.size → s.connection.get (nextSubid s.subid) = none →
    t.connectNum = t.connection.size
  keepAlives : t.keepAlives = s.keepAlives ++ [⟨nextSubid s.subid, none⟩]
  loops : t.loops = s.loops ++ [⟨a.uid, s.handshakes.length, 0, true⟩]

/-- What accepting a handshake leaves alone when making the answer raises. -/
structure Unregistered (s t : Server) : Prop where
  conns : t.conns = s.conns
  connection : t.connection = s.connection
  connectNum : t.connectNum = s.connectNum
  uidMap : t.uidMap = s.uidMap
  keepAlives : t.keepAlives = s.keepAlives
  loops : t.loops = s.loops

/-! ## The answer -/

/-- The object that has read a handshake has the parameters of `getKcp`. -/
theorem configured_hello (fromAddr str : Bytes) (wall wall' : ℕ) :
    Configured 0 (hello fromAddr str wall wall').2.1.cb := by
  have h : Configured 0 (getKcp fromAddr 0 wall).1.cb := by
    rw [getKcp_eq]
    exact Configured.of_params (configured_configured 0) (Ikcpcb.params_update _ _)
  unfold hello
  dsimp only
  refine Configured.of_params (Configured.of_params ?_ (Ikcpcb.params_update _ _))
    (Ikcpcb.params_recv _ _)
  rw [Kcp.cb_lkcpInput]
  exact h.of_params (Ikcpcb.params_input _ _)

theorem nextSubid_lt (subid : ℕ) : nextSubid subid < 4294967295 := by
  unfold nextSubid
  split_ifs <;> omega

theorem nextSubid_pos (subid : ℕ) : 0 < nextSubid subid := by
  unfold nextSubid
  split_ifs <;> omega

theorem length_formatD_le {v : LuaNumber} {text : Bytes} (h : formatD v = some text) :
    text.length ≤ 20 := by
  obtain ⟨n, hn, rfl⟩ := Option.map_eq_some_iff.mp h
  have hbound : n.natAbs < 10 ^ 19 := by
    cases v with
    | fin q =>
      simp only [LuaNumber.toInteger] at hn
      split_ifs at hn with hq
      obtain rfl := Option.some.inj hn
      omega
    | inf neg => simp [LuaNumber.toInteger] at hn
  have hlen := length_natDigits_le (by norm_num) hbound
  unfold intDigits
  split_ifs
  · rw [List.length_cons]
    omega
  · omega

/-- The answer is short enough to be accepted by `lkcp_send`. -/
theorem acceptable_replyPackage (subid : ℕ) {v : LuaNumber} {text : Bytes}
    (h : formatD v = some text) : Acceptable (replyPackage (nextSubid subid) text) := by
  have htext := length_formatD_le h
  have hid := length_natDigits_le (k := 10) (by norm_num)
    (show nextSubid subid < 10 ^ 10 from (nextSubid_lt subid).trans (by norm_num))
  have hlen : (replyPackage (nextSubid subid) text).length ≤ 100 := by
    have h₁ : (literal "B@").length = 2 := rfl
    have h₂ : (literal "@").length = 1 := rfl
    have h₃ : (literal "@OKK@E").length = 6 := rfl
    simp only [replyPackage, pack, List.length_append, length_beBytes, h₁, h₂, h₃]
    omega
  exact acceptable_of_length_le (by omega)

theorem accept_of_none {s : Server} {a : Accepted} (h : formatD a.time = none) :
    s.accept a.fromAddr a.uid a.time a.kcp a.wall = ⟨s.begun a, true, []⟩ := by
  unfold accept
  rw [h]
  rfl

/-- The object of a handshake after its answer. -/
def answered (s : Server) (a : Accepted) (text : Bytes) : Kcp × List Datagram :=
  (a.kcp.lkcpSend (replyPackage (nextSubid s.subid) text) a.fromAddr).2.lkcpFlush

/-- The state in which the connection of an accepted handshake is made. -/
def replied (s : Server) (a : Accepted) (text : Bytes) : Server :=
  { s.begun a with handshakes :=
      s.handshakes ++ [⟨a.uid, a.fromAddr, s.subid, (s.answered a text).1, a.time⟩] }

/-- **An accepted handshake** is answered and its connection registered. -/
theorem accept_of_some {s : Server} {a : Accepted} (hc : Configured 0 a.kcp.cb) {text : Bytes}
    (h : formatD a.time = some text) : s.accept a.fromAddr a.uid a.time a.kcp a.wall =
      ⟨((s.replied a text).register a.fromAddr a.uid
          (getKcp a.fromAddr (nextSubid s.subid) a.wall).1).fork s.handshakes.length a.uid, false,
        (s.answered a text).2 ++ (getKcp a.fromAddr (nextSubid s.subid) a.wall).2⟩ := by
  obtain ⟨m, f, heq, -⟩ := s.begun_spec a
  have hsubid : (s.begun a).subid = nextSubid s.subid := by rw [heq]
  have hnonneg :
      ¬ (a.kcp.lkcpSend (replyPackage (nextSubid s.subid) text) a.fromAddr).1 < 0 :=
    not_lt.mpr ((lkcpSend_nonneg_iff hc _).mpr (acceptable_replyPackage s.subid h))
  have hreply : (s.begun a).reply s.handshakes.length a.fromAddr a.uid a.kcp
      (replyPackage (nextSubid s.subid) text) =
      (s.replied a text, (s.answered a text).2) := by
    unfold reply
    dsimp only
    have hlast : (s.begun a).handshakes =
        s.handshakes ++ [⟨a.uid, a.fromAddr, s.subid, a.kcp, a.time⟩] := by rw [heq]
    rw [if_neg hnonneg, setKcp_append _ hlast]
    rfl
  have hsubid' : (s.replied a text).subid = nextSubid s.subid := hsubid
  unfold accept
  rw [h]
  dsimp only
  rw [← begun, hsubid, hreply]
  dsimp only
  rw [hsubid']

theorem began_replied (s : Server) (a : Accepted) (text : Bytes) :
    Began s a (s.replied a text) := by
  obtain ⟨m, f, heq, hbegan⟩ := s.begun_spec a
  exact ⟨⟨_, rfl⟩, hbegan.handshakeMap, hbegan.handshakeFrom, hbegan.subid, hbegan.advances⟩

/-- Registering touches the connection tables only, and finds the old record of the uid where it
was. -/
theorem register_spec {s t : Server} {a : Accepted} (kcp : Kcp) (hbegan : Began s a t)
    (hsame : Unregistered s t) (hv : ∀ r, s.uidMap.get a.uid = some r → r < s.conns.length) :
    Began s a ((t.register a.fromAddr a.uid kcp).fork s.handshakes.length a.uid) ∧
      Registered s a ((t.register a.fromAddr a.uid kcp).fork s.handshakes.length a.uid) := by
  set conn := Conn.start a.fromAddr (nextSubid s.subid) a.uid kcp (s.advances + 1)
  obtain ⟨t₁, ht₁⟩ : ∃ t₁, t₁ = t.addConnection a.fromAddr a.uid kcp := ⟨_, rfl⟩
  have hadd : t₁ = { t with
      conns := s.conns ++ [conn]
      connection := s.connection.set (nextSubid s.subid) (some s.conns.length)
      connectNum := s.connectNum + 1 } := by
    rw [ht₁]
    unfold addConnection
    rw [hsame.conns, hsame.connection, hsame.connectNum, hbegan.subid, hbegan.advances]
  obtain ⟨c, n, m, heq, hc, hm, hn⟩ := t₁.dropConnection_spec a.uid
  have hold : t₁.connectionOf a.uid = s.connectionOf a.uid := by
    rw [hadd]
    change (t.uidMap.get a.uid).bind (fun r => (s.conns ++ [conn])[r]?) =
      (s.uidMap.get a.uid).bind fun r => s.conns[r]?
    rw [hsame.uidMap]
    cases hr : s.uidMap.get a.uid with
    | none => rfl
    | some r => exact List.getElem?_append_left (hv r hr)
  have hset (k : ℕ) : t₁.connection.get k =
      if k = nextSubid s.subid then some s.conns.length else s.connection.get k := by
    rw [hadd]
    exact LuaTable.get_set ..
  have hget (k : ℕ) : c.get k =
      if (s.connectionOf a.uid).map Conn.subid = some k then none
      else if k = nextSubid s.subid then some s.conns.length else s.connection.get k := by
    rw [hc, hold, hset]
  have hregister : t.register a.fromAddr a.uid kcp = { t with
      conns := s.conns ++ [conn]
      connection := c
      connectNum := n
      uidMap := m.set a.uid (c.get (nextSubid s.subid)) } := by
    unfold register
    dsimp only
    rw [← ht₁, heq, hadd]
    dsimp only
    rw [hbegan.subid]
  rw [hregister]
  refine ⟨⟨hbegan.handshakes, hbegan.handshakeMap, hbegan.handshakeFrom, hbegan.subid,
    hbegan.advances⟩, ⟨⟨kcp, rfl⟩, hget, fun u => ?_, fun hnum hfresh => ?_, ?_, ?_⟩⟩
  · change (m.set a.uid (c.get (nextSubid s.subid))).get u = _
    rw [LuaTable.get_set, hget, hm, if_pos rfl]
    by_cases hu : u = a.uid
    · rw [if_pos hu, if_pos hu]
    · rw [if_neg hu, if_neg hu, if_neg fun h => hu h.1, hadd]
      exact congrArg (fun x => LuaTable.get x u) hsame.uidMap
  · refine hn ?_
    rw [hadd]
    have := LuaTable.size_set_some_of_none s.connection s.conns.length hfresh
    change s.connectNum + 1 = ((s.connection.set _ _).size : ℤ)
    rw [this, hnum]
    exact Nat.cast_succ _
  · change t.keepAlives ++ [⟨t.subid, none⟩] = _
    rw [hsame.keepAlives, hbegan.subid]
  · change t.loops ++ _ = _
    rw [hsame.loops]

theorem unregistered_begun (s : Server) (a : Accepted) : Unregistered s (s.begun a) := by
  obtain ⟨m, f, heq, -⟩ := s.begun_spec a
  rw [heq]
  exact ⟨rfl, rfl, rfl, rfl, rfl, rfl⟩

/-- The records after an accepted handshake is answered. -/
theorem accept_records {s : Server} {a : Accepted} (hc : Configured 0 a.kcp.cb) {text : Bytes}
    (h : formatD a.time = some text) :
    (s.accept a.fromAddr a.uid a.time a.kcp a.wall).state.conns = s.conns ++
        [Conn.start a.fromAddr (nextSubid s.subid) a.uid
          (getKcp a.fromAddr (nextSubid s.subid) a.wall).1 (s.advances + 1)] ∧
      (s.accept a.fromAddr a.uid a.time a.kcp a.wall).state.handshakes = s.handshakes ++
        [⟨a.uid, a.fromAddr, s.subid, (s.answered a text).1, a.time⟩] := by
  set kcp := (getKcp a.fromAddr (nextSubid s.subid) a.wall).1
  obtain ⟨c, n, m, hdrop, -⟩ :=
    ((s.replied a text).addConnection a.fromAddr a.uid kcp).dropConnection_spec a.uid
  have hbegan := began_replied s a text
  have hconns : (s.replied a text).conns = s.conns := (unregistered_begun s a).conns
  rw [accept_of_some hc h]
  unfold fork register
  rw [hdrop]
  refine ⟨?_, rfl⟩
  change (s.replied a text).conns ++ [Conn.start a.fromAddr (s.replied a text).subid a.uid kcp
    (s.replied a text).advances] = _
  rw [hconns, hbegan.subid, hbegan.advances]

/-- What accepting a handshake does to the tables. -/
theorem accept_cases {s : Server} {a : Accepted} (hc : Configured 0 a.kcp.cb)
    (hv : ∀ r, s.uidMap.get a.uid = some r → r < s.conns.length) {o : Outcome}
    (ho : o = s.accept a.fromAddr a.uid a.time a.kcp a.wall) :
    Began s a o.state ∧
      ((formatD a.time = none ∧ o.raised = true ∧ Unregistered s o.state) ∨
        (formatD a.time ≠ none ∧ o.raised = false ∧ Registered s a o.state)) := by
  subst ho
  cases h : formatD a.time with
  | none =>
    obtain ⟨m, f, -, hbegan⟩ := s.begun_spec a
    rw [accept_of_none h]
    exact ⟨hbegan, Or.inl ⟨rfl, rfl, unregistered_begun s a⟩⟩
  | some text =>
    have hunreg := unregistered_begun s a
    rw [accept_of_some hc h]
    obtain ⟨hbegan, hreg⟩ := register_spec (getKcp a.fromAddr (nextSubid s.subid) a.wall).1
      (began_replied s a text) ⟨hunreg.conns, hunreg.connection, hunreg.connectNum, hunreg.uidMap,
        hunreg.keepAlives, hunreg.loops⟩ hv
    exact ⟨hbegan, Or.inr ⟨by simp, rfl, hreg⟩⟩

/-! ## All steps -/

/-- What a handshake loop does when it comes back from a sleep. -/
inductive Ticked (s : Server) (i : ℕ) (l : HandshakeLoop) (t : Server) : Prop
  | stop (hnone : s.handshakeMap.get l.uid = none) (hsame : Same s t)
      (hloops : t.loops = s.loops.set i { l with rounds := l.rounds + 1, running := false })
  | update (hmore : l.rounds + 1 < 6) (hsame : Same s t)
      (hloops : t.loops = s.loops.set i { l with rounds := l.rounds + 1 })
  | expire (hlast : ¬ l.rounds + 1 < 6) (h : Handshake) (hh : s.handshakeOf l.uid = some h)
      (conns : t.conns = s.conns) (connection : t.connection = s.connection)
      (connectNum : t.connectNum = s.connectNum) (uidMap : t.uidMap = s.uidMap)
      (subid : t.subid = s.subid) (advances : t.advances = s.advances)
      (handshakes : t.handshakes.map Handshake.made = s.handshakes.map Handshake.made)
      (handshakeMap : ∀ u, t.handshakeMap.get u =
        if u = l.uid then none else s.handshakeMap.get u)
      (handshakeFrom : ∀ a, t.handshakeFrom.get a =
        if a = h.fromAddr then none else s.handshakeFrom.get a)
      (hloops : t.loops = s.loops.set i { l with rounds := l.rounds + 1, running := false })

/-- **What a step does**: it accepts a handshake, or leaves the tables alone, or is a step of one of
the forked loops. -/
inductive Steps (s : Server) (e : ServerEvent) (o : Outcome) : Prop
  | accept (a : Accepted) (ha : s.accepted e = some a) (hc : Configured 0 a.kcp.cb)
      (hadmits : s.admits a.uid a.time = true)
      (state : o.state = (s.accept a.fromAddr a.uid a.time a.kcp a.wall).state)
      (raised : o.raised = (s.accept a.fromAddr a.uid a.time a.kcp a.wall).raised)
  | quiet (ha : s.accepted e = none) (h : Quiet s o.state)
  | keepAlive (ha : s.accepted e = none) (i : ℕ) (k : KeepAlive)
      (hk : s.keepAlives[i]? = some k) (hsame : Same s o.state) (hloops : o.state.loops = s.loops)
      (hkeep : o.state.keepAlives = match s.connection.get k.subid with
        | none => s.keepAlives.eraseIdx i
        | some r => s.keepAlives.set i { k with u := some r })
  | tick (ha : s.accepted e = none) (i : ℕ) (l : HandshakeLoop) (hl : s.loops[i]? = some l)
      (hrun : l.running = true) (hkeep : o.state.keepAlives = s.keepAlives)
      (h : Ticked s i l o.state)

theorem repeated_quiet (s : Server) (fromAddr str : Bytes) :
    Quiet s (s.repeated fromAddr str) := by
  unfold repeated
  split
  · exact .refl s
  · split
    · exact .refl s
    · exact .setKcp s _ _

/-- A datagram is accepted as a handshake, or changes objects only. -/
theorem dispatchMsg_cases {s : Server} {fromAddr msg : Bytes} {wall wall' wall'' : ℕ} {o : Outcome}
    (h : s.dispatchMsg fromAddr msg wall wall' wall'' = some o) :
    (∃ a, s.accepted (.datagram fromAddr msg wall wall' wall'') = some a ∧
      Configured 0 a.kcp.cb ∧ s.admits a.uid a.time = true ∧
      o.state = (s.accept a.fromAddr a.uid a.time a.kcp a.wall).state ∧
      o.raised = (s.accept a.fromAddr a.uid a.time a.kcp a.wall).raised) ∨
    (s.accepted (.datagram fromAddr msg wall wall' wall'') = none ∧ Quiet s o.state) := by
  unfold dispatchMsg at h
  cases hmsg : unpackPackage msg with
  | none =>
    rw [hmsg] at h
    obtain rfl := Option.some.inj h
    exact Or.inr ⟨by simp [accepted, hmsg], .refl s⟩
  | some r =>
    obtain ⟨subid, str⟩ := r
    rw [hmsg] at h
    dsimp only at h
    split_ifs at h with hzero
    · obtain rfl := Option.some.inj h
      unfold handshake
      set hl := hello fromAddr str wall wall' with hhl
      by_cases hpos : 0 < hl.1.1
      · rw [if_pos hpos]
        cases hf : handshakeFields (hl.1.2.getD []) with
        | mk uid time =>
          cases uid with
          | none => exact Or.inr ⟨by simp [accepted, hmsg, hzero, ← hhl, hpos, hf], .refl s⟩
          | some uid =>
            cases time with
            | none => exact Or.inr ⟨by simp [accepted, hmsg, hzero, ← hhl, hpos, hf], .refl s⟩
            | some time =>
              dsimp only
              split_ifs with hadmits
              · refine Or.inl ⟨⟨fromAddr, uid, time, hl.2.1, wall''⟩, ?_,
                  configured_hello fromAddr str wall wall', hadmits, rfl, rfl⟩
                simp [accepted, hmsg, hzero, ← hhl, hpos, hf, hadmits]
              · refine Or.inr ⟨?_, .refl s⟩
                simp [accepted, hmsg, hzero, ← hhl, hpos, hf, hadmits]
      · rw [if_neg hpos]
        exact Or.inr ⟨by simp [accepted, hmsg, ← hhl, hpos], repeated_quiet s fromAddr str⟩
    · have ha : s.accepted (.datagram fromAddr msg wall wall' wall'') = none := by
        simp [accepted, hmsg, hzero]
      cases hr : s.connection.get subid with
      | none =>
        rw [hr] at h
        obtain rfl := Option.some.inj h
        exact Or.inr ⟨ha, .refl s⟩
      | some r =>
        rw [hr] at h
        exact Or.inr ⟨ha, .onConn h⟩

theorem keepAlive_cases {s : Server} {i wall : ℕ} {o : Outcome}
    (h : s.keepAlive i wall = some o) : Steps s (.keepAlive i wall) o := by
  obtain ⟨k, hk, h⟩ := Option.bind_eq_some_iff.mp h
  obtain ⟨o', ho', rfl⟩ := Option.map_eq_some_iff.mp h
  have hquiet : Quiet s o'.state := by
    cases hu : k.u with
    | none =>
      rw [hu] at ho'
      obtain rfl := Option.some.inj ho'
      exact .refl s
    | some r =>
      rw [hu] at ho'
      exact .onConn ho'
  have hsame := hquiet.same
  exact .keepAlive rfl i k hk ⟨hsame.conns, hsame.handshakes, hsame.connection, hsame.connectNum,
    hsame.uidMap, hsame.subid, hsame.handshakeMap, hsame.handshakeFrom, hsame.advances⟩
    hquiet.loops rfl

/-- What a step of a handshake loop does. -/
theorem tick_spec {s : Server} {i wall : ℕ} {o : Outcome} (h : s.tick i wall = some o) :
    ∃ l, s.loops[i]? = some l ∧ l.running = true ∧ o.state.keepAlives = s.keepAlives ∧
      Ticked s i l o.state := by
  obtain ⟨l, hl, h⟩ := Option.bind_eq_some_iff.mp h
  split_ifs at h with hrun
  cases hr : s.handshakeMap.get l.uid with
  | none =>
    rw [hr] at h
    obtain rfl := Option.some.inj h
    exact ⟨l, hl, hrun, rfl, .stop hr ⟨rfl, rfl, rfl, rfl, rfl, rfl, rfl, rfl, rfl⟩ rfl⟩
  | some r =>
    rw [hr] at h
    obtain ⟨hs, hh, rfl⟩ := Option.map_eq_some_iff.mp h
    dsimp only
    obtain ⟨hs', heq, hmade⟩ := s.setKcp_spec r (hs.kcp.lkcpUpdate (getms wall)).1
    rw [heq]
    by_cases hmore : l.rounds + 1 < 6
    · rw [decide_eq_true hmore, if_pos rfl]
      refine ⟨l, hl, hrun, rfl, .update hmore ?_ ?_⟩
      · exact ⟨rfl, hmade, rfl, rfl, rfl, rfl, rfl, rfl, rfl⟩
      · rw [← hrun]
    · rw [decide_eq_false hmore, if_neg Bool.false_ne_true]
      set t : Server := { s with handshakes := hs' }
      obtain ⟨m, f, hdrop, hm, hf⟩ := t.dropHandshake_spec l.uid
      -- the handshake dropped has the address that it was made with
      obtain ⟨g, hg, hgmade⟩ : ∃ g, hs'[r]? = some g ∧ g.made = hs.made := by
        have := congrArg (fun x => x[r]?) hmade
        simp only [List.getElem?_map, hh, Option.map_some] at this
        exact Option.map_eq_some_iff.mp this
      have hof : t.handshakeOf l.uid = some g := by
        unfold handshakeOf
        rw [hr]
        exact hg
      have haddr : g.fromAddr = hs.fromAddr := congrArg (fun x => x.2.1) hgmade
      rw [hof] at hm hf
      rw [hdrop]
      refine ⟨l, hl, hrun, rfl, .expire hmore hs ?_ rfl rfl rfl rfl rfl rfl hmade
        (fun u => ?_) (fun a => ?_) rfl⟩
      · unfold handshakeOf
        rw [hr]
        exact hh
      · have hmap : t.handshakeMap = s.handshakeMap := rfl
        exact (hm u).trans (by simp [hmap])
      · have hfrom : t.handshakeFrom = s.handshakeFrom := rfl
        refine (hf a).trans ?_
        rw [Option.map_some, haddr, hfrom]
        simp [eq_comm]

/-- **The steps of a server.** -/
theorem step_cases {s : Server} {e : ServerEvent} {o : Outcome} (h : s.step e = some o) :
    Steps s e o := by
  cases e with
  | datagram fromAddr msg wall wall' wall'' =>
    rcases dispatchMsg_cases h with ⟨a, ha, hc, hadmits, hstate, hraised⟩ | ⟨ha, hq⟩
    · exact .accept a ha hc hadmits hstate hraised
    · exact .quiet ha hq
  | wake r i wall => exact .quiet rfl (.onConn h)
  | returned r i => exact .quiet rfl (.onConn h)
  | requestRaises r i =>
    obtain ⟨u, -, h⟩ := Option.bind_eq_some_iff.mp h
    split_ifs at h
    · exact .quiet rfl (.onConn h)
    · obtain ⟨o', ho', rfl⟩ := Option.map_eq_some_iff.mp h
      have hquiet : Quiet s o'.state := .onConn ho'
      exact .quiet rfl hquiet
  | responseMsg subid package =>
    unfold step responseMsg at h
    dsimp only at h
    split at h
    · obtain rfl := Option.some.inj h
      exact .quiet rfl (.refl s)
    · exact .quiet rfl (.onConn h)
  | sendMsg uid subid package =>
    unfold step sendMsg at h
    dsimp only at h
    split at h
    · obtain rfl := Option.some.inj h
      exact .quiet rfl (.refl s)
    · exact .quiet rfl (.onConn h)
  | close subid =>
    obtain rfl := Option.some.inj h
    exact .quiet rfl (.refl s)
  | keepAlive i wall => exact keepAlive_cases h
  | tick i wall =>
    obtain ⟨l, hl, hrun, hkeep, ht⟩ := tick_spec h
    exact .tick rfl i l hl hrun hkeep ht

end Server

end LuaKcp
