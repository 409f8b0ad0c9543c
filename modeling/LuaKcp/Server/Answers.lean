import LuaKcp.Server.Greeting
import LuaKcp.Server.Records
import LuaKcp.Session.Asking

/-!
# What the server tells an address

The packages for connection 0 that an address gets are those of the handshakes that came from
there. When all of these are handshakes of one uid, and its answers are the messages `answers`,
whatever the server sends to the address under the connection id 0 carries these messages
(`Server.Speaks.step`).
-/

namespace LuaKcp

open Ikcp

/-- What an address gets. -/
def told (addr : Bytes) (ds : List Datagram) : List Bytes :=
  (ds.filter fun d => decide (d.address = addr)).map Datagram.data

@[simp] theorem told_append (addr : Bytes) (ds ds' : List Datagram) :
    told addr (ds ++ ds') = told addr ds ++ told addr ds' := by
  unfold told
  rw [List.filter_append, List.map_append]

theorem told_eq_nil {addr : Bytes} {ds : List Datagram} (h : ∀ d ∈ ds, d.address ≠ addr) :
    told addr ds = [] := by
  have hfilter : (ds.filter fun d => decide (d.address = addr)) = [] := by
    refine List.filter_eq_nil_iff.mpr fun d hd => ?_
    simpa using h d hd
  unfold told
  rw [hfilter, List.map_nil]

theorem told_subset (addr : Bytes) (ds : List Datagram) : told addr ds ⊆ ds.map Datagram.data :=
  List.map_subset _ (List.filter_subset_self ds)

/-- What an object sends, its address gets. -/
theorem told_output (k : Kcp) (bufs : List Bytes) :
    told k.address (k.output bufs) = bufs.map (pack k.cb.conv.toNat) := by
  induction bufs with
  | nil => rfl
  | cons buf bufs ih => simpa [told, Kcp.output] using ih

theorem told_output_of_ne {addr : Bytes} {k : Kcp} (h : k.address ≠ addr) (bufs : List Bytes) :
    told addr (k.output bufs) = [] := by
  refine told_eq_nil fun d hd => ?_
  obtain ⟨buf, -, rfl⟩ := List.mem_map.mp hd
  exact h

theorem payloads_subset (subid : ℕ) {ds ds' : List Bytes} (h : ds ⊆ ds') :
    payloads subid ds ⊆ payloads subid ds' := List.filterMap_subset _ h

/-! ## Objects under the connection id 0 -/

/-- What the packages for connection 0 that `addr` gets carry. -/
def Conveyed (addr : Bytes) (answers : List Bytes) (ds : List Datagram) : Prop :=
  Conveys answers 1 (payloads 0 (told addr ds))

namespace Conveyed

variable {addr : Bytes} {answers : List Bytes} {ds ds' : List Datagram}

theorem nil (addr : Bytes) (answers : List Bytes) : Conveyed addr answers [] :=
  Conveys.nil answers 1

theorem append (h : Conveyed addr answers ds) (h' : Conveyed addr answers ds') :
    Conveyed addr answers (ds ++ ds') := by
  unfold Conveyed
  rw [told_append, payloads_append]
  exact Conveys.append h h'

theorem of_told (h : told addr ds = []) : Conveyed addr answers ds := by
  unfold Conveyed
  rw [h]
  exact .nil answers 1

/-- No package is for connection 0. -/
theorem of_payloads (h : payloads 0 (ds.map Datagram.data) = []) : Conveyed addr answers ds := by
  intro d hd
  have hmem := payloads_subset 0 (told_subset addr ds) hd
  rw [h] at hmem
  exact absurd hmem List.not_mem_nil

/-- An object under the connection id 0 sends what it hands over to its address. -/
theorem output {k : Kcp} {bufs : List Bytes}
    (h : k.address = addr → k.cb.conv = 0 ∧ Conveys answers 1 bufs) :
    Conveyed addr answers (k.output bufs) := by
  by_cases haddr : k.address = addr
  · unfold Conveyed
    obtain ⟨hconv, hbufs⟩ := h haddr
    subst haddr
    rw [told_output, hconv]
    change Conveys answers 1 (payloads 0 (bufs.map (pack 0)))
    rwa [payloads_pack_of_conveys hbufs]
  · exact .of_told (told_output_of_ne haddr bufs)

/-- An object under another connection id. -/
theorem of_conv {conv : U32} (hconv : conv ≠ 0) {bufs : List Bytes}
    (h : ds.map Datagram.data = bufs.map (pack conv.toNat)) : Conveyed addr answers ds := by
  refine .of_payloads ?_
  rw [h]
  refine payloads_pack_of_ne conv.isLt (fun hzero => hconv ?_) bufs
  exact BitVec.eq_of_toNat_eq hzero

end Conveyed

/-- A handshake whose answers are `answers` when it is one of `uid`, whose client is at `addr`. -/
structure Handshake.Answering (uid : LuaNumber) (addr : Bytes) (time : LuaNumber)
    (answers : List Bytes) (h : Handshake) : Prop where
  address : h.kcp.address = h.fromAddr
  fromAddr : h.fromAddr = addr ↔ h.uid = uid
  sending : h.uid = uid → h.time = time ∧ answers ≠ [] ∧ ∃ n, Sending 0 h.kcp.cb answers n []

namespace Handshake.Answering

variable {uid time : LuaNumber} {addr : Bytes} {answers : List Bytes} {h : Handshake}

/-- A datagram that comes from where the handshake came from is fed to its object. -/
theorem input (ha : h.Answering uid addr time answers) (str : Bytes) :
    ({ h with kcp := (h.kcp.lkcpInput str h.fromAddr).2 } : Handshake).Answering uid addr time
      answers := by
  refine ⟨?_, ha.fromAddr, fun hu => ?_⟩
  · change (h.kcp.lkcpInput str h.fromAddr).2.address = h.fromAddr
    rw [Kcp.address_lkcpInput, ha.address, ite_self]
  · obtain ⟨htime, hne, n, hs⟩ := ha.sending hu
    refine ⟨htime, hne, n, ?_⟩
    change Sending 0 (h.kcp.lkcpInput str h.fromAddr).2.cb answers n []
    rw [Kcp.cb_lkcpInput]
    exact hs.input str

/-- The object is updated. -/
theorem update (ha : h.Answering uid addr time answers) (hshort : (streamOf answers).length ≤ 1)
    (ms : ℤ) :
    ({ h with kcp := (h.kcp.lkcpUpdate ms).1 } : Handshake).Answering uid addr time answers ∧
      Conveyed addr answers (h.kcp.lkcpUpdate ms).2 := by
  refine ⟨⟨ha.address, ha.fromAddr, fun hu => ?_⟩, .output fun haddr => ?_⟩
  · obtain ⟨htime, hne, n, hs⟩ := ha.sending hu
    obtain ⟨n', -, hs'⟩ := hs.update ms
    exact ⟨htime, hne, n', ⟨hs'.configured, hs'.sends, hs'.acceptable, by simp⟩⟩
  · have hu := ha.fromAddr.mp (ha.address.symm.trans haddr)
    obtain ⟨-, -, n, hs⟩ := ha.sending hu
    obtain ⟨n', -, hs'⟩ := hs.update ms
    have hout : Conveys answers n' (h.kcp.cb.lkcpUpdate ms).2 := hs'.genuine
    exact ⟨hs.configured.conv_eq, hout.mono_right (hs'.sends.le.trans hshort)⟩

end Handshake.Answering

/-! ## The steps of the server -/

namespace Server

/-- The server tells `addr` nothing but `answers` under the connection id 0, all for `uid`. -/
structure Speaks (uid : LuaNumber) (addr : Bytes) (time : LuaNumber) (answers : List Bytes)
    (s : Server) : Prop where
  short : (streamOf answers).length ≤ 1
  conns : ∀ u ∈ s.conns, ∃ conv, conv ≠ 0 ∧ Configured conv u.kcp.cb
  handshakes : ∀ h ∈ s.handshakes, h.Answering uid addr time answers

namespace Speaks

variable {uid time : LuaNumber} {addr : Bytes} {answers : List Bytes} {s : Server}

theorem ctor (uid : LuaNumber) (addr : Bytes) (time : LuaNumber) :
    Speaks uid addr time [] Server.ctor :=
  ⟨Nat.zero_le 1, fun _ hu => absurd hu List.not_mem_nil, fun _ hh => absurd hh List.not_mem_nil⟩

/-- The records are the same. -/
theorem congr (h : s.Speaks uid addr time answers) {t : Server} (hconns : t.conns = s.conns)
    (hhandshakes : t.handshakes = s.handshakes) : t.Speaks uid addr time answers := by
  refine ⟨h.short, ?_, ?_⟩
  · rw [hconns]
    exact h.conns
  · rw [hhandshakes]
    exact h.handshakes

/-- Nothing has been told yet, so any answer and any time will do. -/
theorem told_first (h : s.Speaks uid addr time []) (time' : LuaNumber)
    (hshort : (streamOf answers).length ≤ 1) : s.Speaks uid addr time' answers := by
  refine ⟨hshort, h.conns, fun g hg => ?_⟩
  have hg := h.handshakes g hg
  exact ⟨hg.address, hg.fromAddr, fun hu => absurd rfl (hg.sending hu).2.1⟩

/-- A step of a connection record. -/
theorem onConn (h : s.Speaks uid addr time answers) {r : ℕ} {e : ConnEvent} {o : Outcome}
    (hstep : s.onConn r e = some o) :
    o.state.Speaks uid addr time answers ∧ Conveyed addr answers o.out := by
  obtain ⟨u, hu, hstep⟩ := Option.bind_eq_some_iff.mp hstep
  obtain ⟨⟨t, out⟩, ht, rfl⟩ := Option.map_eq_some_iff.mp hstep
  obtain ⟨conv, hconv, hc⟩ := h.conns u (List.mem_of_getElem? hu)
  obtain ⟨cs, -, hdoes⟩ := Conn.does_step hc ht
  have ⟨bufs, hout, _⟩ := hdoes
  refine ⟨⟨h.short, fun v hv => ?_, h.handshakes⟩, .of_conv hconv hout⟩
  rcases List.mem_or_eq_of_mem_set hv with hv | rfl
  · exact h.conns v hv
  · exact ⟨conv, hconv, hdoes.configured hc⟩

/-- The object of a handshake is changed. -/
theorem setKcp (h : s.Speaks uid addr time answers) {r : ℕ} {hs : Handshake}
    (hr : s.handshakes[r]? = some hs) {kcp : Kcp}
    (hk : ({ hs with kcp := kcp } : Handshake).Answering uid addr time answers) :
    (s.setKcp r kcp).Speaks uid addr time answers := by
  unfold Server.setKcp
  rw [hr]
  refine ⟨h.short, h.conns, fun g hg => ?_⟩
  rcases List.mem_or_eq_of_mem_set hg with hg | rfl
  · exact h.handshakes g hg
  · exact hk

/-- A new object answers with nothing. -/
theorem hello (answers : List Bytes) (addr fromAddr str : Bytes) (wall wall' : ℕ) :
    Conveyed addr answers (LuaKcp.hello fromAddr str wall wall').2.2 := by
  obtain ⟨bufs, hout, hs, -⟩ := hello_sends fromAddr str wall wall'
  have hbufs : Conveys [] 0 bufs := hs.genuine
  rw [hout]
  exact .output fun _ => ⟨hs.configured.conv_eq, hbufs.mono answers (Nat.zero_le 1)⟩

/-- The object of a new connection is under its id. -/
theorem conveyed_getKcp (answers : List Bytes) (addr fromAddr : Bytes) {subid : ℕ}
    (hpos : 0 < subid) (hlt : subid < 4294967295) (wall : ℕ) :
    Conveyed addr answers (getKcp fromAddr subid wall).2 ∧
      ∃ conv, conv ≠ 0 ∧ Configured conv (getKcp fromAddr subid wall).1.cb := by
  have hconv : convOf subid ≠ 0 := by
    intro hzero
    have hnat := congrArg BitVec.toNat hzero
    rw [Link.toNat_convOf (by omega)] at hnat
    change subid = 0 at hnat
    omega
  have hc : Configured (convOf subid) (configured (convOf subid)) := configured_configured _
  rw [getKcp_eq]
  refine ⟨.of_conv hconv (Conn.map_data_output _ _), convOf subid, hconv, ?_⟩
  exact hc.of_params (Ikcpcb.params_update _ _)

/-- **An accepted handshake** has its answer, or is one of another uid. -/
theorem accept (h : s.Speaks uid addr time answers) {a : Accepted}
    (hs : Sending 0 a.kcp.cb [] 0 []) (haddr : a.kcp.address = a.fromAddr)
    (hfrom : a.fromAddr = addr ↔ a.uid = uid)
    (hown : a.uid = uid → a.time = time ∧ ∃ text, formatD a.time = some text ∧
      answers = [replyPackage (nextSubid s.subid) text]) :
    (s.accept a.fromAddr a.uid a.time a.kcp a.wall).state.Speaks uid addr time answers ∧
      Conveyed addr answers (s.accept a.fromAddr a.uid a.time a.kcp a.wall).out := by
  cases hd : formatD a.time with
  | none =>
    obtain ⟨m, f, heq, -⟩ := s.begun_spec a
    rw [accept_of_none hd]
    refine ⟨⟨h.short, ?_, ?_⟩, .nil addr answers⟩
    · rw [heq]
      exact h.conns
    · rw [heq]
      intro g hg
      rcases List.mem_append.mp hg with hg | hg
      · exact h.handshakes g hg
      · obtain rfl := List.mem_singleton.mp hg
        refine ⟨haddr, hfrom, fun hu => ?_⟩
        obtain ⟨-, text, htext, -⟩ := hown hu
        exact absurd (htext.symm.trans hd) (by simp)
  | some text =>
    obtain ⟨hconns, hhandshakes⟩ := accept_records (s := s) hs.configured hd
    obtain ⟨n, bufs, hout, hsend, haddr'⟩ := answered_sends (s := s) hs haddr hd
    rw [List.nil_append] at hsend
    obtain ⟨hconn, conv, hconv, hc⟩ := conveyed_getKcp answers addr a.fromAddr
      (nextSubid_pos s.subid) (nextSubid_lt s.subid) a.wall
    have hanswers (hu : a.uid = uid) : answers = [replyPackage (nextSubid s.subid) text] := by
      obtain ⟨-, text', htext', heq⟩ := hown hu
      obtain rfl : text' = text := Option.some.inj (htext'.symm.trans hd)
      exact heq
    refine ⟨⟨h.short, ?_, ?_⟩, ?_⟩
    · rw [hconns]
      intro u hu
      rcases List.mem_append.mp hu with hu | hu
      · exact h.conns u hu
      · obtain rfl := List.mem_singleton.mp hu
        exact ⟨conv, hconv, hc⟩
    · rw [hhandshakes]
      intro g hg
      rcases List.mem_append.mp hg with hg | hg
      · exact h.handshakes g hg
      · obtain rfl := List.mem_singleton.mp hg
        refine ⟨haddr', hfrom, fun hu => ?_⟩
        rw [hanswers hu]
        exact ⟨(hown hu).1, by simp, n, ⟨hsend.configured, hsend.sends, hsend.acceptable, by simp⟩⟩
    · rw [accept_of_some hs.configured hd, hout]
      refine Conveyed.append (.output fun hk => ⟨hsend.configured.conv_eq, ?_⟩) hconn
      have hu : a.uid = uid := hfrom.mp (haddr'.symm.trans hk)
      have hbufs : Conveys [replyPackage (nextSubid s.subid) text] n bufs := hsend.genuine
      have hshort := h.short
      rw [hanswers hu] at hshort ⊢
      exact hbufs.mono_right (hsend.sends.le.trans hshort)

/-- A datagram with nothing to read is fed to the handshake that came from its address. -/
theorem repeated (h : s.Speaks uid addr time answers) (hwf : s.Wf) (fromAddr str : Bytes) :
    (s.repeated fromAddr str).Speaks uid addr time answers := by
  unfold Server.repeated
  split
  · exact h
  · rename_i r hr
    split
    · exact h
    · rename_i hs hhs
      obtain ⟨u, t, hat⟩ := hwf.handshakeFrom fromAddr r hr
      have hfrom : hs.fromAddr = fromAddr := by
        unfold handshakeAt at hat
        rw [hhs] at hat
        exact congrArg (fun x => x.2.1) (Option.some.inj hat)
      subst hfrom
      exact h.setKcp hhs ((h.handshakes hs (List.mem_of_getElem? hhs)).input str)

/-- A step of a handshake loop. -/
theorem tick (h : s.Speaks uid addr time answers) {i wall : ℕ} {o : Outcome}
    (hstep : s.tick i wall = some o) :
    o.state.Speaks uid addr time answers ∧ Conveyed addr answers o.out := by
  obtain ⟨l, -, hstep⟩ := Option.bind_eq_some_iff.mp hstep
  split_ifs at hstep
  cases hr : s.handshakeMap.get l.uid with
  | none =>
    rw [hr] at hstep
    obtain rfl := Option.some.inj hstep
    exact ⟨h.congr rfl rfl, .nil addr answers⟩
  | some r =>
    rw [hr] at hstep
    obtain ⟨hs, hhs, rfl⟩ := Option.map_eq_some_iff.mp hstep
    obtain ⟨hupdated, hout⟩ :=
      (h.handshakes hs (List.mem_of_getElem? hhs)).update h.short (getms wall)
    refine ⟨?_, hout⟩
    have hset := h.setKcp hhs hupdated
    dsimp only
    split_ifs
    · exact hset.congr rfl rfl
    · obtain ⟨m, f, heq, -⟩ :=
        (s.setKcp r (hs.kcp.lkcpUpdate (getms wall)).1).dropHandshake_spec l.uid
      rw [heq]
      exact hset.congr rfl rfl

/-- A step of a keep-alive loop. -/
theorem keepAlive (h : s.Speaks uid addr time answers) {i wall : ℕ} {o : Outcome}
    (hstep : s.keepAlive i wall = some o) :
    o.state.Speaks uid addr time answers ∧ Conveyed addr answers o.out := by
  obtain ⟨k, -, hstep⟩ := Option.bind_eq_some_iff.mp hstep
  obtain ⟨o', ho', rfl⟩ := Option.map_eq_some_iff.mp hstep
  cases hu : k.u with
  | none =>
    rw [hu] at ho'
    obtain rfl := Option.some.inj ho'
    exact ⟨h.congr rfl rfl, .nil addr answers⟩
  | some r =>
    rw [hu] at ho'
    obtain ⟨h', hout⟩ := h.onConn ho'
    exact ⟨h'.congr rfl rfl, hout⟩

end Speaks

/-- What `dispatch_msg` has read when it accepts a handshake. -/
theorem accepted_datagram {s : Server} {fromAddr msg : Bytes} {wall wall' wall'' : ℕ}
    {a : Accepted} (h : s.accepted (.datagram fromAddr msg wall wall' wall'') = some a) :
    ∃ str, unpackPackage msg = some (0, str) ∧ 0 < (hello fromAddr str wall wall').1.1 ∧
      handshakeFields ((hello fromAddr str wall wall').1.2.getD []) = (some a.uid, some a.time) ∧
      s.admits a.uid a.time = true ∧
      a = ⟨fromAddr, a.uid, a.time, (hello fromAddr str wall wall').2.1, wall''⟩ := by
  unfold accepted at h
  dsimp only at h
  split at h
  · simp at h
  · rename_i subid str hmsg
    split_ifs at h with hcond
    obtain ⟨rfl, hpos⟩ := hcond
    split at h
    · rename_i uid time hfields
      split_ifs at h with hadmits
      obtain rfl := Option.some.inj h
      exact ⟨str, hmsg, hpos, hfields, hadmits, rfl⟩
    · simp at h

/-- The handshake accepted by a step is one of `uid` exactly when it comes from `addr`, and is then
answered by `answers`. -/
def Expects (uid : LuaNumber) (addr : Bytes) (time : LuaNumber) (answers : List Bytes) (s : Server)
    (e : ServerEvent) : Prop :=
  ∀ a, s.accepted e = some a → (a.fromAddr = addr ↔ a.uid = uid) ∧
    (a.uid = uid → a.time = time ∧ ∃ text, formatD a.time = some text ∧
      answers = [replyPackage (nextSubid s.subid) text])

namespace Speaks

variable {uid time : LuaNumber} {addr : Bytes} {answers : List Bytes} {s : Server}

/-- A datagram with something to read. -/
theorem handshake (h : s.Speaks uid addr time answers) {fromAddr msg str : Bytes}
    {wall wall' wall'' : ℕ} (hmsg : unpackPackage msg = some (0, str))
    (hpos : 0 < (LuaKcp.hello fromAddr str wall wall').1.1)
    (he : s.Expects uid addr time answers (.datagram fromAddr msg wall wall' wall'')) {o : Outcome}
    (ho : o = s.handshake fromAddr str (LuaKcp.hello fromAddr str wall wall').1
      (LuaKcp.hello fromAddr str wall wall').2.1 wall'') :
    o.state.Speaks uid addr time answers ∧ Conveyed addr answers o.out := by
  obtain ⟨bufs, -, hs, haddr⟩ := hello_sends fromAddr str wall wall'
  unfold Server.handshake at ho
  rw [if_pos hpos] at ho
  split at ho
  · rename_i v t hfields
    split_ifs at ho with hadmits
    · have ha : s.accepted (.datagram fromAddr msg wall wall' wall'') =
          some ⟨fromAddr, v, t, (LuaKcp.hello fromAddr str wall wall').2.1, wall''⟩ := by
        simp [accepted, hmsg, hpos, hfields, hadmits]
      obtain ⟨hfrom, hown⟩ := he _ ha
      rw [ho]
      exact h.accept (a := ⟨fromAddr, v, t, _, wall''⟩)
        ⟨hs.configured, hs.sends, hs.acceptable, by simp⟩ haddr hfrom hown
    · rw [ho]
      exact ⟨h, .nil addr answers⟩
  · rw [ho]
    exact ⟨h, .nil addr answers⟩

/-- A datagram. -/
theorem dispatchMsg (h : s.Speaks uid addr time answers) (hwf : s.Wf) {fromAddr msg : Bytes}
    {wall wall' wall'' : ℕ}
    (he : s.Expects uid addr time answers (.datagram fromAddr msg wall wall' wall'')) {o : Outcome}
    (hstep : s.dispatchMsg fromAddr msg wall wall' wall'' = some o) :
    o.state.Speaks uid addr time answers ∧ Conveyed addr answers o.out := by
  unfold Server.dispatchMsg at hstep
  split at hstep
  · obtain rfl := Option.some.inj hstep
    exact ⟨h, .nil addr answers⟩
  · rename_i subid str hmsg
    split_ifs at hstep with hzero
    · subst hzero
      obtain rfl := Option.some.inj hstep
      have hhello := hello answers addr fromAddr str wall wall'
      by_cases hpos : 0 < (LuaKcp.hello fromAddr str wall wall').1.1
      · obtain ⟨h', hout⟩ := h.handshake hmsg hpos he rfl
        exact ⟨h', hhello.append hout⟩
      · unfold Server.handshake
        rw [if_neg hpos]
        exact ⟨h.repeated hwf fromAddr str, hhello.append (.nil addr answers)⟩
    · split at hstep
      · obtain rfl := Option.some.inj hstep
        exact ⟨h, .nil addr answers⟩
      · exact h.onConn hstep

/-- **A step of the server** tells the address nothing but the answers. -/
theorem step (h : s.Speaks uid addr time answers) (hwf : s.Wf) {e : ServerEvent}
    (he : s.Expects uid addr time answers e) {o : Outcome} (hstep : s.step e = some o) :
    o.state.Speaks uid addr time answers ∧ Conveyed addr answers o.out := by
  have hquiet : s.Speaks uid addr time answers ∧ Conveyed addr answers [] :=
    ⟨h, .nil addr answers⟩
  cases e with
  | datagram fromAddr msg wall wall' wall'' => exact h.dispatchMsg hwf he hstep
  | wake r i wall => exact h.onConn hstep
  | returned r i => exact h.onConn hstep
  | requestRaises r i =>
    obtain ⟨u, -, hstep⟩ := Option.bind_eq_some_iff.mp hstep
    split_ifs at hstep
    · exact h.onConn hstep
    · obtain ⟨o', ho', rfl⟩ := Option.map_eq_some_iff.mp hstep
      have ho := h.onConn ho'
      exact ho
  | responseMsg subid package =>
    unfold Server.step responseMsg at hstep
    dsimp only at hstep
    split at hstep
    · obtain rfl := Option.some.inj hstep
      exact hquiet
    · exact h.onConn hstep
  | sendMsg v subid package =>
    unfold Server.step sendMsg at hstep
    dsimp only at hstep
    split at hstep
    · obtain rfl := Option.some.inj hstep
      exact hquiet
    · exact h.onConn hstep
  | close subid =>
    obtain rfl := Option.some.inj hstep
    exact hquiet
  | keepAlive i wall => exact h.keepAlive hstep
  | tick i wall => exact h.tick hstep

end Speaks

end Server

end LuaKcp
