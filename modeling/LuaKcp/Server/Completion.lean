import LuaKcp.Server.Expiry

/-!
# Handshakes that are not completed

An accepted handshake is written into the tables before its answer is made. It is completed exactly
when its time has an integer representation, so that the answer can be made, and its uid does not
have the very connection id that comes next (`completes_iff`); else it stops halfway. When no
handshake does, each one in the table has a loop that will remove it.
-/

namespace LuaKcp

open Ikcp

namespace Server

/-- The handshake is answered, its connection is registered, and a loop is forked that will remove
it. -/
structure Completed (s : Server) (a : Accepted) (t : Server) : Prop where
  connection : ∃ u, t.conns[s.conns.length]? = some u ∧ u.uid = a.uid ∧
    t.uidMap.get a.uid = some s.conns.length ∧ t.connection.get u.subid = some s.conns.length
  reply : ∃ text h, formatD a.time = some text ∧ t.handshakes[s.handshakes.length]? = some h ∧
    0 ≤ (a.kcp.lkcpSend (replyPackage (nextSubid s.subid) text) a.fromAddr).1 ∧
    h.kcp = (a.kcp.lkcpSend (replyPackage (nextSubid s.subid) text) a.fromAddr).2.lkcpFlush.1
  handshake : t.handshakeMap.get a.uid = some s.handshakes.length
  loop : t.loops = s.loops ++ [⟨a.uid, s.handshakes.length, 0, true⟩]

/-- The tables that a handshake changes are as they were. -/
structure Untouched (s t : Server) : Prop where
  handshakeMap : t.handshakeMap = s.handshakeMap
  handshakeFrom : t.handshakeFrom = s.handshakeFrom
  subid : t.subid = s.subid
  connection : t.connection = s.connection
  uidMap : t.uidMap = s.uidMap
  connectNum : t.connectNum = s.connectNum

/-- A datagram is processed completely, or not at all. -/
def AllOrNothing (s : Server) (e : ServerEvent) (o : Outcome) : Prop :=
  (∃ a, s.accepted e = some a ∧ o.raised = false ∧ Completed s a o.state) ∨ Untouched s o.state

/-- The uid of an accepted handshake does not have the connection id that is allocated. -/
def Renews (s : Server) (e : ServerEvent) : Prop :=
  ∀ a, s.accepted e = some a →
    (s.connectionOf a.uid).map Conn.subid ≠ some (nextSubid s.subid)

theorem nextSubid_ne (subid : ℕ) : nextSubid subid ≠ subid := by
  unfold nextSubid
  split_ifs <;> omega

/-- A step on an accepted handshake changes the counter. -/
theorem not_untouched {s t : Server} {a : Accepted} (hb : Began s a t) : ¬ Untouched s t :=
  fun h => nextSubid_ne s.subid (hb.subid.symm.trans h.subid)

/-- The answer of an accepted handshake, when its time can be written. -/
theorem reply_of_accepted {s : Server} {e : ServerEvent} {a : Accepted} {o : Outcome}
    (ha : s.accepted e = some a) (hstep : s.step e = some o) {text : Bytes}
    (htext : formatD a.time = some text) : ∃ h, o.state.handshakes[s.handshakes.length]? = some h ∧
      0 ≤ (a.kcp.lkcpSend (replyPackage (nextSubid s.subid) text) a.fromAddr).1 ∧
      h.kcp =
        (a.kcp.lkcpSend (replyPackage (nextSubid s.subid) text) a.fromAddr).2.lkcpFlush.1 := by
  cases step_cases hstep with
  | accept a' ha' hc hadmits state raised =>
    obtain rfl : a' = a := Option.some.inj (ha'.symm.trans ha)
    refine ⟨⟨a'.uid, a'.fromAddr, s.subid, (s.answered a' text).1, a'.time⟩, ?_,
      (lkcpSend_nonneg_iff hc _).mpr (acceptable_replyPackage s.subid htext), rfl⟩
    rw [state, (accept_records hc htext).2]
    exact List.getElem?_concat_length ..
  | quiet ha' | keepAlive ha' | tick ha' =>
    rw [ha] at ha'
    exact absurd ha' (by simp)

/-- **Which datagrams are processed completely or not at all.** -/
theorem allOrNothing_iff {s : Server} (hwf : Wf s) {fromAddr msg : Bytes}
    {wall wall' wall'' : ℕ} {o : Outcome}
    (hstep : s.step (.datagram fromAddr msg wall wall' wall'') = some o) :
    AllOrNothing s (.datagram fromAddr msg wall wall' wall'') o ↔
      s.Formats (.datagram fromAddr msg wall wall' wall'') ∧
        s.Renews (.datagram fromAddr msg wall wall' wall'') := by
  cases ha : s.accepted (.datagram fromAddr msg wall wall' wall'') with
  | none =>
    have huntouched : Untouched s o.state := by
      rcases dispatchMsg_cases hstep with ⟨a, ha', -⟩ | ⟨-, hq⟩
      · exact absurd (ha.symm.trans ha') (by simp)
      · exact ⟨hq.same.handshakeMap, hq.same.handshakeFrom, hq.same.subid, hq.same.connection,
          hq.same.uidMap, hq.same.connectNum⟩
    refine iff_of_true (Or.inr huntouched) ⟨fun a ha' => ?_, fun a ha' => ?_⟩
    all_goals exact absurd (ha.symm.trans ha') (by simp)
  | some a =>
    have heq {a' : Accepted}
        (ha' : s.accepted (.datagram fromAddr msg wall wall' wall'') = some a') : a' = a :=
      Option.some.inj (ha'.symm.trans ha)
    obtain ⟨hb, ⟨hnone, hraised, -⟩ | ⟨hsome, hraised, hr⟩⟩ := accepted_cases hwf ha hstep
    · refine iff_of_false ?_ fun h => h.1 a ha hnone
      rintro (⟨a', -, hraised', -⟩ | huntouched)
      · exact absurd (hraised.symm.trans hraised') (by simp)
      · exact not_untouched hb huntouched
    · constructor
      · rintro (⟨a', ha', -, hdone⟩ | huntouched)
        · obtain rfl := heq ha'
          refine ⟨fun a'' ha'' => by rw [heq ha'']; exact hsome, fun a'' ha'' hold => ?_⟩
          obtain ⟨u, -, -, hu, -⟩ := hdone.connection
          rw [heq ha''] at hold
          rw [hr.uidMap, if_pos rfl, if_pos hold] at hu
          exact absurd hu (by simp)
        · exact absurd huntouched (not_untouched hb)
      · rintro ⟨-, hrenews⟩
        have hold := hrenews a ha
        obtain ⟨text, htext⟩ := Option.ne_none_iff_exists'.mp hsome
        obtain ⟨h, hh, hsend, hkcp⟩ := reply_of_accepted ha hstep htext
        obtain ⟨kcp, hconns⟩ := hr.conns
        refine Or.inl ⟨a, ha, hraised,
          ⟨_, by rw [hconns]; exact List.getElem?_concat_length .., rfl, ?_, ?_⟩,
          ⟨text, h, htext, hh, hsend, hkcp⟩, ?_, hr.loops⟩
        · rw [hr.uidMap, if_pos rfl, if_neg hold]
        · change o.state.connection.get (nextSubid s.subid) = _
          rw [hr.connection, if_neg hold, if_pos rfl]
        · rw [hb.handshakeMap, if_pos rfl]

/-! ## Pending handshakes -/

/-- Each handshake in the table has a loop that still runs. -/
structure Pending (s : Server) : Prop where
  loop : ∀ uid, s.handshakeMap.get uid ≠ none →
    ∃ (i : ℕ) (l : HandshakeLoop), s.loops[i]? = some l ∧ l.running = true ∧ l.uid = uid
  rounds : ∀ (i : ℕ) (l : HandshakeLoop), s.loops[i]? = some l → l.running = true → l.rounds < 6

namespace Pending

variable {s t : Server}

theorem ctor : Pending Server.ctor := by
  constructor
  · intro uid h
    exact absurd (LuaTable.get_empty uid) h
  · intro i l h
    simp [Server.ctor] at h

theorem congr (h : Pending s) (hm : t.handshakeMap = s.handshakeMap) (hl : t.loops = s.loops) :
    Pending t := by
  constructor
  · rw [hm, hl]
    exact h.loop
  · rw [hl]
    exact h.rounds

/-- **An accepted handshake** comes with its loop. -/
theorem registered (h : Pending s) {a : Accepted} (hb : Began s a t) (hr : Registered s a t) :
    Pending t := by
  constructor
  · intro uid huid
    rw [hb.handshakeMap] at huid
    rw [hr.loops]
    split_ifs at huid with heq
    · exact ⟨s.loops.length, _, List.getElem?_concat_length .., rfl, heq.symm⟩
    · obtain ⟨i, l, hl, hrun, hluid⟩ := h.loop uid huid
      have hlt : i < s.loops.length := (List.getElem?_eq_some_iff.mp hl).1
      exact ⟨i, l, (List.getElem?_append_left hlt).trans hl, hrun, hluid⟩
  · intro i l hl hrun
    rw [hr.loops] at hl
    rw [getElem?_append_singleton] at hl
    split_ifs at hl
    · obtain rfl := Option.some.inj hl
      exact Nat.zero_lt_succ 5
    · exact h.rounds i l hl hrun

/-- **A loop that goes on** stays the loop of its uid, and one that ends leaves no handshake of its
uid behind. -/
theorem ticked (h : Pending s) {i : ℕ} {l : HandshakeLoop} (hl : s.loops[i]? = some l)
    (hrun : l.running = true) (ht : Ticked s i l t) : Pending t := by
  have hlt : i < s.loops.length := (List.getElem?_eq_some_iff.mp hl).1
  have hother {l' : HandshakeLoop} (hloops : t.loops = s.loops.set i l') {uid : LuaNumber}
      (hne : uid ≠ l.uid) (huid : s.handshakeMap.get uid ≠ none) :
      ∃ (j : ℕ) (m : HandshakeLoop), t.loops[j]? = some m ∧ m.running = true ∧ m.uid = uid := by
    obtain ⟨j, m, hm, hmrun, hmuid⟩ := h.loop uid huid
    have hj : i ≠ j := by
      rintro rfl
      obtain rfl : l = m := Option.some.inj (hl.symm.trans hm)
      exact hne hmuid.symm
    exact ⟨j, m, by rw [hloops, List.getElem?_set_ne hj, hm], hmrun, hmuid⟩
  constructor
  · intro uid huid
    cases ht with
    | stop hnone hsame hloops =>
      rw [hsame.handshakeMap] at huid
      refine hother hloops ?_ huid
      rintro rfl
      exact huid hnone
    | update hmore hsame hloops =>
      rw [hsame.handshakeMap] at huid
      by_cases hne : uid = l.uid
      · refine ⟨i, { l with rounds := l.rounds + 1 }, ?_, hrun, hne.symm⟩
        rw [hloops, List.getElem?_set_self hlt]
      · exact hother hloops hne huid
    | expire hlast g hg conns connection connectNum uidMap subid advances handshakes handshakeMap
        handshakeFrom hloops =>
      rw [handshakeMap] at huid
      split_ifs at huid with hne
      · exact absurd rfl huid
      · exact hother hloops hne huid
  · intro j m hm hmrun
    obtain ⟨l', hloops, -, -, hrounds, hmore⟩ := loops_of_ticked ht
    rw [hloops, List.getElem?_set] at hm
    split_ifs at hm with hj
    · obtain rfl := Option.some.inj hm
      rw [hrounds]
      exact hmore hmrun
    · exact h.rounds j m hm hmrun

theorem step (h : Pending s) (hwf : Wf s) {e : ServerEvent} {o : Outcome} (hok : s.Formats e)
    (hstep : s.step e = some o) : Pending o.state := by
  cases step_cases hstep with
  | accept a ha hc hadmits state raised =>
    obtain ⟨hb, ⟨hnone, -⟩ | ⟨-, -, hr⟩⟩ := accepted_cases hwf ha hstep
    · exact absurd hnone (hok a ha)
    · exact h.registered hb hr
  | quiet ha hq => exact h.congr hq.same.handshakeMap hq.loops
  | keepAlive ha i k hk hsame hloops hkeep => exact h.congr hsame.handshakeMap hloops
  | tick ha i l hl hrun hkeep ht => exact h.ticked hl hrun ht

/-- A pending handshake can be over before anything else happens. -/
theorem ends (h : Pending s) (hwf : Wf s) {uid : LuaNumber}
    (huid : s.handshakeMap.get uid ≠ none) :
    ∃ t, serverMachine.Path Machine.anyStep s t ∧ t.handshakeMap.get uid = none := by
  obtain ⟨i, l, hl, hrun, rfl⟩ := h.loop uid huid
  have hrounds := h.rounds i l hl hrun
  have hk : l.rounds + (5 - l.rounds + 1) = 6 := by omega
  obtain ⟨t, hpath, -, hnone⟩ :=
    expires Machine.anyStep (fun _ _ _ => trivial) hwf hl hrun hk
  exact ⟨t, hpath, hnone⟩

end Pending

end Server

/-- **Handshakes are processed completely or not at all** exactly when their time can be written and
their uid does not have the connection id that comes next: in every reached state, for every
datagram of a handshake. In every run without the others each handshake in the table has a loop
that still runs, and that removes it when it comes to its end. -/
theorem completes_iff {s : Server} (h : serverMachine.Reaches Machine.anyStep s) :
    (∀ fromAddr msg wall wall' wall'' str o, unpackPackage msg = some (0, str) →
      s.step (.datagram fromAddr msg wall wall' wall'') = some o →
      (s.AllOrNothing (.datagram fromAddr msg wall wall' wall'') o ↔
        s.Formats (.datagram fromAddr msg wall wall' wall'') ∧
          s.Renews (.datagram fromAddr msg wall wall' wall''))) ∧
    (serverMachine.Reaches (fun s e => s.Formats e ∧ s.Renews e) s →
      ∀ uid, s.handshakeMap.get uid ≠ none →
        (∃ l ∈ s.loops, l.running = true ∧ l.uid = uid) ∧
        ∃ t, serverMachine.Path Machine.anyStep s t ∧ t.handshakeMap.get uid = none) := by
  have hwf := Server.wf_of_reaches h
  refine ⟨fun fromAddr msg wall wall' wall'' str o hmsg hstep =>
    Server.allOrNothing_iff hwf hstep, fun hreach uid huid => ?_⟩
  have hpending : s.Pending := by
    have hinv : s.Wf ∧ s.Pending := by
      refine hreach.invariant (I := fun s => Server.Wf s ∧ Server.Pending s) ⟨.ctor, .ctor⟩
        fun s e t hs hok hstep => ?_
      obtain ⟨o, ho, rfl⟩ := Option.map_eq_some_iff.mp hstep
      exact ⟨hs.1.step ho, hs.2.step hs.1 hok.1 ho⟩
    exact hinv.2
  obtain ⟨i, l, hl, hrun, hluid⟩ := hpending.loop uid huid
  exact ⟨⟨l, List.mem_of_getElem? hl, hrun, hluid⟩, hpending.ends hwf huid⟩

/-- A handshake whose time is `1.5`. -/
def fractionalHello : Bytes :=
  pack 0 (encodeSegs [soleSegment 0 0 0 0 (pack 0 (literal "B@7@1.5@E"))])

/-- The answer cannot be made, but the handshake is in the tables. -/
theorem not_allOrNothing_fractional : ¬ ∀ s fromAddr msg wall wall' wall'' str o,
    serverMachine.Reaches Machine.anyStep s → unpackPackage msg = some (0, str) →
    s.step (.datagram fromAddr msg wall wall' wall'') = some o →
    s.AllOrNothing (.datagram fromAddr msg wall wall' wall'') o := by
  intro hall
  have h : (Server.ctor.step (.datagram [1] fractionalHello 0 0 0)).any (fun o =>
      decide (o.raised = true ∧ o.state.subid = 1)) = true := by decide +kernel
  obtain ⟨o, ho, hs⟩ := Option.any_eq_true _ _ |>.mp h
  obtain ⟨hraised, hsubid⟩ := of_decide_eq_true hs
  have hmsg : unpackPackage fractionalHello =
      some (0, encodeSegs [soleSegment 0 0 0 0 (pack 0 (literal "B@7@1.5@E"))]) := by
    decide +kernel
  rcases hall .ctor [1] fractionalHello 0 0 0 _ o (.refl _) hmsg ho with
    ⟨a, -, hraised', -⟩ | huntouched
  · exact absurd (hraised.symm.trans hraised') (by simp)
  · exact absurd (hsubid.symm.trans huntouched.subid) (by decide)

/-- The first handshake of a client is completed, and its loop runs. -/
theorem completes_iff_first : ∃ s, serverMachine.Reaches Machine.anyStep s ∧
    s.handshakeMap.get (.ofInt 7) ≠ none ∧ ∃ l ∈ s.loops, l.running = true ∧ l.uid = .ofInt 7 := by
  have hok (a : Accepted) (ha : Server.ctor.accepted (.datagram [1] (helloDatagram 7 1) 0 0 0) =
      some a) : formatD a.time ≠ none := by
    have h : (Server.ctor.accepted (.datagram [1] (helloDatagram 7 1) 0 0 0)).all (fun a =>
        decide (formatD a.time ≠ none)) = true := by decide +kernel
    rw [ha, Option.all_some] at h
    exact of_decide_eq_true h
  have h : (Server.ctor.step (.datagram [1] (helloDatagram 7 1) 0 0 0)).any (fun o =>
      decide (o.state.handshakeMap.get (.ofInt 7) ≠ none)) = true := by decide +kernel
  obtain ⟨o, ho, hs⟩ := Option.any_eq_true _ _ |>.mp h
  have hreach : serverMachine.Reaches (fun s e => s.Formats e ∧ s.Renews e) o.state := by
    refine .single (e := .datagram [1] (helloDatagram 7 1) 0 0 0) ⟨hok, fun a ha => ?_⟩
      (Option.map_eq_some_iff.mpr ⟨o, ho, rfl⟩)
    simp [Server.connectionOf, serverMachine, Server.ctor]
  have huid := of_decide_eq_true hs
  exact ⟨o.state, hreach.any, huid, ((completes_iff hreach.any).2 hreach _ huid).1⟩

end LuaKcp
