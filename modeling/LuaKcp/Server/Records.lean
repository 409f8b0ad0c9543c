import LuaKcp.Server.Changes

/-!
# Where the tables of the server point

What holds in every run, whatever is accepted: an entry of a table points to a record made for its
key, and connection ids are allocated in turn, from 1 up to 4294967294 and again from 1. A record is
seen through what it was made with, which no step changes.
-/

namespace LuaKcp

/-- The connection id after `n` allocations. -/
def idOf (n : ℕ) : ℕ := if n = 0 then 0 else (n - 1) % 4294967294 + 1

theorem idOf_succ (n : ℕ) : idOf (n + 1) = Server.nextSubid (idOf n) := by
  unfold idOf Server.nextSubid
  split_ifs <;> omega

namespace Server

/-- What connection record `r` was made with. -/
def connAt (s : Server) (r : ℕ) : Option (ℕ × LuaNumber × ℕ) := (s.conns[r]?).map Conn.made

/-- What handshake `r` was made with. -/
def handshakeAt (s : Server) (r : ℕ) : Option (LuaNumber × Bytes × LuaNumber) :=
  (s.handshakes[r]?).map Handshake.made

theorem connAt_of_map {s t : Server} (h : t.conns.map Conn.made = s.conns.map Conn.made) (r : ℕ) :
    t.connAt r = s.connAt r := by
  have := congrArg (fun x => x[r]?) h
  simp only [List.getElem?_map] at this
  exact this

/-- The id of the connection of `uid`, from what its record was made with. -/
theorem map_subid_connectionOf (s : Server) (uid : LuaNumber) :
    (s.connectionOf uid).map Conn.subid =
      (s.uidMap.get uid).bind fun r => (s.connAt r).map Prod.fst := by
  unfold connectionOf connAt
  cases s.uidMap.get uid with
  | none => rfl
  | some r => cases h : s.conns[r]? <;> simp [h, Conn.made]

theorem handshakeAt_of_map {s t : Server}
    (h : t.handshakes.map Handshake.made = s.handshakes.map Handshake.made) (r : ℕ) :
    t.handshakeAt r = s.handshakeAt r := by
  have := congrArg (fun x => x[r]?) h
  simp only [List.getElem?_map] at this
  exact this

theorem connAt_lt {s : Server} {r : ℕ} {x : ℕ × LuaNumber × ℕ} (h : s.connAt r = some x) :
    r < s.conns.length := by
  obtain ⟨u, hu, -⟩ := Option.map_eq_some_iff.mp h
  exact (List.getElem?_eq_some_iff.mp hu).1

theorem handshakeAt_lt {s : Server} {r : ℕ} {x : LuaNumber × Bytes × LuaNumber}
    (h : s.handshakeAt r = some x) : r < s.handshakes.length := by
  obtain ⟨u, hu, -⟩ := Option.map_eq_some_iff.mp h
  exact (List.getElem?_eq_some_iff.mp hu).1

/-- The records after an accepted handshake. -/
theorem Registered.connAt {s t : Server} {a : Accepted} (h : Registered s a t) (r : ℕ) :
    t.connAt r = if r = s.conns.length then some (nextSubid s.subid, a.uid, s.advances + 1)
      else s.connAt r := by
  obtain ⟨kcp, hconns⟩ := h.conns
  unfold Server.connAt
  rw [hconns, map_getElem?_append_singleton]
  rfl

theorem Unregistered.connAt {s t : Server} (h : Unregistered s t) (r : ℕ) :
    t.connAt r = s.connAt r := by
  unfold Server.connAt
  rw [h.conns]

theorem Began.handshakeAt {s t : Server} {a : Accepted} (h : Began s a t) (r : ℕ) :
    t.handshakeAt r = if r = s.handshakes.length then some (a.uid, a.fromAddr, a.time)
      else s.handshakeAt r := by
  obtain ⟨kcp, hs⟩ := h.handshakes
  unfold Server.handshakeAt
  rw [hs, map_getElem?_append_singleton]
  rfl

/-- Every entry of a table points to a record made for its key, and ids are allocated in turn. -/
structure Wf (s : Server) : Prop where
  subid : s.subid = idOf s.advances
  conns : ∀ r n uid born, s.connAt r = some (n, uid, born) →
    n = idOf born ∧ 1 ≤ born ∧ born ≤ s.advances
  connection : ∀ n r, s.connection.get n = some r → ∃ uid born, s.connAt r = some (n, uid, born)
  uidMap : ∀ uid r, s.uidMap.get uid = some r → ∃ n born, s.connAt r = some (n, uid, born)
  handshakeMap : ∀ uid r, s.handshakeMap.get uid = some r →
    ∃ fromAddr time, s.handshakeAt r = some (uid, fromAddr, time)
  handshakeFrom : ∀ fromAddr r, s.handshakeFrom.get fromAddr = some r →
    ∃ uid time, s.handshakeAt r = some (uid, fromAddr, time)

namespace Wf

variable {s t : Server}

theorem ctor : Wf Server.ctor := by
  refine ⟨rfl, ?_, ?_, ?_, ?_, ?_⟩
  · intro r n uid born h
    simp [Server.ctor, connAt] at h
  all_goals
    intro k r h
    exact absurd h (by simp [Server.ctor])

theorem uidMap_lt (h : Wf s) {uid : LuaNumber} : ∀ r, s.uidMap.get uid = some r →
    r < s.conns.length := by
  intro r hr
  obtain ⟨n, born, hat⟩ := h.uidMap uid r hr
  exact connAt_lt hat

theorem same (h : Wf s) (hst : Same s t) : Wf t := by
  have hconn := connAt_of_map hst.conns
  have hhs := handshakeAt_of_map hst.handshakes
  refine ⟨by rw [hst.subid, hst.advances, h.subid], ?_, ?_, ?_, ?_, ?_⟩
  · intro r n uid born hr
    rw [hst.advances]
    exact h.conns r n uid born ((hconn r).symm.trans hr)
  · intro n r hr
    rw [hconn]
    exact h.connection n r (by rwa [hst.connection] at hr)
  · intro uid r hr
    rw [hconn]
    exact h.uidMap uid r (by rwa [hst.uidMap] at hr)
  · intro uid r hr
    rw [hhs]
    exact h.handshakeMap uid r (by rwa [hst.handshakeMap] at hr)
  · intro fromAddr r hr
    rw [hhs]
    exact h.handshakeFrom fromAddr r (by rwa [hst.handshakeFrom] at hr)

/-- The handshake tables of a step that accepts. -/
theorem began_handshakes (h : Wf s) {a : Accepted} (hb : Began s a t) :
    (∀ uid r, t.handshakeMap.get uid = some r →
      ∃ fromAddr time, t.handshakeAt r = some (uid, fromAddr, time)) ∧
    ∀ fromAddr r, t.handshakeFrom.get fromAddr = some r →
      ∃ uid time, t.handshakeAt r = some (uid, fromAddr, time) := by
  have hold {r : ℕ} {x : LuaNumber × Bytes × LuaNumber} (hr : s.handshakeAt r = some x) :
      t.handshakeAt r = some x := by
    rw [hb.handshakeAt, if_neg (handshakeAt_lt hr).ne, hr]
  have hnew : t.handshakeAt s.handshakes.length = some (a.uid, a.fromAddr, a.time) := by
    rw [hb.handshakeAt, if_pos rfl]
  refine ⟨fun uid r hr => ?_, fun fromAddr r hr => ?_⟩
  · rw [hb.handshakeMap] at hr
    split_ifs at hr with hu
    · obtain rfl := Option.some.inj hr
      exact ⟨a.fromAddr, a.time, by rw [hnew, hu]⟩
    · obtain ⟨fromAddr, time, hat⟩ := h.handshakeMap uid r hr
      exact ⟨fromAddr, time, hold hat⟩
  · rw [hb.handshakeFrom] at hr
    split_ifs at hr with hf
    · obtain rfl := Option.some.inj hr
      exact ⟨a.uid, a.time, by rw [hnew, hf]⟩
    · obtain ⟨uid, time, hat⟩ := h.handshakeFrom fromAddr r hr
      exact ⟨uid, time, hold hat⟩

/-- The connection tables of a step that accepts. -/
theorem registered (h : Wf s) {a : Accepted} (hb : Began s a t) (hr : Registered s a t) : Wf t := by
  have hold {r : ℕ} {x : ℕ × LuaNumber × ℕ} (hx : s.connAt r = some x) : t.connAt r = some x := by
    rw [hr.connAt, if_neg (connAt_lt hx).ne, hx]
  have hnew : t.connAt s.conns.length = some (nextSubid s.subid, a.uid, s.advances + 1) := by
    rw [hr.connAt, if_pos rfl]
  have hid : nextSubid s.subid = idOf (s.advances + 1) := by rw [idOf_succ, h.subid]
  refine ⟨by rw [hb.subid, hb.advances, hid], ?_, ?_, ?_, (h.began_handshakes hb).1,
    (h.began_handshakes hb).2⟩
  · intro r n uid born hx
    rw [hb.advances]
    rw [hr.connAt] at hx
    split_ifs at hx
    · obtain ⟨rfl, rfl, rfl⟩ : nextSubid s.subid = n ∧ a.uid = uid ∧ s.advances + 1 = born := by
        simpa using hx
      exact ⟨hid, by omega, by omega⟩
    · obtain ⟨h₁, h₂, h₃⟩ := h.conns r n uid born hx
      exact ⟨h₁, h₂, by omega⟩
  · intro n r hn
    rw [hr.connection] at hn
    split_ifs at hn with h₁ h₂
    · obtain rfl := Option.some.inj hn
      exact ⟨a.uid, s.advances + 1, by rw [hnew, h₂]⟩
    · obtain ⟨uid, born, hat⟩ := h.connection n r hn
      exact ⟨uid, born, hold hat⟩
  · intro uid r hn
    rw [hr.uidMap] at hn
    split_ifs at hn with h₁ h₂
    · obtain rfl := Option.some.inj hn
      exact ⟨nextSubid s.subid, s.advances + 1, by rw [hnew, h₁]⟩
    · obtain ⟨n, born, hat⟩ := h.uidMap uid r hn
      exact ⟨n, born, hold hat⟩

theorem unregistered (h : Wf s) {a : Accepted} (hb : Began s a t) (hu : Unregistered s t) :
    Wf t := by
  refine ⟨by rw [hb.subid, hb.advances, idOf_succ, h.subid], ?_, ?_, ?_,
    (h.began_handshakes hb).1, (h.began_handshakes hb).2⟩
  · intro r n uid born hx
    rw [hu.connAt] at hx
    obtain ⟨h₁, h₂, h₃⟩ := h.conns r n uid born hx
    exact ⟨h₁, h₂, by rw [hb.advances]; omega⟩
  · intro n r hn
    rw [hu.connAt]
    exact h.connection n r (by rwa [hu.connection] at hn)
  · intro uid r hn
    rw [hu.connAt]
    exact h.uidMap uid r (by rwa [hu.uidMap] at hn)

/-- A handshake loop keeps the tables well-formed. -/
theorem ticked (h : Wf s) {i : ℕ} {l : HandshakeLoop} (ht : Ticked s i l t) : Wf t := by
  cases ht with
  | stop hnone hsame hloops => exact h.same hsame
  | update hmore hsame hloops => exact h.same hsame
  | expire hlast hs hh conns connection connectNum uidMap subid advances handshakes handshakeMap
      handshakeFrom hloops =>
    have hconn (r : ℕ) : t.connAt r = s.connAt r := by
      unfold connAt
      rw [conns]
    have hhs := handshakeAt_of_map handshakes
    refine ⟨by rw [subid, advances, h.subid], ?_, ?_, ?_, ?_, ?_⟩
    · intro r n uid born hr
      rw [advances]
      exact h.conns r n uid born ((hconn r).symm.trans hr)
    · intro n r hr
      rw [hconn]
      exact h.connection n r (by rwa [connection] at hr)
    · intro uid r hr
      rw [hconn]
      exact h.uidMap uid r (by rwa [uidMap] at hr)
    · intro uid r hr
      rw [handshakeMap] at hr
      split_ifs at hr
      rw [hhs]
      exact h.handshakeMap uid r hr
    · intro fromAddr r hr
      rw [handshakeFrom] at hr
      split_ifs at hr
      rw [hhs]
      exact h.handshakeFrom fromAddr r hr

/-- Every step keeps the tables well-formed. -/
theorem step (h : Wf s) {e : ServerEvent} {o : Outcome} (hstep : s.step e = some o) :
    Wf o.state := by
  cases step_cases hstep with
  | accept a ha hc hadmits state raised =>
    rw [state]
    rcases accept_cases hc h.uidMap_lt rfl with ⟨hb, ⟨-, -, hu⟩ | ⟨-, -, hr⟩⟩
    · exact h.unregistered hb hu
    · exact h.registered hb hr
  | quiet ha hq => exact h.same hq.same
  | keepAlive ha i k hk hsame hloops hkeep => exact h.same hsame
  | tick ha i l hl hrun hkeep ht => exact h.ticked ht

end Wf

/-- **The tables of every reached state are well-formed.** -/
theorem wf_of_reaches {ok : Server → ServerEvent → Prop} {s : Server}
    (h : serverMachine.Reaches ok s) : s.Wf := by
  refine h.invariant (I := Wf) Wf.ctor fun s e t hs _ hstep => ?_
  obtain ⟨o, ho, rfl⟩ := Option.map_eq_some_iff.mp hstep
  exact hs.step ho

/-- An accepted handshake is a step. -/
theorem step_of_accepted {s : Server} {e : ServerEvent} {a : Accepted}
    (h : s.accepted e = some a) : ∃ o, s.step e = some o := by
  cases e with
  | datagram fromAddr msg wall wall' wall'' =>
    change ∃ o, s.dispatchMsg fromAddr msg wall wall' wall'' = some o
    unfold dispatchMsg
    cases hmsg : unpackPackage msg with
    | none => exact ⟨_, rfl⟩
    | some r =>
      obtain ⟨subid, str⟩ := r
      by_cases hzero : subid = 0
      · dsimp only
        rw [if_pos hzero]
        exact ⟨_, rfl⟩
      · simp [accepted, hmsg, hzero] at h
  | _ => simp [accepted] at h

/-- The time of an accepted handshake can be written by `%d`. -/
def Formats (s : Server) (e : ServerEvent) : Prop :=
  ∀ a, s.accepted e = some a → formatD a.time ≠ none

/-- What a step that accepts a handshake does to the tables. -/
theorem accepted_cases {s : Server} (hwf : Wf s) {e : ServerEvent} {a : Accepted} {o : Outcome}
    (ha : s.accepted e = some a) (hstep : s.step e = some o) :
    Began s a o.state ∧
      ((formatD a.time = none ∧ o.raised = true ∧ Unregistered s o.state) ∨
        (formatD a.time ≠ none ∧ o.raised = false ∧ Registered s a o.state)) := by
  cases step_cases hstep with
  | accept a' ha' hc hadmits state raised =>
    obtain rfl : a' = a := Option.some.inj (ha'.symm.trans ha)
    rw [state, raised]
    exact accept_cases hc hwf.uidMap_lt rfl
  | quiet ha' | keepAlive ha' | tick ha' =>
    rw [ha] at ha'
    exact absurd ha' (by simp)

end Server

end LuaKcp
