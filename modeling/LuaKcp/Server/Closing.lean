import LuaKcp.Server.Records

/-!
# Closing a connection

`close` calls the field `sq` of the connection's record, which no record has, so that it raises for
every live connection before it has changed anything; and so does `request`, which calls it when
`do_request` has raised (`closes_never`).
-/

namespace LuaKcp

/-- The names of the fields of an entry of `self.connection`. -/
def connFields : List String := ["from", "subid", "uid", "kcp", "ip", "ms"]

namespace Server

variable (s : Server)

/-- The record of the connection `subid`. -/
def liveConn (subid : ℕ) : Option Conn := (s.connection.get subid).bind fun r => s.conns[r]?

/-- What the critical section of `close` does. -/
def removeConn (subid : ℕ) (uid : LuaNumber) : Server :=
  { s with
    connection := s.connection.set subid none
    uidMap := s.uidMap.set uid none
    connectNum := s.connectNum - 1 }

/-- `close` for records with these fields: `package` is the message `syncCloseConnect`. -/
def closing (fields : List String) (subid : ℕ) (package : Bytes) : Outcome :=
  match s.liveConn subid with
  | none => ⟨s, false, []⟩
  | some u =>
    if "sq" ∈ fields then
      let s := s.removeConn subid u.uid
      (s.sendMsg u.uid none package).getD ⟨s, true, []⟩
    else ⟨s, true, []⟩

/-- What `close` should do with a live connection. -/
structure ClosesRight (subid : ℕ) (package : Bytes) (o : Outcome) : Prop where
  returns : o.raised = false
  connection : o.state.connection = s.connection.set subid none
  uidMap : ∀ u, s.liveConn subid = some u → o.state.uidMap = s.uidMap.set u.uid none
  connectNum : o.state.connectNum = s.connectNum - 1
  notified : ∀ r u, s.connection.get subid = some r → s.conns[r]? = some u →
    o.state.conns[r]? = some (u.sendMsg package).1

/-- What `request` should do when `do_request` has raised: it returns to the receive loop of the
coroutine `i`, and the connection is not in the table. -/
structure RequestsRight (r i : ℕ) (o : Outcome) : Prop where
  returns : o.raised = false
  removed : ∀ u, s.conns[r]? = some u → o.state.connection.get u.subid = none
  goesOn : ∀ u, s.conns[r]? = some u → o.state.conns[r]? = some (u.returned i)

/-- The connection of record `r` is in the table. -/
def Live (r : ℕ) : Prop := ∃ u, s.conns[r]? = some u ∧ s.connection.get u.subid ≠ none

variable {s : Server}

/-- An entry of the table has its record. -/
theorem liveConn_ne_none (hwf : s.Wf) {subid : ℕ} (h : s.connection.get subid ≠ none) :
    s.liveConn subid ≠ none := by
  obtain ⟨r, hr⟩ := Option.ne_none_iff_exists'.mp h
  obtain ⟨uid, born, hat⟩ := hwf.connection subid r hr
  obtain ⟨u, hu, -⟩ := Option.map_eq_some_iff.mp hat
  simp [liveConn, hr, hu]

theorem closing_connFields (hwf : s.Wf) {subid : ℕ} (package : Bytes)
    (h : s.connection.get subid ≠ none) : s.closing connFields subid package = ⟨s, true, []⟩ := by
  obtain ⟨u, hu⟩ := Option.ne_none_iff_exists'.mp (liveConn_ne_none hwf h)
  unfold closing
  rw [hu]
  exact if_neg (by decide)

/-- The definition of `close` is what the calls come to. -/
theorem closing_eq_close (hwf : s.Wf) (subid : ℕ) (package : Bytes) :
    s.closing connFields subid package = s.close subid := by
  by_cases h : s.connection.get subid = none
  · simp [closing, close, liveConn, h]
  · rw [closing_connFields hwf package h, close, decide_eq_true h]

/-- A request that raises is handled right exactly when there is nothing left to close. -/
theorem requestsRight_iff {r i : ℕ} {o : Outcome} (h : s.requestRaises r i = some o) :
    s.RequestsRight r i o ↔ ¬ s.Live r := by
  obtain ⟨u, hu, h⟩ := Option.bind_eq_some_iff.mp h
  have hlength : r < s.conns.length := (List.getElem?_eq_some_iff.mp hu).1
  split_ifs at h with hnone
  · obtain ⟨u', hu', h⟩ := Option.bind_eq_some_iff.mp h
    obtain rfl : u = u' := Option.some.inj (hu.symm.trans hu')
    obtain ⟨⟨t, out⟩, ht, rfl⟩ := Option.map_eq_some_iff.mp h
    refine iff_of_true ⟨rfl, fun u' hu' => ?_, fun u' hu' => ?_⟩ ?_
    · obtain rfl : u = u' := Option.some.inj (hu.symm.trans hu')
      exact hnone
    · obtain rfl : u = u' := Option.some.inj (hu.symm.trans hu')
      simp only [Conn.step] at ht
      split at ht
      · obtain ⟨rfl, -⟩ := Prod.mk.inj (Option.some.inj ht)
        exact List.getElem?_set_self hlength
      · simp at ht
    · rintro ⟨u', hu', hlive⟩
      obtain rfl : u = u' := Option.some.inj (hu.symm.trans hu')
      exact hlive hnone
  · obtain ⟨o', -, rfl⟩ := Option.map_eq_some_iff.mp h
    refine iff_of_false (fun hright => ?_) (not_not.mpr ⟨u, hu, hnone⟩)
    exact absurd hright.returns (by simp)

end Server

/-- **Closing a connection** raises and changes nothing, in every reachable state and for every live
connection; a request that has raised is handled right exactly when its connection is not in the
table any more. -/
theorem closes_never {s : Server} (h : serverMachine.Reaches Machine.anyStep s) :
    (∀ subid package, s.connection.get subid ≠ none →
      s.closing connFields subid package = ⟨s, true, []⟩ ∧
        ¬ s.ClosesRight subid package (s.closing connFields subid package)) ∧
    (∀ subid package, s.closing connFields subid package = s.close subid) ∧
    ∀ r i o, s.requestRaises r i = some o → (s.RequestsRight r i o ↔ ¬ s.Live r) := by
  have hwf := Server.wf_of_reaches h
  refine ⟨fun subid package hlive => ?_, Server.closing_eq_close hwf,
    fun r i o => Server.requestsRight_iff⟩
  have hraises := Server.closing_connFields hwf package hlive
  refine ⟨hraises, fun hright => ?_⟩
  have hreturns := hright.returns
  rw [hraises] at hreturns
  exact absurd hreturns (by simp)

/-- A connection made by a handshake, and its `close`. -/
theorem closes_never_first : ∃ s, serverMachine.Reaches Machine.anyStep s ∧
    s.connection.get 1 ≠ none ∧ s.closing connFields 1 [] = ⟨s, true, []⟩ := by
  have h : (serverMachine.run (fun _ _ => true) .ctor [.datagram [1] (helloDatagram 7 1) 0 0 0]).any
      (fun s => decide (s.connection.get 1 ≠ none)) = true := by
    decide +kernel
  obtain ⟨s, hrun, hs⟩ := Option.any_eq_true _ _ |>.mp h
  have hreach := Machine.path_of_run (fun _ _ _ => trivial) _ hrun
  have hlive := of_decide_eq_true hs
  exact ⟨s, hreach, hlive, ((closes_never hreach).1 1 [] hlive).1⟩

/-- The connection of the first handshake is not closed. -/
theorem not_closes_first :
    ¬ ∀ s subid package, serverMachine.Reaches Machine.anyStep s → s.connection.get subid ≠ none →
      s.ClosesRight subid package (s.closing connFields subid package) := by
  intro hall
  have h : (serverMachine.run (fun _ _ => true) .ctor [.datagram [1] (helloDatagram 7 1) 0 0 0]).any
      (fun s => decide (s.connection.get 1 ≠ none ∧ (s.closing connFields 1 []).raised = true)) =
      true := by
    decide +kernel
  obtain ⟨s, hrun, hs⟩ := Option.any_eq_true _ _ |>.mp h
  obtain ⟨hlive, hraised⟩ := of_decide_eq_true hs
  have hright := hall s 1 [] (Machine.path_of_run (fun _ _ _ => trivial) _ hrun) hlive
  exact absurd (hraised.symm.trans hright.returns) (by simp)

end LuaKcp
