import LuaKcp.Server.Records

/-!
# Requests in progress

`do_request` looks its connection up before it enters a handler of `cmdCtrl`, and again when the
handler has returned, any number of steps of other coroutines later. `Serving` adds to the server,
for each record and each coroutine of `dispatch_msg` that waits on it, what the call of
`do_request` has found, and which requests have been answered. Between two switches `do_request` is
one piece with the coroutine that calls it: its first lookup belongs to the step that has read the
request, and its answer to the step that goes on reading.
-/

namespace LuaKcp

/-- A call of `do_request` that has not returned: how many requests of its record came before it,
and the connection it has looked up; `none` is none, and then its `assert` raises. -/
structure Request where
  number : ℕ
  u : Option ℕ
  deriving DecidableEq

/-- An answer put into an object by `response_msg`: the record on which its request was received,
the number of the request there, and the record whose object it is put into. -/
structure Response where
  record : ℕ
  number : ℕ
  into : ℕ
  deriving DecidableEq

/-- What is known of the requests of a record: for each of its waiting coroutines the call it is in,
or `none` for one that sleeps, and the numbers of the requests that have been answered. -/
structure Ledger where
  calls : List (Option Request)
  answered : List ℕ
  deriving DecidableEq

/-- A server and the requests of its records. -/
structure Serving where
  server : Server
  ledger : ℕ → Ledger

/-- The effect of a step: the state then, the call of `do_request` that has begun, by its record,
and the answer that has been put into an object. -/
structure Served where
  state : Serving
  began : Option (ℕ × Request)
  response : Option Response

namespace Server

variable (s : Server)

/-- The record that a datagram is dispatched to. -/
def addressed (msg : Bytes) : Option ℕ :=
  (unpackPackage msg).bind fun p => if p.1 = 0 then none else s.connection.get p.1

/-- The test of `do_request` after the handler: the record in the table under `subid`, when the one
found before has the same id. -/
def checked (subid u : ℕ) : Option ℕ :=
  (s.connection.get subid).filter fun w =>
    decide ((s.conns[u]?).map Conn.subid = (s.conns[w]?).map Conn.subid)

end Server

namespace Serving

variable (s : Serving)

/-- The call of `do_request` that begins on record `r` in a step to `t`, when one more request has
been read. -/
def begins (t : Server) (r : ℕ) : Option Request :=
  match s.server.conns[r]?, t.conns[r]? with
  | some u, some u' =>
    if u.requested.length < u'.requested.length then
      some ⟨u.requested.length, t.connection.get u'.subid⟩
    else none
  | _, _ => none

/-- Whether a new coroutine waits on record `r` after a step to `t`. -/
def waits (t : Server) (r : ℕ) : Bool :=
  match s.server.conns[r]?, t.conns[r]? with
  | some u, some u' => decide (u.tasks.length < u'.tasks.length)
  | _, _ => false

/-- Coroutine `i` of record `r` has gone on to its next request or to its end. -/
def goesOn (r i : ℕ) (response : Option Response) (t : Server) : Served :=
  let request := s.begins t r
  let ledger : Ledger :=
    { calls := match request with
        | some q => (s.ledger r).calls.set i (some q)
        | none => (s.ledger r).calls.eraseIdx i
      answered := (s.ledger r).answered ++ (response.map Response.number).toList }
  { state := { server := t, ledger := Function.update s.ledger r ledger }
    began := request.map fun q => (r, q)
    response := response }

/-- A new coroutine has run on record `r`, to its sleep, its first request or its end. -/
def starts (r : ℕ) (t : Server) : Served :=
  let request := s.begins t r
  let ledger : Ledger :=
    { calls := if s.waits t r then (s.ledger r).calls ++ [request] else (s.ledger r).calls
      answered := (s.ledger r).answered }
  { state := { server := t, ledger := Function.update s.ledger r ledger }
    began := request.map fun q => (r, q)
    response := none }

/-- Another coroutine has run. -/
def rests (t : Server) : Served := ⟨{ s with server := t }, none, none⟩

/-- `dispatch_msg`, up to its first switch. -/
def dispatchMsg (fromAddr msg : Bytes) (wall wall' wall'' : ℕ) : Option Served :=
  (s.server.dispatchMsg fromAddr msg wall wall' wall'').map fun o =>
    match s.server.addressed msg with
    | none => s.rests o.state
    | some r => s.starts r o.state

/-- `skynet.sleep` of coroutine `i` of record `r` returns. -/
def wake (r i wall : ℕ) : Option Served :=
  (s.server.onConn r (.wake i wall)).map fun o => s.goesOn r i none o.state

/-- The handler that coroutine `i` of record `r` has entered returns, for a request that is to be
answered; `package` is the answer. -/
def replies (r i : ℕ) (package : Bytes) : Option Served :=
  match (s.ledger r).calls[i]?, s.server.conns[r]? with
  | some (some ⟨number, some v⟩), some u =>
    match s.server.checked u.subid v with
    | none => (s.server.onConn r (.returned i)).map fun o => s.goesOn r i none o.state
    | some w =>
      (s.server.responseMsg u.subid package).bind fun o =>
        (o.state.onConn r (.returned i)).map fun o => s.goesOn r i (some ⟨r, number, w⟩) o.state
  | _, _ => none

/-- The handler returns, for a request without an answer. -/
def ignores (r i : ℕ) : Option Served :=
  match (s.ledger r).calls[i]? with
  | some (some ⟨_, some _⟩) =>
    (s.server.onConn r (.returned i)).map fun o => s.goesOn r i none o.state
  | _ => none

/-- The call of `do_request` raises: there is no connection, the request cannot be decoded, or the
answer cannot be made. -/
def raises (r i : ℕ) : Option Served :=
  match (s.ledger r).calls[i]? with
  | some (some _) => (s.server.requestRaises r i).map fun o => s.goesOn r i none o.state
  | _ => none

end Serving

/-- What can happen at the server, seen from the requests. -/
inductive ServingEvent
  | datagram (fromAddr msg : Bytes) (wall wall' wall'' : ℕ)
  | wake (r i wall : ℕ)
  | replies (r i : ℕ) (package : Bytes)
  | ignores (r i : ℕ)
  | raises (r i : ℕ)
  | sendMsg (uid : LuaNumber) (subid : Option ℕ) (package : Bytes)
  | close (subid : ℕ)
  | keepAlive (i wall : ℕ)
  | tick (i wall : ℕ)

/-- A step of the server and its requests. -/
def Serving.step (s : Serving) : ServingEvent → Option Served
  | .datagram fromAddr msg wall wall' wall'' => s.dispatchMsg fromAddr msg wall wall' wall''
  | .wake r i wall => s.wake r i wall
  | .replies r i package => s.replies r i package
  | .ignores r i => s.ignores r i
  | .raises r i => s.raises r i
  | .sendMsg uid subid package =>
    (s.server.sendMsg uid subid package).map fun o => s.rests o.state
  | .close subid => some (s.rests (s.server.close subid).state)
  | .keepAlive i wall => (s.server.keepAlive i wall).map fun o => s.rests o.state
  | .tick i wall => (s.server.tick i wall).map fun o => s.rests o.state

/-- The runs of a server and its requests. -/
def servingMachine : Machine Serving ServingEvent where
  init := ⟨.ctor, fun _ => ⟨[], []⟩⟩
  step s e := (s.step e).map Served.state

end LuaKcp
