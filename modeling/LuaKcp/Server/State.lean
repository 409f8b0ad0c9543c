import LuaKcp.Foundations.Machine
import LuaKcp.Foundations.Table
import LuaKcp.Ikcp.Wire
import LuaKcp.Session.Client
import LuaKcp.Session.Connection

/-!
# The server

The tables of `mySockServer`, the coroutines it forks, and `dispatch_msg`. Records are kept in the
order they were made, and the tables hold their places, so that an entry of `connection` and one of
`uidMap` can be the same record. A step runs one coroutine from one switch to the next; it may end
with an error, and then what it did before the error stays. Sending on the socket succeeds.
-/

namespace LuaKcp

open Ikcp

/-- An entry of `self.handshakeMap`. -/
structure Handshake where
  uid : LuaNumber
  fromAddr : Bytes
  subid : ℕ
  kcp : Kcp
  time : LuaNumber

/-- The forked loop that updates the connection `subid`: the record it has last looked up, before
its sleep, or `none` when it has not started yet. -/
structure KeepAlive where
  subid : ℕ
  u : Option ℕ

/-- The forked loop that updates the handshake of `uid`: the handshake that forked it, how many of
its six sleeps are over, and whether it still runs. -/
structure HandshakeLoop where
  uid : LuaNumber
  forkedBy : ℕ
  rounds : ℕ
  running : Bool
  deriving DecidableEq

/-- A `mySockServer` with the records and the coroutines it has made; `advances` counts the ids it
has allocated. -/
structure Server where
  conns : List Conn
  handshakes : List Handshake
  connection : LuaTable ℕ ℕ
  connectNum : ℤ
  uidMap : LuaTable LuaNumber ℕ
  subid : ℕ
  handshakeMap : LuaTable LuaNumber ℕ
  handshakeFrom : LuaTable Bytes ℕ
  keepAlives : List KeepAlive
  loops : List HandshakeLoop
  advances : ℕ

/-- The effect of running a coroutine to its next switch: the state then, whether it has ended with
an error, and the datagrams sent. -/
structure Outcome where
  state : Server
  raised : Bool
  out : List Datagram

/-- The text of the answer to a handshake, packed: `time` is the text of its time. -/
def replyPackage (subid : ℕ) (time : Bytes) : Bytes :=
  pack 0 (literal "B@" ++ natDigits subid ++ literal "@" ++ time ++ literal "@OKK@E")

/-- What a new object reads from the datagram of a handshake, and the object then. -/
def hello (fromAddr str : Bytes) (wall wall' : ℕ) : (ℤ × Option Bytes) × Kcp × List Datagram :=
  let k := getKcp fromAddr 0 wall
  let u := (k.1.lkcpInput str fromAddr).2.lkcpUpdate (getms wall')
  let r := u.1.lkcpRecv
  (r.1, r.2, k.2 ++ u.2)

/-- The datagram of a handshake, as a client that has just started sends it. -/
def helloDatagram (uid time : ℕ) : Bytes :=
  pack 0 (encodeSegs [soleSegment 0 0 0 0 (handshakePackage uid time)])

/-- The uid and the time of a handshake. -/
def handshakeFields (hr : Bytes) : Option LuaNumber × Option LuaNumber :=
  let arr := split 64 hr
  ((arr[1]?).bind tonumber, (arr[2]?).bind tonumber)

namespace Server

/-- `mySockServer:ctor`. -/
def ctor : Server where
  conns := []
  handshakes := []
  connection := ∅
  connectNum := 0
  uidMap := ∅
  subid := 0
  handshakeMap := ∅
  handshakeFrom := ∅
  keepAlives := []
  loops := []
  advances := 0

variable (s : Server)

/-! ## Handshakes -/

/-- `self.handshakeMap[uid]`. -/
def handshakeOf (uid : LuaNumber) : Option Handshake :=
  (s.handshakeMap.get uid).bind fun r => s.handshakes[r]?

/-- The test of a handshake: it is newer than the one there is. -/
def admits (uid time : LuaNumber) : Bool :=
  LuaNumber.lt (.ofInt 0) uid && LuaNumber.lt (.ofInt 0) time &&
    LuaNumber.lt (((s.handshakeOf uid).map Handshake.time).getD (.ofInt 0)) time

/-- The handshake of `uid`, when there is one, is removed from both tables. -/
def dropHandshake (uid : LuaNumber) : Server :=
  match s.handshakeOf uid with
  | none => s
  | some h => { s with
      handshakeFrom := s.handshakeFrom.set h.fromAddr none
      handshakeMap := s.handshakeMap.set uid none }

/-- A new handshake is put into both tables. -/
def addHandshake (fromAddr : Bytes) (uid time : LuaNumber) (kcp : Kcp) : Server :=
  { s with
    handshakes := s.handshakes ++ [⟨uid, fromAddr, s.subid, kcp, time⟩]
    handshakeMap := s.handshakeMap.set uid (some s.handshakes.length)
    handshakeFrom := s.handshakeFrom.set fromAddr (some s.handshakes.length) }

/-- The next connection id. -/
def nextSubid (subid : ℕ) : ℕ := if subid + 1 ≥ 4294967295 then 1 else subid + 1

/-- The next connection id is allocated. -/
def advance : Server := { s with subid := nextSubid s.subid, advances := s.advances + 1 }

/-- The object of handshake `r` is changed. -/
def setKcp (r : ℕ) (kcp : Kcp) : Server :=
  match s.handshakes[r]? with
  | none => s
  | some h => { s with handshakes := s.handshakes.set r { h with kcp := kcp } }

/-- The answer is sent through the object of handshake `r`. -/
def reply (r : ℕ) (fromAddr : Bytes) (uid : LuaNumber) (kcp : Kcp) (handshake : Bytes) :
    Server × List Datagram :=
  let q := kcp.lkcpSend handshake fromAddr
  if q.1 < 0 then
    let s := s.setKcp r q.2
    ({ s with
      handshakeMap := s.handshakeMap.set uid none
      handshakeFrom := s.handshakeFrom.set fromAddr none }, [])
  else
    let f := q.2.lkcpFlush
    (s.setKcp r f.1, f.2)

/-- `self.uidMap[uid]`. -/
def connectionOf (uid : LuaNumber) : Option Conn :=
  (s.uidMap.get uid).bind fun r => s.conns[r]?

/-- The connection that `uid` had is removed: its entry under its id, if there is one. -/
def dropConnection (uid : LuaNumber) : Server :=
  match s.connectionOf uid with
  | none => s
  | some u =>
    let s := { s with uidMap := s.uidMap.set uid none }
    if s.connection.get u.subid ≠ none then
      { s with
        connection := s.connection.set u.subid none
        connectNum := s.connectNum - 1 }
    else s

/-- A new connection is put into the table. -/
def addConnection (fromAddr : Bytes) (uid : LuaNumber) (kcp : Kcp) : Server :=
  { s with
    conns := s.conns ++ [Conn.start fromAddr s.subid uid kcp s.advances]
    connection := s.connection.set s.subid (some s.conns.length)
    connectNum := s.connectNum + 1 }

/-- A new connection for `uid` is put into the tables, and the old one removed. -/
def register (fromAddr : Bytes) (uid : LuaNumber) (kcp : Kcp) : Server :=
  let t := (s.addConnection fromAddr uid kcp).dropConnection uid
  { t with uidMap := t.uidMap.set uid (t.connection.get s.subid) }

/-- The two loops of a handshake are forked. -/
def fork (r : ℕ) (uid : LuaNumber) : Server :=
  { s with
    keepAlives := s.keepAlives ++ [⟨s.subid, none⟩]
    loops := s.loops ++ [⟨uid, r, 0, true⟩] }

/-- A handshake that passes the test: the tables are changed before the answer is made, and making
it raises for a time without an integer representation. -/
def accept (fromAddr : Bytes) (uid time : LuaNumber) (kcp : Kcp) (wall : ℕ) : Outcome :=
  let r := s.handshakes.length
  let s := ((s.dropHandshake uid).addHandshake fromAddr uid time kcp).advance
  match formatD time with
  | none => ⟨s, true, []⟩
  | some text =>
    let q := s.reply r fromAddr uid kcp (replyPackage s.subid text)
    let k := getKcp fromAddr q.1.subid wall
    ⟨(q.1.register fromAddr uid k.1).fork r uid, false, q.2 ++ k.2⟩

/-- A datagram with nothing to read: it is for the handshake that came from this address. -/
def repeated (fromAddr str : Bytes) : Server :=
  match s.handshakeFrom.get fromAddr with
  | none => s
  | some r =>
    match s.handshakes[r]? with
    | none => s
    | some h => s.setKcp r (h.kcp.lkcpInput str fromAddr).2

/-- What `dispatch_msg` does with a datagram for a handshake, when the new object has read `hr`. -/
def handshake (fromAddr str : Bytes) (hr : ℤ × Option Bytes) (kcp : Kcp) (wall : ℕ) : Outcome :=
  if 0 < hr.1 then
    match handshakeFields (hr.2.getD []) with
    | (some uid, some time) =>
      if s.admits uid time then s.accept fromAddr uid time kcp wall else ⟨s, false, []⟩
    | _ => ⟨s, false, []⟩
  else ⟨s.repeated fromAddr str, false, []⟩

/-! ## Connections -/

/-- A step of connection record `r`. -/
def onConn (r : ℕ) (e : ConnEvent) : Option Outcome :=
  (s.conns[r]?).bind fun u =>
    (u.step e).map fun t => ⟨{ s with conns := s.conns.set r t.1 }, false, t.2⟩

/-- `dispatch_msg`, up to its first switch: the clock is read by `getKcp`, by the update and by the
second `getKcp` for a handshake, and twice in the business branch. -/
def dispatchMsg (fromAddr msg : Bytes) (wall wall' wall'' : ℕ) : Option Outcome :=
  match unpackPackage msg with
  | none => some ⟨s, false, []⟩
  | some (subid, str) =>
    if subid = 0 then
      let h := hello fromAddr str wall wall'
      let o := s.handshake fromAddr str h.1 h.2.1 wall''
      some { o with out := h.2.2 ++ o.out }
    else
      match s.connection.get subid with
      | none => some ⟨s, false, []⟩
      | some r => s.onConn r (.dispatch fromAddr str wall wall')

/-- A request raises: `pcall` catches it, but when the connection is in the table `close` raises
again, and the coroutine ends. -/
def requestRaises (r i : ℕ) : Option Outcome :=
  (s.conns[r]?).bind fun u =>
    if s.connection.get u.subid = none then s.onConn r (.returned i)
    else (s.onConn r (.died i)).map fun o => { o with raised := true }

/-- `response_msg`. -/
def responseMsg (subid : ℕ) (package : Bytes) : Option Outcome :=
  match s.connection.get subid with
  | none => some ⟨s, false, []⟩
  | some r => s.onConn r (.responseMsg package)

/-- `send_msg`, with the package made from its arguments. -/
def sendMsg (uid : LuaNumber) (subid : Option ℕ) (package : Bytes) : Option Outcome :=
  match (s.uidMap.get uid).orElse fun _ => subid.bind s.connection.get with
  | none => some ⟨s, false, []⟩
  | some r => s.onConn r (.sendMsg package)

/-- `close`: no record has a field `sq`, so calling it raises, before anything is changed. -/
def close (subid : ℕ) : Outcome := ⟨s, decide (s.connection.get subid ≠ none), []⟩

/-! ## The forked loops -/

/-- A keep-alive loop starts, or comes back from its sleep and updates the record it had looked up;
then it looks for its connection, and ends when there is none. -/
def keepAlive (i wall : ℕ) : Option Outcome :=
  (s.keepAlives[i]?).bind fun k =>
    let o : Option Outcome := match k.u with
      | none => some ⟨s, false, []⟩
      | some r => s.onConn r (.update wall)
    o.map fun o =>
      let keepAlives := match s.connection.get k.subid with
        | none => s.keepAlives.eraseIdx i
        | some r => s.keepAlives.set i { k with u := some r }
      { o with state := { o.state with keepAlives := keepAlives } }

/-- A handshake loop comes back from its sleep: it updates the handshake of its uid, and removes it
after the sixth sleep; it ends when there is none. -/
def tick (i wall : ℕ) : Option Outcome :=
  (s.loops[i]?).bind fun l =>
    if l.running then
      match s.handshakeMap.get l.uid with
      | none =>
        let l := { l with rounds := l.rounds + 1, running := false }
        some ⟨{ s with loops := s.loops.set i l }, false, []⟩
      | some r =>
        (s.handshakes[r]?).map fun h =>
          let f := h.kcp.lkcpUpdate (getms wall)
          let t := s.setKcp r f.1
          let more := decide (l.rounds + 1 < 6)
          let l := { l with rounds := l.rounds + 1, running := more }
          let t := if more then t else t.dropHandshake l.uid
          ⟨{ t with loops := t.loops.set i l }, false, f.2⟩
    else none

end Server

/-- A handshake that has passed the test: where it came from, its fields, the object that read it
and the next reading of the clock. -/
structure Accepted where
  fromAddr : Bytes
  uid : LuaNumber
  time : LuaNumber
  kcp : Kcp
  wall : ℕ

/-- What can happen at the server. -/
inductive ServerEvent
  | datagram (fromAddr msg : Bytes) (wall wall' wall'' : ℕ)
  | wake (r i wall : ℕ)
  | returned (r i : ℕ)
  | requestRaises (r i : ℕ)
  | responseMsg (subid : ℕ) (package : Bytes)
  | sendMsg (uid : LuaNumber) (subid : Option ℕ) (package : Bytes)
  | close (subid : ℕ)
  | keepAlive (i wall : ℕ)
  | tick (i wall : ℕ)

/-- A step of the server. -/
def Server.step (s : Server) : ServerEvent → Option Outcome
  | .datagram fromAddr msg wall wall' wall'' => s.dispatchMsg fromAddr msg wall wall' wall''
  | .wake r i wall => s.onConn r (.wake i wall)
  | .returned r i => s.onConn r (.returned i)
  | .requestRaises r i => s.requestRaises r i
  | .responseMsg subid package => s.responseMsg subid package
  | .sendMsg uid subid package => s.sendMsg uid subid package
  | .close subid => some (s.close subid)
  | .keepAlive i wall => s.keepAlive i wall
  | .tick i wall => s.tick i wall

/-- The handshake that a step accepts, when it accepts one. -/
def Server.accepted (s : Server) : ServerEvent → Option Accepted
  | .datagram fromAddr msg wall wall' wall'' =>
    match unpackPackage msg with
    | none => none
    | some (subid, str) =>
      let h := hello fromAddr str wall wall'
      if subid = 0 ∧ 0 < h.1.1 then
        match handshakeFields (h.1.2.getD []) with
        | (some uid, some time) =>
          if s.admits uid time then some ⟨fromAddr, uid, time, h.2.1, wall''⟩ else none
        | _ => none
      else none
  | _ => none

/-- The runs of a server. -/
def serverMachine : Machine Server ServerEvent where
  init := .ctor
  step s e := (s.step e).map Outcome.state

end LuaKcp
