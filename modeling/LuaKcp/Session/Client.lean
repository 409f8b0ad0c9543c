import LuaKcp.Binding.Lkcp

/-!
# The client

`mySockClient` is one script that runs a loop: it sends its handshake through a first kcp object,
waits for the answer, and from then on uses a second object under the connection id of the answer.
An event runs the loop from one place where it waits or reads the socket to the next. The datagrams
it sends are packages, and all go to the server.
-/

namespace LuaKcp

open Ikcp

/-- Where the loop of `dispatch_msg` stands. -/
inductive Phase
  | start
  | handshakeReceive
  | handshakeRead
  | handshakeWait
  | receive
  | read
  | wait
  | command
  deriving DecidableEq

/-- A `mySockClient`; the last two fields record the messages that `lkcp_send` of the second object
has accepted, and those that its `lkcp_recv` has returned. -/
structure Client where
  uid : ℕ
  subid : ℤ
  kcp1 : Option Ikcpcb
  kcp2 : Option Ikcpcb
  ms : ℤ
  handshaketime : ℕ
  phase : Phase
  accepted : List Bytes
  received : List Bytes

/-- What the client sends as its handshake. -/
def handshakePackage (uid time : ℕ) : Bytes :=
  pack 0 (literal "B@" ++ natDigits uid ++ literal "@" ++ natDigits time ++ literal "@E")

namespace Client

/-- `mySockClient:ctor`, and the uid that `init` takes. -/
def ctor (uid : ℕ) : Client where
  uid := uid
  subid := -1
  kcp1 := none
  kcp2 := none
  ms := 0
  handshaketime := 0
  phase := .start
  accepted := []
  received := []

/-- `mySockClient:getKcp`. -/
def getKcp (subid wall : ℕ) : Ikcpcb × List Bytes :=
  let r := (configured (convOf subid)).lkcpUpdate (getms wall)
  (r.1, r.2.map (pack subid))

variable (c : Client)

/-- The branch of a client that has not asked for a handshake: `time` is that of `os.time`. -/
def begin (wall time : ℕ) : Client × List Bytes :=
  let r := getKcp 0 wall
  let s := (r.1.lkcpSend (handshakePackage c.uid time)).2.flush
  ({ c with
    subid := 0, kcp1 := some s.1, ms := getms wall, handshaketime := time, phase := .command },
    r.2 ++ s.2.map (pack 0))

/-- A datagram, while the answer is awaited. -/
def handshakeReceive (d : Bytes) : Client :=
  match unpackPackage d with
  | some (0, str) => { c with kcp1 := c.kcp1.map fun kcp => (kcp.input str).2 }
  | _ => c

/-- The fields of an answer that tell the connection id, when it answers the handshake of this
time. -/
def answer (time : ℕ) (r : Bytes) : Option LuaNumber :=
  let arr := split 64 r
  let subid := ((arr[1]?).bind tonumber).getD (.ofInt 0)
  let time' := ((arr[2]?).bind tonumber).getD (.ofInt 0)
  if LuaNumber.lt (.ofInt 0) subid ∧ time' = .ofInt time ∧ arr[3]? = some (literal "OKK") then
    some subid
  else none

/-- One round of reading the answer. The script ends with an error in `getKcp` when the id is no
integer; one that `string.pack` cannot put in four bytes ends it at the first datagram of the new
object, which is taken as the same here. -/
def handshakeRead (wall : ℕ) : Option (Client × List Bytes) :=
  match c.kcp1 with
  | none => none
  | some kcp1 =>
    let r := kcp1.lkcpRecv
    let c := { c with kcp1 := some r.2 }
    if 0 < r.1.1 then
      match answer c.handshaketime (r.1.2.getD []) with
      | none => some (c, [])
      | some subid =>
        match subid.toInteger with
        | none => none
        | some n =>
          if n < 2 ^ 32 then
            let s := getKcp n.toNat wall
            some ({ c with
              subid := n, kcp2 := some s.1, ms := getms wall, phase := .handshakeWait }, s.2)
          else none
    else some ({ c with phase := .handshakeWait }, [])

/-- The first object, when there is one, is updated. -/
def update1 (ms : ℤ) : Client × List Bytes :=
  match c.kcp1 with
  | none => (c, [])
  | some kcp =>
    let r := kcp.lkcpUpdate ms
    ({ c with kcp1 := some r.1 }, r.2.map (pack 0))

/-- The second object, when there is one, is updated. -/
def update2 (ms : ℤ) : Client × List Bytes :=
  match c.kcp2 with
  | none => (c, [])
  | some kcp =>
    let r := kcp.lkcpUpdate ms
    ({ c with kcp2 := some r.1 }, r.2.map (pack c.subid.toNat))

/-- The end of a round while the answer is awaited, with the last reading of the clock. -/
def handshakeWait (wall : ℕ) : Client × List Bytes :=
  ({ c with ms := getms wall, phase := .command }).update1 (getms wall)

/-- A datagram for a connected client: the first one of the connection ends the handshake, and
until then an answer that comes again is acknowledged. -/
def receive (d : Bytes) : Client × List Bytes :=
  match unpackPackage d with
  | none => (c, [])
  | some (subid, str) =>
    if (subid : ℤ) = c.subid then
      ({ c with kcp2 := c.kcp2.map fun (kcp : Ikcpcb) => (kcp.input str).2, kcp1 := none }, [])
    else if subid = 0 then
      ({ c with kcp1 := c.kcp1.map fun (kcp : Ikcpcb) => (kcp.input str).2 }).update1 c.ms
    else (c, [])

/-- One round of reading the connection. -/
def read : Client :=
  match c.kcp2 with
  | none => c
  | some kcp =>
    let r := kcp.lkcpRecv
    let c := { c with kcp2 := some r.2 }
    if 0 < r.1.1 then { c with received := c.received ++ r.1.2.toList }
    else { c with phase := .wait }

/-- The end of a round of a connected client. -/
def wait (wall : ℕ) : Client × List Bytes :=
  let r := ({ c with ms := getms wall, phase := .command }).update2 (getms wall)
  let s := r.1.update1 (getms wall)
  (s.1, r.2 ++ s.2)

/-- `lkcp_send` of the second object. -/
def send (package : Bytes) : Client :=
  match c.kcp2 with
  | none => c
  | some kcp =>
    let r := kcp.lkcpSend package
    { c with
      kcp2 := some r.2
      accepted := if 0 ≤ r.1 then c.accepted ++ [package] else c.accepted }

/-- `lkcp_flush` of the second object. -/
def flush : Client × List Bytes :=
  match c.kcp2 with
  | none => (c, [])
  | some kcp =>
    let r := kcp.flush
    ({ c with kcp2 := some r.1 }, r.2.map (pack c.subid.toNat))

/-- The top of the loop, where the clock is read for the next round. -/
def top (wall : ℕ) : Client :=
  if c.subid < 0 then { c with phase := .start }
  else if c.subid = 0 then { c with ms := getms wall, phase := .handshakeReceive }
  else { c with ms := getms wall, phase := .receive }

/-- A line of input, or none, and the top of the loop. A request made without a connection raises
inside `pcall`. -/
def command (package : Option Bytes) (wall : ℕ) : Client × List Bytes :=
  match package with
  | none => (c.top wall, [])
  | some package =>
    let r := (c.send package).flush
    (r.1.top wall, r.2)

end Client

/-- What a client does: the steps of its loop, and calls on its second object from elsewhere. -/
inductive ClientEvent
  | begin (wall time : ℕ)
  | receive (d : Bytes)
  | drained
  | read (wall : ℕ)
  | wait (wall : ℕ)
  | command (package : Option Bytes) (wall : ℕ)
  | send (package : Bytes)
  | flush
  | update (wall : ℕ)

/-- A step of the client and the datagrams it sends. -/
def Client.step (c : Client) : ClientEvent → Option (Client × List Bytes)
  | .begin wall time => if c.phase = .start then some (c.begin wall time) else none
  | .receive d =>
    match c.phase with
    | .handshakeReceive => some (c.handshakeReceive d, [])
    | .receive => some (c.receive d)
    | _ => none
  | .drained =>
    match c.phase with
    | .handshakeReceive => some ({ c with phase := .handshakeRead }, [])
    | .receive => some ({ c with phase := .read }, [])
    | _ => none
  | .read wall =>
    match c.phase with
    | .handshakeRead => c.handshakeRead wall
    | .read => some (c.read, [])
    | _ => none
  | .wait wall =>
    match c.phase with
    | .handshakeWait => some (c.handshakeWait wall)
    | .wait => some (c.wait wall)
    | _ => none
  | .command package wall => if c.phase = .command then some (c.command package wall) else none
  | .send package => some (c.send package, [])
  | .flush => some c.flush
  | .update wall => some (c.update2 (getms wall))

/-- A client that has just been told its connection id. -/
def Client.connected (uid subid wall time : ℕ) (kcp1 : Option Ikcpcb) : Client where
  uid := uid
  subid := subid
  kcp1 := kcp1
  kcp2 := some (Client.getKcp subid wall).1
  ms := getms wall
  handshaketime := time
  phase := .handshakeWait
  accepted := []
  received := []

end LuaKcp
