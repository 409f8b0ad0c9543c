import LuaKcp.Binding.Lkcp

/-!
# A business connection of the server

The record that `mySockServer` keeps for a connection, and the coroutines of `dispatch_msg` that
work on it. A coroutine switches at two places only: in `skynet.sleep`, before it looks at `u.ms`
again, and inside `self:request`, called from its receive loop. `dispatch` runs a new coroutine to
its first switch, `wake` and `returned` from one switch to the next; critical sections of `self.sq`
contain no switch, so they are plain code.
-/

namespace LuaKcp

/-- Where a coroutine of `dispatch_msg` waits, in its business branch. -/
inductive Task
  | sleeping
  | handling (msg : Bytes)
  deriving DecidableEq

/-- An entry of `self.connection`. The last three fields record what has happened: the strings
passed to `self:request`, the messages that `lkcp_send` has accepted, and the value of the
server's count of connection ids when this one was allocated. -/
structure Conn where
  fromAddr : Bytes
  subid : ℕ
  uid : LuaNumber
  kcp : Kcp
  ms : Option ℤ
  tasks : List Task
  requested : List Bytes
  accepted : List Bytes
  born : ℕ

namespace Conn

/-- The entry made for an accepted handshake, with the object that `getKcp` returned. -/
def start (fromAddr : Bytes) (subid : ℕ) (uid : LuaNumber) (kcp : Kcp) (born : ℕ) : Conn where
  fromAddr := fromAddr
  subid := subid
  uid := uid
  kcp := kcp
  ms := some 0
  tasks := []
  requested := []
  accepted := []
  born := born

variable (u : Conn)

/-- `u.kcp:lkcp_update(self:getms())`. -/
def update (wall : ℕ) : Conn × List Datagram :=
  let r := u.kcp.lkcpUpdate (getms wall)
  ({ u with kcp := r.1 }, r.2)

/-- One round of the receive loop: the call of `self:request` that it reaches, or `none` when the
loop ends. -/
def receive : Conn × Option Task :=
  let r := u.kcp.lkcpRecv
  let hr := r.1.2.getD []
  if 0 < r.1.1 then
    ({ u with kcp := r.2, requested := u.requested ++ [hr] }, some (.handling hr))
  else ({ u with kcp := r.2 }, none)

/-- The coroutine after its sleep, up to the first request. -/
def serve (wall : ℕ) : Conn × Option Task × List Datagram :=
  let r := u.update wall
  let s := ({ r.1 with ms := none }).receive
  (s.1, s.2, r.2)

/-- Waiting coroutine `i` goes on to wait somewhere else, or ends. -/
def resume (i : ℕ) (task : Option Task) : Conn :=
  { u with tasks := match task with
      | some task => u.tasks.set i task
      | none => u.tasks.eraseIdx i }

/-- `lkcp_input` of a datagram, which also moves the connection to its source. -/
def input (fromAddr str : Bytes) : Conn :=
  { u with fromAddr := fromAddr, kcp := (u.kcp.lkcpInput str fromAddr).2 }

/-- The business branch of `dispatch_msg` for a datagram, up to the first switch: the clock is read
for `lkcp_check`, and again for `lkcp_update` when the coroutine does not sleep. -/
def dispatch (fromAddr str : Bytes) (wall wall' : ℕ) : Conn × List Datagram :=
  let u := u.input fromAddr str
  let ms := getms wall
  let nexttime := u.kcp.lkcpCheck ms
  if nexttime - ms ≥ 0 then ({ u with ms := some nexttime, tasks := u.tasks ++ [.sleeping] }, [])
  else
    let r := u.serve wall'
    ({ r.1 with tasks := u.tasks ++ r.2.1.toList }, r.2.2)

/-- `skynet.sleep` of coroutine `i` returns. -/
def wake (i wall : ℕ) : Conn × List Datagram :=
  if u.ms = none then (u.resume i none, [])
  else
    let r := u.serve wall
    (r.1.resume i r.2.1, r.2.2)

/-- `self:request` of coroutine `i` returns. -/
def returned (i : ℕ) : Conn :=
  let r := u.receive
  r.1.resume i r.2

/-- `lkcp_send` to the address the connection has now. -/
def send (package : Bytes) : ℤ × Conn :=
  let r := u.kcp.lkcpSend package u.fromAddr
  (r.1, { u with
    kcp := r.2, accepted := if 0 ≤ r.1 then u.accepted ++ [package] else u.accepted })

/-- `lkcp_flush`. -/
def flush : Conn × List Datagram :=
  let r := u.kcp.lkcpFlush
  ({ u with kcp := r.1 }, r.2)

/-- `response_msg`, with the package made from the answer. -/
def responseMsg (package : Bytes) : Conn × List Datagram := (u.send package).2.flush

/-- `send_msg` on this entry. -/
def sendMsg (package : Bytes) : Conn × List Datagram :=
  let r := u.send package
  if r.1 < 0 then (r.2, []) else r.2.flush

end Conn

/-- What can happen to a connection: a datagram for it is dispatched, a coroutine goes on, the
keep-alive loop updates it, or a handler or another service sends through it. `died` is a request
that raised while the connection was in the table: `close` then calls the missing `u.sq`, and the
error ends the coroutine. -/
inductive ConnEvent
  | dispatch (fromAddr str : Bytes) (wall wall' : ℕ)
  | wake (i wall : ℕ)
  | returned (i : ℕ)
  | died (i : ℕ)
  | update (wall : ℕ)
  | send (package : Bytes)
  | flush
  | responseMsg (package : Bytes)
  | sendMsg (package : Bytes)

/-- A step of a connection and the datagrams it sends. -/
def Conn.step (u : Conn) : ConnEvent → Option (Conn × List Datagram)
  | .dispatch fromAddr str wall wall' => some (u.dispatch fromAddr str wall wall')
  | .wake i wall => if u.tasks[i]? = some .sleeping then some (u.wake i wall) else none
  | .returned i =>
    match u.tasks[i]? with
    | some (.handling _) => some (u.returned i, [])
    | _ => none
  | .died i =>
    match u.tasks[i]? with
    | some (.handling _) => some (u.resume i none, [])
    | _ => none
  | .update wall => some (u.update wall)
  | .send package => some ((u.send package).2, [])
  | .flush => some u.flush
  | .responseMsg package => some (u.responseMsg package)
  | .sendMsg package => some (u.sendMsg package)

/-! ## The steps of a waiting coroutine -/

namespace Conn

theorem wake_of_step {u t : Conn} {i wall : ℕ} {out : List Datagram}
    (h : u.step (.wake i wall) = some (t, out)) :
    u.tasks[i]? = some .sleeping ∧ u.wake i wall = (t, out) := by
  unfold step at h
  dsimp only at h
  split_ifs at h with htask
  exact ⟨htask, Option.some.inj h⟩

theorem returned_of_step {u t : Conn} {i : ℕ} {out : List Datagram}
    (h : u.step (.returned i) = some (t, out)) :
    ∃ msg, u.tasks[i]? = some (.handling msg) ∧ u.returned i = t ∧ out = [] := by
  unfold step at h
  dsimp only at h
  split at h
  · rename_i msg htask
    obtain ⟨rfl, rfl⟩ := Option.some.inj h
    exact ⟨msg, htask, rfl, rfl⟩
  · exact absurd h (by simp)

theorem died_of_step {u t : Conn} {i : ℕ} {out : List Datagram}
    (h : u.step (.died i) = some (t, out)) :
    ∃ msg, u.tasks[i]? = some (.handling msg) ∧ u.resume i none = t ∧ out = [] := by
  unfold step at h
  dsimp only at h
  split at h
  · rename_i msg htask
    obtain ⟨rfl, rfl⟩ := Option.some.inj h
    exact ⟨msg, htask, rfl, rfl⟩
  · exact absurd h (by simp)

/-! ## What the steps leave alone -/

variable (u : Conn)

@[simp] theorem tasks_receive : u.receive.1.tasks = u.tasks := by
  unfold receive
  dsimp only
  split_ifs <;> rfl

@[simp] theorem ms_receive : u.receive.1.ms = u.ms := by
  unfold receive
  dsimp only
  split_ifs <;> rfl

@[simp] theorem kcp_receive : u.receive.1.kcp = u.kcp.lkcpRecv.2 := by
  unfold receive
  dsimp only
  split_ifs <;> rfl

@[simp] theorem tasks_serve (wall : ℕ) : (u.serve wall).1.tasks = u.tasks := tasks_receive _

@[simp] theorem ms_serve (wall : ℕ) : (u.serve wall).1.ms = none := ms_receive _

@[simp] theorem ms_resume (i : ℕ) (task : Option Task) : (u.resume i task).ms = u.ms := rfl

@[simp] theorem kcp_resume (i : ℕ) (task : Option Task) : (u.resume i task).kcp = u.kcp := rfl

/-- What the record was made with, but for the address. -/
def made : ℕ × LuaNumber × ℕ := (u.subid, u.uid, u.born)

@[simp] theorem made_receive : u.receive.1.made = u.made := by
  unfold receive
  dsimp only
  split_ifs <;> rfl

@[simp] theorem made_serve (wall : ℕ) : (u.serve wall).1.made = u.made := made_receive _

/-- No step changes it. -/
theorem made_step {u t : Conn} {e : ConnEvent} {out : List Datagram}
    (h : u.step e = some (t, out)) : t.made = u.made := by
  have hdispatch (fromAddr str : Bytes) (wall wall' : ℕ) :
      (u.dispatch fromAddr str wall wall').1.made = u.made := by
    unfold dispatch
    dsimp only
    split_ifs
    · rfl
    · exact made_serve (u.input fromAddr str) wall'
  have hwake (i wall : ℕ) : (u.wake i wall).1.made = u.made := by
    unfold wake
    split_ifs
    · rfl
    · exact made_serve u wall
  have hsendMsg (package : Bytes) : (u.sendMsg package).1.made = u.made := by
    unfold sendMsg
    dsimp only
    split_ifs <;> rfl
  cases e with
  | dispatch fromAddr str wall wall' =>
    rw [← hdispatch fromAddr str wall wall', Option.some.inj h]
  | wake i wall => rw [← hwake i wall, (wake_of_step h).2]
  | returned i =>
    obtain ⟨msg, -, rfl, -⟩ := returned_of_step h
    exact made_receive u
  | died i =>
    obtain ⟨msg, -, rfl, -⟩ := died_of_step h
    rfl
  | sendMsg package => rw [← hsendMsg package, Option.some.inj h]
  | update | send | flush | responseMsg =>
    obtain ⟨rfl, rfl⟩ := Option.some.inj h
    rfl

end Conn

end LuaKcp
