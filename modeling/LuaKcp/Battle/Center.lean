import LuaKcp.Foundations.Arithmetic
import LuaKcp.Foundations.Machine
import LuaKcp.Foundations.Table

/-!
# The centre of the frame synchronisation

The tables of `frameCenter`, the cancel timers of its scheduler and the coroutines that
`joinBattle` forks. A coroutine of `startBattle` switches at `skynet.sleep` only, once in each pass
of its loop; every other call runs to its end. The scheduler calls an armed timer back at some
time, once, and not after it was stopped; `schedule` and `stop` do not switch.
-/

namespace LuaKcp

/-- `t[v]`. -/
def LuaTable.index {υ : Type*} (t : LuaTable LuaKey υ) : LuaValue → Option υ
  | .key k => t.get k
  | _ => none

/-- The table `{u1, u2, ...}`, from index `i` on. -/
def listFrom : ℕ → List LuaKey → LuaTable LuaKey LuaKey
  | _, [] => ∅
  | i, u :: us => (listFrom (i + 1) us).set (.index i) (some u)

/-- The table `{u1, u2, ...}`. -/
def listTable (us : List LuaKey) : LuaTable LuaKey LuaKey := listFrom 1 us

/-- An entry of `info`. The commands of a frame are in the entry itself, under the frame's
number. -/
structure PlayerInfo (κ : Type*) where
  isExit : Bool
  cmds : LuaTable (BitVec 64) (List κ)
  deriving DecidableEq

/-- An entry of `self.battleRef`. -/
structure Battle (κ : Type*) where
  uids : LuaTable LuaKey LuaKey
  curFrame : BitVec 64
  frameRate : LuaNum
  maxTime : LuaNum
  maxFrame : LuaNum
  info : LuaTable LuaKey (PlayerInfo κ)
  isEnd : Bool

/-- A timer of `self.myTimer`: the data of its callback, and whether it is still to come. -/
structure Timer where
  battleId : LuaKey
  timerType : Option ℕ
  armed : Bool
  deriving DecidableEq

/-- Where a coroutine of `startBattle` stands. -/
inductive Stage
  | forked
  | refused
  | sleeping
  | ended
  deriving DecidableEq

/-- A forked coroutine of `startBattle`, with its local `tick` and how many passes of its loop it
has completed. -/
structure Starter where
  battleId : LuaKey
  stage : Stage
  tick : LuaNum
  rounds : ℕ
  deriving DecidableEq

/-- A command that `commitFrameCmd` has filed. -/
structure Filed (κ : Type*) where
  battleId : LuaKey
  frame : BitVec 64
  uid : LuaKey
  cmd : κ
  deriving DecidableEq

/-- An entry of `sendMsg`, with the battle and the frame it was packed for. -/
structure Packed (κ : Type*) where
  battleId : LuaKey
  frame : BitVec 64
  uid : LuaKey
  cmds : List κ
  deriving DecidableEq

/-- A `frameCenter`, its scheduler and its coroutines; the last two fields record the commands
filed and what the loops have packed. -/
structure Center (κ : Type*) where
  timerRef : LuaTable LuaKey ℕ
  battleRef : LuaTable LuaKey (Battle κ)
  timers : List Timer
  starters : List Starter
  filed : List (Filed κ)
  packed : List (Packed κ)

/-- How a call ends: with its first result, with `false` and `gErrDef.Err_ILLEGAL_PARAMS`, or with
an error. -/
inductive Answer
  | returned (ok : Bool)
  | illegalParams
  | raised
  deriving DecidableEq

/-- The fields of `eBattleStatus`. -/
def eBattleStatus (field : String) : Option ℕ :=
  [("ePrepare", 1), ("eLoad", 2), ("eStart", 3), ("eSettle", 4)].lookup field

/-- `math.floor(100/frameRate)`. -/
def tickOf (frameRate : LuaNum) : LuaNum := ((LuaNum.ofNat 100).div frameRate).floor

/-- `math.ceil(maxTime*1000/math.floor(100/frameRate))`. -/
def maxFrameOf (frameRate maxTime : LuaNum) : LuaNum :=
  ((maxTime.mul (.ofNat 1000)).div (tickOf frameRate)).ceil

/-- `skynet.sleep` takes an integer; a number without an integer representation raises. -/
def canSleep : LuaNum → Bool
  | .integer _ => true
  | .float _ => false

namespace Center

variable {κ : Type*}

/-- `frameCenter:ctor`. -/
def ctor : Center κ where
  timerRef := ∅
  battleRef := ∅
  timers := []
  starters := []
  filed := []
  packed := []

variable (s : Center κ)

/-- A battle is changed. -/
def setBattle (battleId : LuaKey) (b : Battle κ) : Center κ :=
  { s with battleRef := s.battleRef.set battleId (some b) }

/-! ## Creating and cancelling -/

/-- The check of the parameters of `createBattle`. -/
def legalParams (battleId : LuaValue) (uids : Option (LuaTable LuaKey LuaKey))
    (frameRate maxTime : Option LuaNum) : Option (LuaTable LuaKey LuaKey × LuaNum × LuaNum) :=
  match uids, frameRate, maxTime with
  | some uids, some frameRate, some maxTime =>
    if !battleId.truthy || decide (uids.size = 0) || frameRate.le (.ofNat 0) ||
        LuaNum.le (.ofNat 100) frameRate || maxTime.le (.ofNat 0) then none
    else some (uids, frameRate, maxTime)
  | _, _, _ => none

/-- A new entry of `self.battleRef`. -/
def newBattle (uids : LuaTable LuaKey LuaKey) (frameRate maxTime : LuaNum) : Battle κ where
  uids := uids
  curFrame := 0
  frameRate := frameRate
  maxTime := maxTime
  maxFrame := maxFrameOf frameRate maxTime
  info := ∅
  isEnd := false

/-- `frameCenter:createBattle`. A new entry under NaN raises. -/
def createBattle (battleId : LuaValue) (uids : Option (LuaTable LuaKey LuaKey))
    (frameRate maxTime : Option LuaNum) : Center κ × Answer :=
  match legalParams battleId uids frameRate maxTime with
  | none => (s, .illegalParams)
  | some (uids, frameRate, maxTime) =>
    match battleId with
    | .key battleId =>
      if s.battleRef.get battleId ≠ none then (s, .returned false)
      else
        let s := s.setBattle battleId (newBattle uids frameRate maxTime)
        ({ s with
          timers := s.timers ++ [⟨battleId, eBattleStatus "eCancelBattle", true⟩]
          timerRef := s.timerRef.set battleId (some s.timers.length) }, .returned true)
    | _ => (s, .raised)

/-- `myTimer:stop`. -/
def stopTimer (t : ℕ) : Center κ :=
  { s with timers := s.timers.modify t fun timer => { timer with armed := false } }

/-- `frameCenter:cancelBattle`. The entry is looked up again only when there is none, and indexing
it raises. -/
def cancelBattle (battleId : LuaValue) : Center κ × Answer :=
  if s.battleRef.index battleId ≠ none then (s, .returned false) else (s, .raised)

/-- `frameCenter:onCancelBattleCallback`. -/
def onCancelBattleCallback (battleId : LuaKey) (timerType : Option ℕ) : Center κ × Answer :=
  match timerType with
  | none => (s, .returned true)
  | some _ =>
    if s.timerRef.get battleId = none then (s, .returned true)
    else
      let s := { s with timerRef := s.timerRef.set battleId none }
      if timerType = eBattleStatus "eCancelBattle" then s.cancelBattle (.key battleId)
      else (s, .returned true)

/-- The scheduler calls timer `t` back. -/
def callBack (t : ℕ) : Option (Center κ × Answer) :=
  (s.timers[t]?).bind fun timer =>
    if timer.armed then
      some ((s.stopTimer t).onCancelBattleCallback timer.battleId timer.timerType)
    else none

/-! ## Players -/

/-- The entry of a player who has just joined. -/
def newInfo : PlayerInfo κ := ⟨false, ∅⟩

/-- `frameCenter:joinBattle`; `table.nums` counts the entries of a table. -/
def joinBattle (battleId uid : LuaValue) : Center κ × Answer :=
  match battleId, uid with
  | .key battleId, .key uid =>
    match s.battleRef.get battleId with
    | none => (s, .returned false)
    | some b =>
      if (b.uids.get uid).any LuaKey.truthy then
        let b := { b with info := b.info.set uid (some newInfo) }
        let s := s.setBattle battleId b
        let s := if b.uids.size ≤ b.info.size then
            { s with starters := s.starters ++ [⟨battleId, .forked, .ofNat 0, 0⟩] }
          else s
        (s, .returned true)
      else (s, .returned false)
  | _, _ => (s, .returned false)

/-- `frameCenter:leaveBattle`. For a player of the battle the third test indexes
`self.bAttleframerEF`, a field that nothing sets, and raises. -/
def leaveBattle (battleId uid : LuaValue) : Center κ × Answer :=
  match (s.battleRef.index battleId).bind fun b => b.info.index uid with
  | none => (s, .returned false)
  | some _ => (s, .raised)

/-- `frameCenter:commitFrameCmd`. -/
def commitFrameCmd (battleId uid : LuaValue) (frame : Option LuaNum) (cmd : κ) :
    Center κ × Answer :=
  match battleId, uid with
  | .key battleId, .key uid =>
    match s.battleRef.get battleId with
    | none => (s, .returned false)
    | some b =>
      match b.info.get uid with
      | none => (s, .returned false)
      | some v =>
        match frame with
        | none => (s, .raised)
        | some frame =>
          if LuaNum.lt (.ofNat 60) (LuaNum.sub (.integer b.curFrame) frame) then
            (s, .returned false)
          else
            let cmds := (v.cmds.get b.curFrame).getD [] ++ [cmd]
            let v := { v with cmds := v.cmds.set b.curFrame (some cmds) }
            let s := s.setBattle battleId { b with info := b.info.set uid (some v) }
            ({ s with filed := s.filed ++ [⟨battleId, b.curFrame, uid, cmd⟩] }, .returned true)
  | _, _ => (s, .returned false)

/-! ## The loop of a battle -/

/-- The commands of all players for a frame. -/
def sendMsg (battleId : LuaKey) (b : Battle κ) : List (Packed κ) :=
  b.info.entries.filterMap fun e =>
    (e.2.cmds.get b.curFrame).map fun cmds => ⟨battleId, b.curFrame, e.1, cmds⟩

/-- A pass of the loop of `startBattle`, up to its sleep: the state, where the coroutine stands
then and whether the pass was completed. -/
def pass (battleId : LuaKey) (tick : LuaNum) : Center κ × Stage × Bool :=
  match s.battleRef.get battleId with
  | none => (s, .ended, false)
  | some b =>
    if LuaNum.le b.maxFrame (.integer b.curFrame) then (s, .ended, false)
    else if b.isEnd then (s, .ended, false)
    else
      let s := { s with packed := s.packed ++ sendMsg battleId b }
      let s := s.setBattle battleId { b with curFrame := b.curFrame + 1 }
      (s, if canSleep tick then .sleeping else .ended, true)

/-- The coroutine `i` makes a pass of its loop. -/
def runPass (i : ℕ) (c : Starter) : Center κ :=
  let r := s.pass c.battleId c.tick
  let rounds := if r.2.2 then c.rounds + 1 else c.rounds
  { r.1 with starters := r.1.starters.set i { c with stage := r.2.1, rounds := rounds } }

/-- The coroutine `i` starts: the checks of `startBattle`, and the first pass. -/
def startBattle (i : ℕ) : Option (Center κ × Answer) :=
  (s.starters[i]?).bind fun c =>
    if c.stage = .forked then
      let refused := { s with starters := s.starters.set i { c with stage := .refused } }
      match s.battleRef.get c.battleId, s.timerRef.get c.battleId with
      | some b, some t =>
        let s := s.stopTimer t
        let s := { s with timerRef := s.timerRef.set c.battleId none }
        some (s.runPass i { c with tick := tickOf b.frameRate }, .returned true)
      | _, _ => some (refused, .returned false)
    else none

/-- The sleep of coroutine `i` is over. -/
def wake (i : ℕ) : Option (Center κ × Answer) :=
  (s.starters[i]?).bind fun c =>
    if c.stage = .sleeping then some (s.runPass i c, .returned true) else none

end Center

/-- What can happen at the centre. -/
inductive CenterEvent (κ : Type*)
  | createBattle (battleId : LuaValue) (uids : Option (LuaTable LuaKey LuaKey))
      (frameRate maxTime : Option LuaNum)
  | callBack (t : ℕ)
  | cancelBattle (battleId : LuaValue)
  | joinBattle (battleId uid : LuaValue)
  | leaveBattle (battleId uid : LuaValue)
  | commitFrameCmd (battleId uid : LuaValue) (frame : Option LuaNum) (cmd : κ)
  | startBattle (i : ℕ)
  | wake (i : ℕ)

/-- A step of the centre, and how the call ends. -/
def Center.step {κ : Type*} (s : Center κ) : CenterEvent κ → Option (Center κ × Answer)
  | .createBattle battleId uids frameRate maxTime =>
    some (s.createBattle battleId uids frameRate maxTime)
  | .callBack t => s.callBack t
  | .cancelBattle battleId => some (s.cancelBattle battleId)
  | .joinBattle battleId uid => some (s.joinBattle battleId uid)
  | .leaveBattle battleId uid => some (s.leaveBattle battleId uid)
  | .commitFrameCmd battleId uid frame cmd => some (s.commitFrameCmd battleId uid frame cmd)
  | .startBattle i => s.startBattle i
  | .wake i => s.wake i

/-- The runs of a centre. -/
def centerMachine (κ : Type*) : Machine (Center κ) (CenterEvent κ) where
  init := .ctor
  step s e := (s.step e).map Prod.fst

end LuaKcp
