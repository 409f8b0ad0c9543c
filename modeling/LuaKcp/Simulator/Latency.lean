import LuaKcp.Foundations.Arithmetic
import LuaKcp.Foundations.Machine

/-!
# The latency simulator

`latencysm.lua` stands for the network in the tests: `send` drops a packet by one draw of
`math.random(100)` and delays it by another one, `recv` returns the first packet for a peer when its
time has come. In every run it is a queue in each direction, which loses no packet that has not been
dropped and returns none before its time (`carries_of_reaches`). But the delays are those that the
parameters of the constructor stand for only when these are close together (`simulates_iff`), since
`new` takes `rttmax` from `rttmin`.

The halves that `new` keeps are results of `/`, so they are doubles, and so is what is computed from
them. Times are added and compared as Lua does it.
-/

namespace LuaKcp

/-- `DelayPacket`. -/
structure DelayPacket where
  data : Bytes
  ts : LuaFloat
  deriving DecidableEq

structure LatencySM where
  lostrate : LuaFloat
  rttmin : LuaFloat
  rttmax : LuaFloat
  tunnel01 : List DelayPacket
  tunnel10 : List DelayPacket
  deriving DecidableEq

/-- `x / 2`. -/
def LuaNum.half (x : LuaNum) : LuaFloat := x.toFloat.div (LuaNum.ofNat 2).toFloat

namespace LatencySM

/-- `LatencySM.new`; `none` is a parameter left out. -/
def new (lostrate rttmin _rttmax : Option LuaNum) : LatencySM :=
  let lostrate := lostrate.getD (.ofNat 10)
  let rttmin := rttmin.getD (.ofNat 60)
  -- `rttmin or 125`
  let rttmax := (some rttmin).getD (.ofNat 125)
  { lostrate := lostrate.half
    rttmin := rttmin.half
    rttmax := rttmax.half
    tunnel01 := []
    tunnel10 := [] }

/-- What `rand` returns in a call of `send`, but for its first result, which is not used. -/
structure Draws where
  loss : ℕ
  delay : ℕ

variable (self : LatencySM)

/-- Whether `send` drops a packet, by a draw. -/
def drops (rand : ℕ) : Bool := (LuaNum.ofNat rand).lt (.float self.lostrate)

/-- The delay of a packet, by a draw. -/
def delay (rand : ℕ) : LuaFloat :=
  if self.rttmin.lt self.rttmax then
    self.rttmin.add ((LuaNum.ofNat rand).toFloat.mod (self.rttmax.sub self.rttmin))
  else self.rttmin

/-- `LatencySM:send` at the time `nowt`. -/
def send (peer : ℕ) (data : Bytes) (rand : Draws) (nowt : ℕ) : LatencySM :=
  if self.drops rand.loss then self
  else
    let pkt : DelayPacket := ⟨data, (LuaNum.ofNat nowt).toFloat.add (self.delay rand.delay)⟩
    if peer = 0 then { self with tunnel01 := self.tunnel01 ++ [pkt] }
    else { self with tunnel10 := self.tunnel10 ++ [pkt] }

/-- What `recv` does with a tunnel: its results, and the tunnel left. -/
def take (nowt : ℕ) : List DelayPacket → (ℤ × Option Bytes) × List DelayPacket
  | [] => ((-1, none), [])
  | pkt :: tunnel =>
    if (LuaNum.ofNat nowt).lt (.float pkt.ts) then ((-2, none), pkt :: tunnel)
    else ((pkt.data.length, some pkt.data), tunnel)

/-- `LatencySM:recv` at the time `nowt`. -/
def recv (peer nowt : ℕ) : (ℤ × Option Bytes) × LatencySM :=
  if peer = 0 then
    let r := take nowt self.tunnel10
    (r.1, { self with tunnel10 := r.2 })
  else
    let r := take nowt self.tunnel01
    (r.1, { self with tunnel01 := r.2 })

/-! ## Runs -/

/-- A packet that `send` has not dropped: its data, when it was sent and with what delay. -/
structure Posted where
  data : Bytes
  nowt : ℕ
  delay : LuaFloat

/-- The time of sending plus the delay. -/
def Posted.due (p : Posted) : LuaFloat := (LuaNum.ofNat p.nowt).toFloat.add p.delay

/-- A packet that `recv` has returned: its length and its data, and when. -/
structure Returned where
  size : ℤ
  data : Bytes
  nowt : ℕ

/-- What has been sent and returned in one direction. -/
structure Way where
  posted : List Posted
  returned : List Returned

namespace Way

variable (w : Way)

def post (sm : LatencySM) (data : Bytes) (rand : Draws) (nowt : ℕ) : Way :=
  if sm.drops rand.loss then w
  else { w with posted := w.posted ++ [⟨data, nowt, sm.delay rand.delay⟩] }

def give (nowt : ℕ) (r : ℤ × Option Bytes) : Way :=
  { w with returned := w.returned ++ r.2.toList.map fun data => ⟨r.1, data, nowt⟩ }

end Way

end LatencySM

/-- The simulator in use: the clock at the last call, and what has been sent and returned from the
peer 0 to the other one and back. -/
structure Simulation where
  sm : LatencySM
  clock : ℕ
  way01 : LatencySM.Way
  way10 : LatencySM.Way

/-- The calls, with the clock and the draws. -/
inductive SimulationCall
  | send (peer : ℕ) (data : Bytes) (rand : LatencySM.Draws) (nowt : ℕ)
  | recv (peer nowt : ℕ)

namespace Simulation

variable (s : Simulation)

def send (peer : ℕ) (data : Bytes) (rand : LatencySM.Draws) (nowt : ℕ) : Simulation where
  sm := s.sm.send peer data rand nowt
  clock := nowt
  way01 := if peer = 0 then s.way01.post s.sm data rand nowt else s.way01
  way10 := if peer = 0 then s.way10 else s.way10.post s.sm data rand nowt

def recv (peer nowt : ℕ) : Simulation where
  sm := (s.sm.recv peer nowt).2
  clock := nowt
  way01 := if peer = 0 then s.way01 else s.way01.give nowt (s.sm.recv peer nowt).1
  way10 := if peer = 0 then s.way10.give nowt (s.sm.recv peer nowt).1 else s.way10

/-- A call, the clock not going back. -/
def call : SimulationCall → Option Simulation
  | .send peer data rand nowt => if s.clock ≤ nowt then some (s.send peer data rand nowt) else none
  | .recv peer nowt => if s.clock ≤ nowt then some (s.recv peer nowt) else none

end Simulation

/-- The runs of a simulator. -/
def simulationMachine (lostrate rttmin rttmax : Option LuaNum) :
    Machine Simulation SimulationCall where
  init := ⟨.new lostrate rttmin rttmax, 0, ⟨[], []⟩, ⟨[], []⟩⟩
  step := Simulation.call

/-! ## A queue in each direction -/

namespace LatencySM

/-- The tunnel from which `recv` takes what it returns to a peer. -/
def tunnelTo (self : LatencySM) (peer : ℕ) : List DelayPacket :=
  if peer = 0 then self.tunnel10 else self.tunnel01

theorem take_of_due {nowt : ℕ} {pkt : DelayPacket} (rest : List DelayPacket)
    (h : (LuaNum.ofNat nowt).lt (.float pkt.ts) = false) :
    take nowt (pkt :: rest) = (((pkt.data.length : ℤ), some pkt.data), rest) :=
  if_neg (Bool.eq_false_iff.mp h)

theorem take_cases (nowt : ℕ) (tunnel : List DelayPacket) :
    (∃ r, take nowt tunnel = ((r, none), tunnel)) ∨
      ∃ pkt rest, tunnel = pkt :: rest ∧ (LuaNum.ofNat nowt).lt (.float pkt.ts) = false ∧
        take nowt tunnel = (((pkt.data.length : ℤ), some pkt.data), rest) := by
  cases tunnel with
  | nil => exact Or.inl ⟨-1, rfl⟩
  | cons pkt rest =>
    cases hlt : (LuaNum.ofNat nowt).lt (.float pkt.ts) with
    | true => exact Or.inl ⟨-2, if_pos hlt⟩
    | false => exact Or.inr ⟨pkt, rest, rfl, hlt, take_of_due rest hlt⟩

/-- A packet sent has been returned: whole, and not before its time. -/
structure Posted.Reaches (p : Posted) (r : Returned) : Prop where
  data : r.data = p.data
  size : r.size = p.data.length
  due : (LuaNum.ofNat r.nowt).lt (.float p.due) = false

/-- In one direction, the packets returned are the first ones of those sent, each once and in their
order, and the others are in the tunnel. -/
structure Way.Carries (w : Way) (tunnel : List DelayPacket) : Prop where
  returned : List.Forall₂ Posted.Reaches (w.posted.take w.returned.length) w.returned
  pending : tunnel = (w.posted.drop w.returned.length).map fun p => ⟨p.data, p.due⟩

namespace Way.Carries

variable {w : Way} {tunnel : List DelayPacket}

theorem start : (⟨[], []⟩ : Way).Carries [] := ⟨.nil, rfl⟩

theorem le (h : w.Carries tunnel) : w.returned.length ≤ w.posted.length := by
  have hlen := h.returned.length_eq
  rw [List.length_take] at hlen
  omega

/-- **A packet sent** comes last. -/
theorem post (h : w.Carries tunnel) (p : Posted) :
    ({ w with posted := w.posted ++ [p] } : Way).Carries (tunnel ++ [⟨p.data, p.due⟩]) := by
  refine ⟨?_, ?_⟩
  · rw [List.take_append_of_le_length h.le]
    exact h.returned
  · rw [List.drop_append_of_le_length h.le, List.map_append, ← h.pending]
    rfl

/-- **What `recv` returns** is the first packet of the tunnel, and it is due. -/
theorem give (h : w.Carries tunnel) (nowt : ℕ) :
    (w.give nowt (take nowt tunnel).1).Carries (take nowt tunnel).2 := by
  rcases take_cases nowt tunnel with ⟨r, htake⟩ | ⟨pkt, rest, htunnel, hdue, htake⟩
  · rw [htake]
    change ({ w with returned := w.returned ++ [] } : Way).Carries tunnel
    rw [List.append_nil]
    exact h
  · obtain ⟨p, ps, hdrop, hp, hrest⟩ := List.map_eq_cons_iff.mp (h.pending.symm.trans htunnel)
    have hreaches : p.Reaches ⟨pkt.data.length, pkt.data, nowt⟩ := by
      rw [← hp] at hdue ⊢
      exact ⟨rfl, rfl, hdue⟩
    have hnext : w.posted[w.returned.length]? = some p := by
      rw [← List.head?_drop, hdrop]
      rfl
    rw [htake]
    refine ⟨?_, ?_⟩
    · change List.Forall₂ _ (w.posted.take (w.returned ++ [_]).length) (w.returned ++ [_])
      rw [List.length_append, List.length_singleton, List.take_add_one, hnext]
      exact List.rel_append h.returned (.cons hreaches .nil)
    · change rest = (w.posted.drop (w.returned ++ [_]).length).map _
      rw [List.length_append, List.length_singleton, ← List.tail_drop, hdrop]
      exact hrest.symm

end Way.Carries

end LatencySM

namespace Simulation

open LatencySM

variable {s t : Simulation}

/-- What has been sent and returned to a peer: the other one has sent it. -/
def wayTo (s : Simulation) (peer : ℕ) : Way := if peer = 0 then s.way10 else s.way01

/-- The tunnels carry what is sent, and the parameters are those of the constructor. -/
structure Inv (sm : LatencySM) (s : Simulation) : Prop where
  to1 : s.way01.Carries s.sm.tunnel01
  to0 : s.way10.Carries s.sm.tunnel10
  rttmin : s.sm.rttmin = sm.rttmin
  rttmax : s.sm.rttmax = sm.rttmax

namespace Inv

variable {sm : LatencySM}

theorem carries (h : s.Inv sm) (peer : ℕ) : (s.wayTo peer).Carries (s.sm.tunnelTo peer) := by
  unfold wayTo tunnelTo
  split_ifs
  · exact h.to0
  · exact h.to1

theorem delay_eq (h : s.Inv sm) (rand : ℕ) : s.sm.delay rand = sm.delay rand := by
  unfold LatencySM.delay
  rw [h.rttmin, h.rttmax]

theorem send (h : s.Inv sm) (peer : ℕ) (data : Bytes) (rand : Draws) (nowt : ℕ) :
    (s.send peer data rand nowt).Inv sm := by
  unfold Simulation.send LatencySM.send Way.post
  by_cases hdrop : s.sm.drops rand.loss = true
  · simp only [hdrop, if_true, ite_self]
    exact ⟨h.to1, h.to0, h.rttmin, h.rttmax⟩
  · by_cases hpeer : peer = 0
    · simp only [hdrop, hpeer, if_true]
      exact ⟨h.to1.post _, h.to0, h.rttmin, h.rttmax⟩
    · simp only [hdrop, hpeer, if_false]
      exact ⟨h.to1, h.to0.post _, h.rttmin, h.rttmax⟩

theorem recv (h : s.Inv sm) (peer nowt : ℕ) : (s.recv peer nowt).Inv sm := by
  unfold Simulation.recv LatencySM.recv
  by_cases hpeer : peer = 0
  · simp only [hpeer, if_true]
    exact ⟨h.to1, h.to0.give nowt, h.rttmin, h.rttmax⟩
  · simp only [hpeer, if_false]
    exact ⟨h.to1.give nowt, h.to0, h.rttmin, h.rttmax⟩

/-- Every call keeps the invariant. -/
theorem call (h : s.Inv sm) {e : SimulationCall} (hstep : s.call e = some t) : t.Inv sm := by
  unfold Simulation.call at hstep
  cases e with
  | send peer data rand nowt =>
    dsimp only at hstep
    split_ifs at hstep
    obtain rfl := Option.some.inj hstep
    exact h.send peer data rand nowt
  | recv peer nowt =>
    dsimp only at hstep
    split_ifs at hstep
    obtain rfl := Option.some.inj hstep
    exact h.recv peer nowt

end Inv

theorem wayTo_recv (s : Simulation) (peer nowt : ℕ) : (s.recv peer nowt).wayTo peer =
    (s.wayTo peer).give nowt (take nowt (s.sm.tunnelTo peer)).1 := by
  unfold wayTo recv LatencySM.recv tunnelTo
  by_cases hpeer : peer = 0
  · simp only [hpeer, if_true]
  · simp only [hpeer, if_false]

theorem tunnelTo_recv (s : Simulation) (peer nowt : ℕ) : (s.recv peer nowt).sm.tunnelTo peer =
    (take nowt (s.sm.tunnelTo peer)).2 := by
  unfold recv LatencySM.recv tunnelTo
  by_cases hpeer : peer = 0
  · simp only [hpeer, if_true]
  · simp only [hpeer, if_false]

/-- The calls of `recv` by a peer at a time. -/
def Asks (peer nowt : ℕ) (_ : Simulation) (e : SimulationCall) : Prop := e = .recv peer nowt

/-- **Nothing is lost**: the packets in a tunnel have all been returned after as many calls of
`recv`, once they are due. -/
theorem drained {lostrate rttmin rttmax : Option LuaNum} {peer nowt : ℕ}
    (h : (s.wayTo peer).Carries (s.sm.tunnelTo peer)) (hclock : s.clock ≤ nowt)
    (hdue : ∀ p ∈ (s.wayTo peer).posted.drop (s.wayTo peer).returned.length,
      (LuaNum.ofNat nowt).lt (.float p.due) = false) :
    ∃ t, (simulationMachine lostrate rttmin rttmax).Path (Asks peer nowt) s t ∧
      List.Forall₂ Posted.Reaches (s.wayTo peer).posted (t.wayTo peer).returned := by
  induction hn : (s.wayTo peer).posted.length - (s.wayTo peer).returned.length
    generalizing s with
  | zero =>
    refine ⟨s, .refl s, ?_⟩
    have hreturned := h.returned
    rwa [List.take_of_length_le (by omega)] at hreturned
  | succ n ih =>
    obtain ⟨p, ps, hdrop⟩ := List.exists_cons_of_length_pos
      (l := (s.wayTo peer).posted.drop (s.wayTo peer).returned.length)
      (by rw [List.length_drop]; omega)
    have htake : take nowt (s.sm.tunnelTo peer) = (((p.data.length : ℤ), some p.data),
        ps.map fun p => ⟨p.data, p.due⟩) := by
      rw [h.pending, hdrop]
      exact take_of_due _ (hdue p (hdrop ▸ List.mem_cons_self))
    have hway : (s.recv peer nowt).wayTo peer = ⟨(s.wayTo peer).posted,
        (s.wayTo peer).returned ++ [⟨p.data.length, p.data, nowt⟩]⟩ := by
      rw [wayTo_recv, htake]
      rfl
    have hcarries := h.give nowt
    rw [← wayTo_recv, ← tunnelTo_recv] at hcarries
    have hlen : ((s.recv peer nowt).wayTo peer).returned.length =
        (s.wayTo peer).returned.length + 1 := by
      rw [hway]
      exact List.length_append
    have hposted : ((s.recv peer nowt).wayTo peer).posted = (s.wayTo peer).posted := by
      rw [hway]
    have hdue' : ∀ q ∈ ((s.recv peer nowt).wayTo peer).posted.drop
        ((s.recv peer nowt).wayTo peer).returned.length,
        (LuaNum.ofNat nowt).lt (.float q.due) = false := by
      intro q hq
      rw [hposted, hlen, ← List.tail_drop] at hq
      exact hdue q (List.mem_of_mem_tail hq)
    obtain ⟨t, hpath, hall⟩ := ih hcarries le_rfl hdue' (by rw [hposted, hlen]; omega)
    have hfirst : (simulationMachine lostrate rttmin rttmax).Path (Asks peer nowt) s
        (s.recv peer nowt) := .single (e := .recv peer nowt) rfl (if_pos hclock)
    exact ⟨t, hfirst.trans hpath, hposted ▸ hall⟩

end Simulation

/-- **The simulator is a queue in each direction**, in every run. -/
theorem carries_of_reaches {lostrate rttmin rttmax : Option LuaNum} {s : Simulation}
    (h : (simulationMachine lostrate rttmin rttmax).Reaches Machine.anyStep s) :
    s.Inv (.new lostrate rttmin rttmax) :=
  h.invariant (I := Simulation.Inv (.new lostrate rttmin rttmax))
    ⟨.start, .start, rfl, rfl⟩ fun _ _ _ hs _ hstep => hs.call hstep

/-! ## The delays -/

namespace LatencySM

/-- **The delay never varies**: both halves come from `rttmin`. -/
theorem delay_new (lostrate : Option LuaNum) (rttmin : LuaNum) (rttmax : Option LuaNum)
    (rand : ℕ) : (new lostrate (some rttmin) rttmax).delay rand = rttmin.half :=
  if_neg (Bool.eq_false_iff.mp (LuaFloat.lt_self rttmin.half))

/-- What the simulator is for: a queue in each direction that returns each packet it has not
dropped once, in order, and not before its time; delays in the range of the parameters, and not
the same one for all draws when this range is wide enough. -/
structure Simulates (lostrate : Option LuaNum) (rttmin rttmax : LuaNum) : Prop where
  carried : ∀ s, (simulationMachine lostrate rttmin rttmax).Reaches Machine.anyStep s →
    ∀ peer, (s.wayTo peer).Carries (s.sm.tunnelTo peer)
  drained : ∀ s, (simulationMachine lostrate rttmin rttmax).Reaches Machine.anyStep s →
    ∀ peer nowt, s.clock ≤ nowt →
      (∀ p ∈ (s.wayTo peer).posted.drop (s.wayTo peer).returned.length,
        (LuaNum.ofNat nowt).lt (.float p.due) = false) →
      ∃ t, (simulationMachine lostrate rttmin rttmax).Path (Simulation.Asks peer nowt) s t ∧
        List.Forall₂ Posted.Reaches (s.wayTo peer).posted (t.wayTo peer).returned
  range : ∀ s, (simulationMachine lostrate rttmin rttmax).Reaches Machine.anyStep s →
    ∀ rand, 1 ≤ rand → rand ≤ 100 →
      rttmin.half.le (s.sm.delay rand) = true ∧ (s.sm.delay rand).lt rttmax.half = true
  varies : (LuaNum.ofNat 2).lt (rttmax.sub rttmin) = true →
    ∀ s, (simulationMachine lostrate rttmin rttmax).Reaches Machine.anyStep s →
      ∃ rand rand', (1 ≤ rand ∧ rand ≤ 100) ∧ (1 ≤ rand' ∧ rand' ≤ 100) ∧
        s.sm.delay rand ≠ s.sm.delay rand'

end LatencySM

/-- A number below another one is not NaN, nor is its half. -/
theorem LuaNum.half_ne_none {x y : LuaNum} (h : x.lt y = true) : x.half ≠ none := by
  have htwo : (LuaNum.ofNat 2).toFloat = some (.fin 2) := by decide +kernel
  have hdiv (a : LuaNumber) : LuaFloat.div (some a) (some (.fin 2)) ≠ none := by
    cases a with
    | fin q =>
      unfold LuaFloat.div
      dsimp only
      rw [if_neg two_ne_zero]
      exact Option.some_ne_none _
    | inf neg => exact Option.some_ne_none _
  unfold LuaNum.half
  rw [htwo]
  cases x with
  | integer n => exact hdiv _
  | float x =>
    cases x with
    | none => exact absurd h Bool.false_ne_true
    | some a => exact hdiv a

/-- **The simulator** does what it is for exactly when the halves of the parameters are different
doubles and the parameters differ by at most 2. -/
theorem simulates_iff (lostrate : Option LuaNum) {rttmin rttmax : LuaNum}
    (h : rttmin.lt rttmax = true) : LatencySM.Simulates lostrate rttmin rttmax ↔
      rttmin.half.lt rttmax.half = true ∧
        (LuaNum.ofNat 2).lt (rttmax.sub rttmin) = false := by
  have hdelay {s : Simulation} (hs : (simulationMachine lostrate rttmin rttmax).Reaches
      Machine.anyStep s) (rand : ℕ) : s.sm.delay rand = rttmin.half := by
    rw [(carries_of_reaches hs).delay_eq, LatencySM.delay_new]
  have hinit : (simulationMachine lostrate rttmin rttmax).Reaches Machine.anyStep
      (simulationMachine lostrate rttmin rttmax).init := .refl _
  constructor
  · intro hsim
    refine ⟨?_, ?_⟩
    · have hrange := (hsim.range _ hinit 1 le_rfl (by norm_num)).2
      rwa [hdelay hinit] at hrange
    · refine Bool.eq_false_iff.mpr fun hwide => ?_
      obtain ⟨rand, rand', -, -, hne⟩ := hsim.varies hwide _ hinit
      rw [hdelay hinit, hdelay hinit] at hne
      exact hne rfl
  · rintro ⟨hhalf, hnarrow⟩
    refine ⟨fun s hs peer => (carries_of_reaches hs).carries peer,
      fun s hs peer nowt => Simulation.drained ((carries_of_reaches hs).carries peer),
      fun s hs rand _ _ => ?_, fun hwide => ?_⟩
    · rw [hdelay hs]
      exact ⟨LuaFloat.le_self (LuaNum.half_ne_none h), hhalf⟩
    · rw [hnarrow] at hwide
      exact absurd hwide Bool.false_ne_true

/-- Half a round trip of 60 or 61 milliseconds is 30: the delay that is always taken. -/
theorem simulates_iff_narrow : LatencySM.Simulates (some (.ofNat 10)) (.ofNat 60) (.ofNat 62) :=
  (simulates_iff _ (by decide +kernel)).mpr (by decide +kernel)

/-- The simulator of `testkcp.lua`: every delay is 30. -/
theorem not_simulates_testkcp : (LuaNum.ofNat 60).lt (.ofNat 125) = true ∧
    ¬ LatencySM.Simulates (some (.ofNat 10)) (.ofNat 60) (.ofNat 125) := by
  refine ⟨by decide +kernel, fun hsim => ?_⟩
  obtain ⟨rand, rand', -, -, hne⟩ := hsim.varies (by decide +kernel) _ (.refl _)
  have hdelay := LatencySM.delay_new (some (.ofNat 10)) (.ofNat 60) (some (.ofNat 125))
  exact hne ((hdelay rand).trans (hdelay rand').symm)

end LuaKcp
