import LuaKcp.Ikcp.Timing
import LuaKcp.Session.Duplex
import LuaKcp.Session.Retransmission

/-!
# Scheduling by `lkcp_check`

The callers of `lkcp_check` sleep until the time it returns and then call `lkcp_update`. It computes
this time in 32 bits and returns it as an `int32_t`, while the clock has 31: the time is right
unless it lies past the end of the clock (`scheduled_iff`).
-/

namespace LuaKcp

open Ikcp

/-! ## What `ikcp_check` returns -/

namespace Ikcp.Ikcpcb

variable {kcp : Ikcpcb}

/-- When a flush is due, so is the present. -/
theorem check_of_flushesAt {current : U32} (h : kcp.flushesAt current) :
    kcp.check current = current := by
  unfold check
  by_cases hu : kcp.updated = 0
  · rw [if_pos hu]
  · have hself : itimediff current current = 0 := by
      rw [itimediff, serialDiff, BitVec.sub_self]
      rfl
    have hslap := not_and_or.mp (h.resolve_left hu)
    dsimp only
    rw [if_neg hu]
    by_cases hreset : itimediff current kcp.tsFlush ≥ 10000 ∨
        itimediff current kcp.tsFlush < -10000
    · rw [if_pos hreset, if_pos (by omega)]
    · rw [if_neg hreset, if_pos (by omega)]

/-- A wait no longer than the interval, as the code adds it. -/
theorem add_wait_eq (current interval : U32) {tm : ℤ} (hnonneg : 0 ≤ tm) (hlt : tm < 2 ^ 32) :
    current + (if BitVec.ofInt 32 tm ≥ interval then interval else BitVec.ofInt 32 tm) =
      current + BitVec.ofNat 32 (min tm.toNat interval.toNat) := by
  have hnat : (BitVec.ofInt 32 tm).toNat = tm.toNat := by
    rw [BitVec.toNat_ofInt]
    omega
  congr 1
  split_ifs with hge
  · rw [ge_iff_le, BitVec.le_def, hnat] at hge
    rw [min_eq_right hge, BitVec.ofNat_toNat, BitVec.setWidth_eq]
  · rw [ge_iff_le, BitVec.le_def, hnat] at hge
    rw [min_eq_left (by omega), ← hnat, BitVec.ofNat_toNat, BitVec.setWidth_eq]

/-- When no flush is due: a segment is, or there is a time `tm` to the flush or to a segment,
whichever comes first. -/
theorem check_of_not_flushesAt {current : U32} (h : ¬ kcp.flushesAt current) :
    (kcp.check current = current ∧ ∃ seg ∈ kcp.sndBuf, itimediff seg.resendts current ≤ 0) ∨
      ∃ tm : ℤ, kcp.check current =
          current + BitVec.ofNat 32 (min tm.toNat kcp.interval.toNat) ∧
        0 ≤ tm ∧ tm ≤ itimediff kcp.tsFlush current ∧
        (∀ seg ∈ kcp.sndBuf, tm ≤ itimediff seg.resendts current) ∧
        (tm = itimediff kcp.tsFlush current ∨
          ∃ seg ∈ kcp.sndBuf, tm = itimediff seg.resendts current) := by
  obtain ⟨hu, hslap⟩ := not_or.mp h
  obtain ⟨hlow, hneg⟩ := not_not.mp hslap
  have htm : itimediff kcp.tsFlush current = -itimediff current kcp.tsFlush :=
    serialDiff_comm (by unfold itimediff at *; omega)
  have hreset : ¬ (itimediff current kcp.tsFlush ≥ 10000 ∨
      itimediff current kcp.tsFlush < -10000) := by omega
  unfold check
  dsimp only
  rw [if_neg hu, if_neg hreset, if_neg (by omega)]
  rcases checkLoop_cases current kcp.sndBuf 0x7fffffff with
    ⟨hnone, hdue⟩ | ⟨tmPacket, hsome, hle, hall, heq⟩
  · rw [hnone]
    exact Or.inl ⟨rfl, hdue⟩
  · rw [hsome]
    dsimp only
    set tm : ℤ := if tmPacket < itimediff kcp.tsFlush current then tmPacket
      else itimediff kcp.tsFlush current with htmEq
    have hbounds : 0 ≤ tm ∧ tm ≤ tmPacket ∧ tm ≤ itimediff kcp.tsFlush current ∧
        (tm = itimediff kcp.tsFlush current ∨ ∃ seg ∈ kcp.sndBuf,
          tm = itimediff seg.resendts current) := by
      rcases heq with heq | ⟨seg, hseg, heq⟩
      · rw [htmEq, if_neg (by omega)]
        exact ⟨by omega, by omega, le_rfl, Or.inl rfl⟩
      · have hdiff := (hall seg hseg).1
        rw [htmEq]
        split_ifs with hlt
        · exact ⟨by omega, le_rfl, by omega, Or.inr ⟨seg, hseg, heq⟩⟩
        · exact ⟨by omega, by omega, le_rfl, Or.inl rfl⟩
    obtain ⟨hnonneg, hpacket, hflush, hends⟩ := hbounds
    refine Or.inr ⟨tm, add_wait_eq current kcp.interval hnonneg (by omega), hnonneg, hflush,
      fun seg hseg => ?_, hends⟩
    have := (hall seg hseg).2
    omega

/-- **What `ikcp_check` returns**: the present, when the flush or a segment is due; else the time
after a wait that ends at the interval, the flush or a segment, whichever comes first. -/
theorem check_cases (current : U32) :
    (kcp.check current = current ∧
        (kcp.flushesAt current ∨ ∃ seg ∈ kcp.sndBuf, itimediff seg.resendts current ≤ 0)) ∨
      ∃ wait : ℕ, kcp.check current = current + BitVec.ofNat 32 wait ∧
        ¬ kcp.flushesAt current ∧ wait ≤ kcp.interval.toNat ∧
        wait ≤ itimediff kcp.tsFlush current ∧
        (∀ seg ∈ kcp.sndBuf, wait ≤ itimediff seg.resendts current) ∧
        (wait = kcp.interval.toNat ∨ wait = itimediff kcp.tsFlush current ∨
          ∃ seg ∈ kcp.sndBuf, wait = itimediff seg.resendts current) := by
  by_cases hflush : kcp.flushesAt current
  · exact Or.inl ⟨check_of_flushesAt hflush, Or.inl hflush⟩
  · rcases check_of_not_flushesAt hflush with ⟨hnow, hdue⟩ | ⟨tm, heq, hnonneg, htm, hall, hends⟩
    · exact Or.inl ⟨hnow, Or.inr hdue⟩
    · refine Or.inr ⟨min tm.toNat kcp.interval.toNat, heq, hflush, min_le_right _ _, by omega,
        fun seg hseg => ?_, ?_⟩
      · have := hall seg hseg
        omega
      · by_cases hle : kcp.interval.toNat ≤ tm.toNat
        · exact Or.inl (min_eq_right hle)
        · rw [min_eq_left (by omega), Int.toNat_of_nonneg hnonneg]
          exact Or.inr hends

theorem flushesAt_congr {kcp' : Ikcpcb} (h : kcp'.timer = kcp.timer) (current : U32) :
    kcp'.flushesAt current ↔ kcp.flushesAt current := by
  obtain ⟨-, h⟩ := Prod.mk.inj h
  obtain ⟨hu, hts⟩ := Prod.mk.inj h
  unfold flushesAt
  rw [hu, hts]

/-- No flush is due before `ts_flush`. -/
theorem not_flushesAt_add {current : U32} (h : ¬ kcp.flushesAt current) {n : ℕ}
    (hn : n < itimediff kcp.tsFlush current) :
    ¬ kcp.flushesAt (current + BitVec.ofNat 32 n) := by
  obtain ⟨hu, hslap⟩ := not_or.mp h
  obtain ⟨hlow, hneg⟩ := not_not.mp hslap
  have htm : itimediff kcp.tsFlush current = -itimediff current kcp.tsFlush :=
    serialDiff_comm (by unfold itimediff at *; omega)
  have hadd : itimediff (current + BitVec.ofNat 32 n) kcp.tsFlush =
      itimediff current kcp.tsFlush + n := serialDiff_add (by unfold itimediff at *; omega)
  refine not_or.mpr ⟨hu, not_not.mpr ?_⟩
  rw [hadd]
  omega

/-- A wait that begins at the time `ms` of the clock ends before the clock does: the flush is due,
or the interval is over, or the flush or a segment is due, at a time of 31 bits. -/
def EndsWithin (kcp : Ikcpcb) (ms : ℕ) : Prop :=
  kcp.flushesAt (BitVec.ofNat 32 ms) ∨ ms + kcp.interval.toNat < 2 ^ 31 ∨
    ms + itimediff kcp.tsFlush (BitVec.ofNat 32 ms) < 2 ^ 31 ∨
    ∃ seg ∈ kcp.sndBuf, ms + itimediff seg.resendts (BitVec.ofNat 32 ms) < 2 ^ 31

end Ikcp.Ikcpcb

/-! ## Sleeping -/

/-- The runs of an endpoint with any parameters. -/
def endpointMadeWith (conv : U32) (sndwnd rcvwnd nodelay interval resend nc : ℤ) :
    Machine Endpoint EndpointCall where
  init := ⟨madeWith conv sndwnd rcvwnd nodelay interval resend nc, [], [], []⟩
  step s e := some (s.call e)

/-- A call made between `lkcp_check` and the time that it returns: a message is read, or the
endpoint is updated. -/
def EndpointCall.Sleeps (ms : ℕ) (nexttime : ℤ) : EndpointCall → Prop
  | .recv => True
  | .update current => ms ≤ current ∧ current < nexttime
  | _ => False

namespace Endpoint

/-- What the callers of `lkcp_check` rely on: the time it returns is not past and at most an
interval ahead, and until then no update performs a flush. -/
structure Schedules (s : Endpoint) (ms : ℕ) : Prop where
  usable : 0 ≤ s.kcp.lkcpCheck ms - ms
  soon : s.kcp.lkcpCheck ms - ms ≤ s.kcp.interval.toNat
  idle : ∀ cs : List EndpointCall, (∀ c ∈ cs, c.Sleeps ms (s.kcp.lkcpCheck ms)) →
    ∀ current : ℤ, ms ≤ current → current < s.kcp.lkcpCheck ms →
      (s.calls cs).kcp.lkcpUpdate current =
        ({ (s.calls cs).kcp with current := BitVec.ofInt 32 current }, [])

/-- Calls keep the interval. -/
theorem interval_call (s : Endpoint) (e : EndpointCall) :
    (s.call e).kcp.interval = s.kcp.interval := by
  cases e with
  | send m => exact congrArg Prod.fst (s.kcp.timer_send m _)
  | recv => exact congrArg Prod.fst (s.kcp.timer_recv _)
  | input data => exact congrArg Prod.fst (s.kcp.timer_input data)
  | update current => exact s.kcp.interval_update _
  | flush => exact congrArg Prod.fst s.kcp.timer_flush

/-- As long as no update performs a flush, the timer stays. -/
theorem timer_calls {s : Endpoint} {ms : ℕ} {nexttime : ℤ}
    (h : ∀ current : ℤ, ms ≤ current → current < nexttime →
      ¬ s.kcp.flushesAt (BitVec.ofInt 32 current)) {cs : List EndpointCall}
    (hcs : ∀ c ∈ cs, c.Sleeps ms nexttime) : (s.calls cs).kcp.timer = s.kcp.timer := by
  induction cs generalizing s with
  | nil => rfl
  | cons c cs ih =>
    have hcall : (s.call c).kcp.timer = s.kcp.timer := by
      have hc := hcs c List.mem_cons_self
      cases c with
      | recv => exact s.kcp.timer_recv _
      | update current =>
        change (s.kcp.update _).1.timer = _
        rw [Ikcpcb.update_of_not_flushesAt (h current hc.1 hc.2)]
        rfl
      | send m => exact hc.elim
      | input data => exact hc.elim
      | flush => exact hc.elim
    have hcs' : ∀ c' ∈ cs, c'.Sleeps ms nexttime := fun c' hc' =>
      hcs c' (List.mem_cons_of_mem c hc')
    refine (ih (fun current h₁ h₂ => ?_) hcs').trans hcall
    rw [Ikcpcb.flushesAt_congr hcall]
    exact h current h₁ h₂

end Endpoint

/-- The interval is at most 5 seconds. -/
theorem interval_madeWith_le (conv : U32) (sndwnd rcvwnd nodelay interval resend nc : ℤ) :
    (madeWith conv sndwnd rcvwnd nodelay interval resend nc).interval.toNat ≤ 5000 := by
  have hwnd : ((create conv).wndsize sndwnd rcvwnd).interval = intervalDef := by
    unfold Ikcpcb.wndsize
    dsimp only
    split_ifs <;> rfl
  have hset (kcp : Ikcpcb) : (kcp.setNodelay nodelay interval resend nc).interval =
      if 0 ≤ interval then
        BitVec.ofInt 32 (if interval > 5000 then 5000 else if interval < 10 then 10 else interval)
      else kcp.interval := by
    unfold Ikcpcb.setNodelay
    dsimp only
    split_ifs <;> rfl
  unfold madeWith
  rw [hset, hwnd]
  split_ifs
  · decide
  · decide
  · rw [BitVec.toNat_ofInt]
    omega
  · decide

theorem interval_le_of_reaches {conv : U32} {sndwnd rcvwnd nodelay interval resend nc : ℤ}
    {s : Endpoint} (h : (endpointMadeWith conv sndwnd rcvwnd nodelay interval resend nc).Reaches
      Machine.anyStep s) : s.kcp.interval.toNat ≤ 5000 := by
  refine h.invariant (I := fun s => s.kcp.interval.toNat ≤ 5000)
    (interval_madeWith_le conv sndwnd rcvwnd nodelay interval resend nc) fun s e t hs _ hstep => ?_
  obtain rfl : s.call e = t := Option.some.inj hstep
  rw [s.interval_call]
  exact hs

theorem toInt_ofNat_of_lt {n : ℕ} (h : n < 2 ^ 31) : (BitVec.ofNat 32 n).toInt = n := by
  rw [BitVec.toInt_ofNat']
  exact Int.bmod_eq_of_le_mul_two (by omega) (by omega)

/-- **Scheduling**: in every state of an endpoint, whatever its parameters, and at every time of the
clock, the time that `lkcp_check` returns is what its callers rely on exactly when the wait ends
before the clock does. -/
theorem scheduled_iff {conv : U32} {sndwnd rcvwnd nodelay interval resend nc : ℤ} {s : Endpoint}
    (h : (endpointMadeWith conv sndwnd rcvwnd nodelay interval resend nc).Reaches
      Machine.anyStep s) {ms : ℕ} (hms : ms < 2 ^ 31) :
    s.Schedules ms ↔ s.kcp.EndsWithin ms := by
  have hinterval := interval_le_of_reaches h
  have hcheck : s.kcp.lkcpCheck ms = (s.kcp.check (BitVec.ofNat 32 ms)).toInt := by
    rw [Ikcpcb.lkcpCheck, BitVec.ofInt_natCast]
  rcases s.kcp.check_cases (BitVec.ofNat 32 ms) with ⟨hnow, hdue⟩ |
    ⟨wait, hlater, hflush, hint, htm, hsegs, hends⟩
  · rw [hnow, toInt_ofNat_of_lt hms] at hcheck
    refine iff_of_true ⟨by omega, by omega, fun cs _ current h₁ h₂ => by omega⟩ ?_
    rcases hdue with hdue | ⟨seg, hseg, hdue⟩
    · exact Or.inl hdue
    · exact Or.inr (Or.inr (Or.inr ⟨seg, hseg, by omega⟩))
  · rw [hlater, ← BitVec.ofNat_add] at hcheck
    by_cases hlt : ms + wait < 2 ^ 31
    · rw [toInt_ofNat_of_lt hlt] at hcheck
      have hidle : ∀ current : ℤ, ms ≤ current → current < s.kcp.lkcpCheck ms →
          ¬ s.kcp.flushesAt (BitVec.ofInt 32 current) := by
        intro current h₁ h₂
        obtain ⟨n, rfl⟩ : ∃ n : ℕ, current = (ms + n : ℕ) := ⟨(current - ms).toNat, by omega⟩
        rw [BitVec.ofInt_natCast, BitVec.ofNat_add]
        exact Ikcpcb.not_flushesAt_add hflush (by omega)
      refine iff_of_true ⟨by omega, by omega, fun cs hcs current h₁ h₂ => ?_⟩ ?_
      · refine Ikcpcb.update_of_not_flushesAt ?_
        rw [Ikcpcb.flushesAt_congr (Endpoint.timer_calls hidle hcs)]
        exact hidle current h₁ h₂
      · rcases hends with hends | hends | ⟨seg, hseg, hends⟩
        · exact Or.inr (Or.inl (by omega))
        · exact Or.inr (Or.inr (Or.inl (by omega)))
        · exact Or.inr (Or.inr (Or.inr ⟨seg, hseg, by omega⟩))
    · -- the time returned is a negative `int32_t`
      have hneg : s.kcp.lkcpCheck ms < 0 := by
        rw [hcheck, BitVec.toInt_ofNat']
        have : ((ms + wait : ℕ) : ℤ).bmod (2 ^ 32) = (ms + wait : ℕ) - 2 ^ 32 := by
          rw [Int.bmod_def]
          omega
        omega
      refine iff_of_false (fun hs => ?_) ?_
      · have := hs.usable
        omega
      · rintro (hdue | hdue | hdue | ⟨seg, hseg, hdue⟩)
        · exact hflush hdue
        · omega
        · omega
        · have := hsegs seg hseg
          omega

/-- The parameters of `getKcp`; a message waits to be sent again. -/
theorem scheduled_iff_sent : ∃ s, (endpointMadeWith 1 128 128 0 50 0 1).Reaches Machine.anyStep s ∧
    s.kcp.sndBuf ≠ [] ∧ s.Schedules 60 := by
  have h : ((endpointMadeWith 1 128 128 0 50 0 1).run (fun _ _ => true)
      (endpointMadeWith 1 128 128 0 50 0 1).init [.update 0, .send [1], .update 50]).any
      (fun s => decide (s.kcp.sndBuf ≠ [] ∧ s.kcp.interval = 50)) = true := by
    decide +kernel
  obtain ⟨s, hrun, hs⟩ := Option.any_eq_true _ _ |>.mp h
  obtain ⟨hbuf, hinterval⟩ := of_decide_eq_true hs
  have hreach : (endpointMadeWith 1 128 128 0 50 0 1).Reaches Machine.anyStep s :=
    Machine.path_of_run (fun _ _ _ => trivial) _ hrun
  refine ⟨s, hreach, hbuf, (scheduled_iff hreach (by norm_num)).mpr (Or.inr (Or.inl ?_))⟩
  rw [hinterval]
  decide

/-- `lkcp_check` 20 milliseconds before the clock wraps, at the time of an update: the next flush is
30 milliseconds after the wrap. -/
theorem not_scheduled_late : ¬ ∀ s,
    (endpointMadeWith 1 128 128 0 50 0 1).Reaches Machine.anyStep s →
      ∀ ms, ms < 2 ^ 31 → s.Schedules ms := by
  have h : ((endpointMadeWith 1 128 128 0 50 0 1).run (fun _ _ => true)
      (endpointMadeWith 1 128 128 0 50 0 1).init [.update (2 ^ 31 - 20)]).any
      (fun s => decide (s.kcp.lkcpCheck ((2 ^ 31 - 20 : ℕ) : ℤ) = 30 - 2 ^ 31)) = true := by
    decide +kernel
  obtain ⟨s, hrun, hs⟩ := Option.any_eq_true _ _ |>.mp h
  have hcheck := of_decide_eq_true hs
  intro hall
  have husable := (hall s (Machine.path_of_run (fun _ _ _ => trivial) _ hrun) (2 ^ 31 - 20)
    (by norm_num)).usable
  rw [hcheck] at husable
  norm_num at husable

end LuaKcp
