import LuaKcp.Session.Connection
import LuaKcp.Ikcp.Receiver
import LuaKcp.Foundations.Machine

/-!
# No message is left waiting

A coroutine of `dispatch_msg` that finds `u.ms` cleared after its sleep returns without reading: it
relies on another one to read. `Attended` is the invariant behind this: when a message is complete
at the head of the receive queue, some coroutine will still read. It holds along every run in which
no receive loop stops at an empty or oversized message and no request raises while messages wait
(`idle_no_message`); these are exactly the steps that lose it.
-/

namespace LuaKcp

open Ikcp

/-- The receive loop ends though a message is complete behind the one it has read or refused: an
empty message, for which `lkcp_recv` returns `0` as it would for nothing, or one longer than the
buffer. -/
def Stuck (kcp : Ikcpcb) : Prop :=
  (kcp.peeksize = 0 ∧ 0 ≤ (kcp.recv recvBufferLen).2.2.peeksize) ∨ recvBufferLen < kcp.peeksize

instance (kcp : Ikcpcb) : Decidable (Stuck kcp) := inferInstanceAs (Decidable (_ ∨ _))

/-- Some waiting coroutine will read: one inside its receive loop, or one that will find `u.ms`
set after its sleep. -/
def WillRead (ms : Option ℤ) (tasks : List Task) : Prop :=
  (∃ msg, .handling msg ∈ tasks) ∨ (ms ≠ none ∧ .sleeping ∈ tasks)

namespace Conn

/-- A complete message at the head of the queue will be read. -/
def Attended (u : Conn) : Prop := u.kcp.cb.peeksize < 0 ∨ WillRead u.ms u.tasks

/-- The control block that a step reads from, when it reads. -/
def readsFrom (u : Conn) : ConnEvent → Option Ikcpcb
  | .dispatch fromAddr str wall _ =>
    if (u.input fromAddr str).kcp.lkcpCheck (getms wall) - getms wall ≥ 0 then none
    else some (u.input fromAddr str).kcp.cb
  | .wake _ _ => if u.ms = none then none else some u.kcp.cb
  | .returned _ => some u.kcp.cb
  | _ => none

/-- The coroutines that a step does not run. -/
def others (u : Conn) : ConnEvent → List Task
  | .wake i _ | .returned i | .died i => u.tasks.eraseIdx i
  | _ => u.tasks

/-- `u.ms` after a step that reads: a coroutine coming from its sleep clears it. -/
def msAfter (u : Conn) : ConnEvent → Option ℤ
  | .dispatch _ _ _ _ | .wake _ _ => none
  | _ => u.ms

/-- A step that reads does not get stuck, and a request that raises leaves nothing unread, unless
another coroutine will read. -/
def Drains (u : Conn) (e : ConnEvent) : Prop :=
  (∀ kcp ∈ u.readsFrom e, Stuck kcp → WillRead (u.msAfter e) (u.others e)) ∧
    ∀ i, e = .died i → 0 ≤ u.kcp.cb.peeksize → WillRead u.ms (u.others e)

end Conn

/-- A connection from the record `u₀` on. -/
def connMachine (u₀ : Conn) : Machine Conn ConnEvent where
  init := u₀
  step u e := (u.step e).map Prod.fst

/-! ## What a step does -/

theorem stuck_congr {kcp kcp' : Ikcpcb} (h : kcp'.recvSide = kcp.recvSide) :
    Stuck kcp' ↔ Stuck kcp := by
  unfold Stuck
  rw [peeksize_congr h, peeksize_congr (recvSide_recv_congr h recvBufferLen)]

namespace Conn

variable (u : Conn)

/-- One round of the receive loop: it reaches a request, or it ends, and then a message is left
exactly when it got stuck. -/
theorem receive_cases : (∃ msg, u.receive.2 = some (.handling msg) ∧ ¬ Stuck u.kcp.cb) ∨
    (u.receive.2 = none ∧ (u.receive.1.kcp.cb.peeksize < 0 ↔ ¬ Stuck u.kcp.cb)) := by
  have hlen : (0 : ℤ) ≤ recvBufferLen := by decide
  have hkcp : u.receive.1.kcp.cb = (u.kcp.cb.recv recvBufferLen).2.2 := by
    rw [kcp_receive]
    rfl
  have hrecv := recv_cases u.kcp.cb hlen
  by_cases hpos : 0 < u.kcp.lkcpRecv.1.1
  · refine Or.inl ⟨u.kcp.lkcpRecv.1.2.getD [], ?_, ?_⟩
    · unfold receive
      simp only [hpos, if_true]
    · change 0 < (u.kcp.cb.recv recvBufferLen).1 at hpos
      unfold Stuck
      omega
  · refine Or.inr ⟨?_, ?_⟩
    · unfold receive
      simp only [hpos, if_false]
    · change ¬ 0 < (u.kcp.cb.recv recvBufferLen).1 at hpos
      rw [hkcp]
      unfold Stuck
      rcases hrecv with ⟨-, hsame, h⟩ | ⟨h₀, h₁, hr, -⟩
      · rw [hsame]
        omega
      · omega

theorem recvSide_update (wall : ℕ) :
    (u.update wall).1.kcp.cb.recvSide = u.kcp.cb.recvSide :=
  u.kcp.cb.recvSide_update _

theorem recvSide_send (package : Bytes) :
    (u.send package).2.kcp.cb.recvSide = u.kcp.cb.recvSide := by
  unfold send
  rw [Kcp.cb_lkcpSend]
  exact u.kcp.cb.recvSide_send package _

theorem recvSide_flush : u.flush.1.kcp.cb.recvSide = u.kcp.cb.recvSide :=
  u.kcp.cb.recvSide_flush

/-- The coroutine after its sleep. -/
theorem serve_cases (wall : ℕ) :
    (∃ msg, (u.serve wall).2.1 = some (.handling msg) ∧ ¬ Stuck u.kcp.cb) ∨
    ((u.serve wall).2.1 = none ∧ ((u.serve wall).1.kcp.cb.peeksize < 0 ↔ ¬ Stuck u.kcp.cb)) := by
  have h := receive_cases { (u.update wall).1 with ms := none }
  have hstuck : Stuck ({ (u.update wall).1 with ms := none } : Conn).kcp.cb ↔ Stuck u.kcp.cb :=
    stuck_congr (u.recvSide_update wall)
  rw [hstuck] at h
  exact h

theorem mem_resume {i : ℕ} {task : Task} (h : u.tasks[i]? = some task) {next : Option Task}
    (task' : Task) (hnext : next = some task') : task' ∈ (u.resume i next).tasks := by
  obtain ⟨hlt, -⟩ := List.getElem?_eq_some_iff.mp h
  subst hnext
  exact List.mem_set hlt task'

theorem tasks_resume_none {i : ℕ} {next : Option Task} (h : next = none) :
    (u.resume i next).tasks = u.tasks.eraseIdx i := by
  subst h
  rfl

/-- A step that neither reads nor ends a coroutine and leaves `u.ms` and the messages alone. -/
theorem attended_of_quiet {u t : Conn} {e : ConnEvent} (hu : u.Attended)
    (hread : u.readsFrom e = none) (hdied : ∀ i, e ≠ .died i)
    (hkcp : t.kcp.cb.recvSide = u.kcp.cb.recvSide) (hms : t.ms = u.ms)
    (htasks : t.tasks = u.tasks) : t.Attended ↔ u.Drains e := by
  have ht : t.Attended := by
    unfold Attended at hu ⊢
    rwa [peeksize_congr hkcp, hms, htasks]
  refine iff_of_true ht ⟨?_, fun i he => absurd he (hdied i)⟩
  rw [hread]
  simp

/-- After a step that reads, a message is attended to unless the step got stuck and no other
coroutine will read. -/
theorem attended_of_read {u t : Conn} {e : ConnEvent} {next : Option Task} {k : Ikcpcb}
    (hk : u.readsFrom e = some k) (hdied : ∀ i, e ≠ .died i) (hms : t.ms = u.msAfter e)
    (hsome : ∀ task, next = some task → task ∈ t.tasks)
    (hnone : next = none → t.tasks = u.others e)
    (h : (∃ msg, next = some (.handling msg) ∧ ¬ Stuck k) ∨
      (next = none ∧ (t.kcp.cb.peeksize < 0 ↔ ¬ Stuck k))) : t.Attended ↔ u.Drains e := by
  have hdrains : u.Drains e ↔ (Stuck k → WillRead (u.msAfter e) (u.others e)) := by
    unfold Drains
    rw [hk]
    simp only [Option.mem_def, Option.some.injEq, forall_eq']
    exact ⟨fun hs => hs.1, fun hs => ⟨hs, fun i he => absurd he (hdied i)⟩⟩
  rw [hdrains]
  unfold Attended
  rcases h with ⟨msg, hn, hstuck⟩ | ⟨hn, hpeek⟩
  · exact iff_of_true (Or.inr (Or.inl ⟨msg, hsome _ hn⟩)) fun hs => absurd hs hstuck
  · rw [hpeek, hnone hn, hms]
    tauto

/-- A datagram: the coroutine made for it sleeps or reads at once. -/
theorem attended_dispatch (fromAddr str : Bytes) (wall wall' : ℕ) :
    (u.dispatch fromAddr str wall wall').1.Attended ↔
      u.Drains (.dispatch fromAddr str wall wall') := by
  unfold dispatch
  dsimp only
  by_cases hdiff : (u.input fromAddr str).kcp.lkcpCheck (getms wall) - getms wall ≥ 0
  · -- the coroutine sleeps, and `u.ms` is set for it
    rw [if_pos hdiff]
    refine iff_of_true (Or.inr (Or.inr ⟨by simp, by simp⟩)) ⟨?_, by simp⟩
    simp only [readsFrom, hdiff, if_true]
    simp
  · rw [if_neg hdiff]
    have hserve := (u.input fromAddr str).serve_cases wall'
    refine attended_of_read (if_neg hdiff) (by simp) (ms_serve _ wall') ?_ ?_ hserve
    · intro task htask
      simp [htask]
    · intro hnone
      dsimp only
      rw [hnone, Option.toList_none, List.append_nil]
      rfl

/-- The end of a sleep: the coroutine reads, unless another one has since. -/
theorem attended_wake {u : Conn} (hu : u.Attended) {i : ℕ} (htask : u.tasks[i]? = some .sleeping)
    (wall : ℕ) : (u.wake i wall).1.Attended ↔ u.Drains (.wake i wall) := by
  unfold wake
  by_cases hms : u.ms = none
  · -- another coroutine has read since
    rw [if_pos hms]
    have hread : u.readsFrom (.wake i wall) = none := if_pos hms
    refine iff_of_true ?_ ⟨by rw [hread]; simp, by simp⟩
    rcases hu with hpeek | ⟨msg, hmsg⟩ | ⟨hset, -⟩
    · exact Or.inl hpeek
    · refine Or.inr (Or.inl ⟨msg, ?_⟩)
      obtain ⟨j, hj⟩ := List.mem_iff_getElem?.mp hmsg
      refine List.mem_eraseIdx_iff_getElem?.mpr ⟨j, ?_, hj⟩
      rintro rfl
      rw [htask] at hj
      simp at hj
    · exact absurd hms hset
  · rw [if_neg hms]
    refine attended_of_read (if_neg hms) (by simp) (ms_serve u wall) ?_ ?_ (u.serve_cases wall)
    · intro task hnext
      exact mem_resume _ (by rw [tasks_serve]; exact htask) task hnext
    · intro hnone
      dsimp only
      rw [tasks_resume_none _ hnone, tasks_serve]
      rfl

/-- **One step**: where messages are attended to, they still are after it exactly when the step
drains. -/
theorem attended_step {u t : Conn} {e : ConnEvent} {out : List Datagram} (hu : u.Attended)
    (h : u.step e = some (t, out)) : t.Attended ↔ u.Drains e := by
  cases e with
  | dispatch fromAddr str wall wall' =>
    obtain rfl := congrArg Prod.fst (Option.some.inj h)
    exact u.attended_dispatch fromAddr str wall wall'
  | wake i wall =>
    obtain ⟨htask, h⟩ := wake_of_step h
    obtain rfl := congrArg Prod.fst h
    exact attended_wake hu htask wall
  | returned i =>
    obtain ⟨msg, htask, rfl, -⟩ := returned_of_step h
    refine attended_of_read rfl (by simp) u.ms_receive ?_ ?_ u.receive_cases
    · intro task hnext
      exact mem_resume _ (by rw [tasks_receive]; exact htask) task hnext
    · intro hnone
      unfold returned
      dsimp only
      rw [tasks_resume_none _ hnone, tasks_receive]
      rfl
  | died i =>
    obtain ⟨msg, htask, rfl, -⟩ := died_of_step h
    have hdrains : u.Drains (.died i) ↔
        (0 ≤ u.kcp.cb.peeksize → WillRead u.ms (u.tasks.eraseIdx i)) := by
      simp [Drains, readsFrom, others]
    rw [hdrains]
    unfold Attended
    rw [kcp_resume, ms_resume, tasks_resume_none u rfl, ← not_le]
    tauto
  | update wall =>
    obtain rfl := congrArg Prod.fst (Option.some.inj h)
    exact attended_of_quiet hu rfl (by simp) (u.recvSide_update wall) rfl rfl
  | send package =>
    obtain rfl := congrArg Prod.fst (Option.some.inj h)
    exact attended_of_quiet hu rfl (by simp) (u.recvSide_send package) rfl rfl
  | flush =>
    obtain rfl := congrArg Prod.fst (Option.some.inj h)
    exact attended_of_quiet hu rfl (by simp) u.recvSide_flush rfl rfl
  | responseMsg package =>
    obtain rfl := congrArg Prod.fst (Option.some.inj h)
    exact attended_of_quiet hu rfl (by simp)
      ((recvSide_flush _).trans (u.recvSide_send package)) rfl rfl
  | sendMsg package =>
    obtain rfl := congrArg Prod.fst (Option.some.inj h)
    unfold sendMsg
    dsimp only
    split_ifs
    · exact attended_of_quiet hu rfl (by simp) (u.recvSide_send package) rfl rfl
    · exact attended_of_quiet hu rfl (by simp)
        ((recvSide_flush _).trans (u.recvSide_send package)) rfl rfl

end Conn

/-! ## Runs -/

theorem attended_start (fromAddr : Bytes) (subid wall : ℕ) (uid : LuaNumber) (born : ℕ) :
    (Conn.start fromAddr subid uid (getKcp fromAddr subid wall).1 born).Attended := by
  refine Or.inl ?_
  have hside : (getKcp fromAddr subid wall).1.cb.recvSide =
      (configured (convOf subid)).recvSide := by
    rw [getKcp_eq]
    exact (configured (convOf subid)).recvSide_update _
  change (getKcp fromAddr subid wall).1.cb.peeksize < 0
  rw [peeksize_congr hside]
  exact neg_one_lt_zero

theorem attended_of_reaches {u₀ u : Conn} (h₀ : u₀.Attended)
    (h : (connMachine u₀).Reaches Conn.Drains u) : u.Attended := by
  refine Machine.Reaches.invariant (I := Conn.Attended) h₀ (fun s e t hs hok hstep => ?_) h
  obtain ⟨⟨t', out⟩, hstep', rfl⟩ := Option.map_eq_some_iff.mp hstep
  exact (Conn.attended_step hs hstep').mpr hok

/-- **No lost wake-up**: in every run of a connection whose steps drain, no message is complete at
the head of the receive queue while no coroutine sleeps or is inside its receive loop; and in every
state that such a run reaches, messages stay attended to exactly by the steps that drain. -/
theorem idle_no_message {fromAddr : Bytes} {subid wall : ℕ} {uid : LuaNumber} {born : ℕ} {u : Conn}
    (h : (connMachine (Conn.start fromAddr subid uid (getKcp fromAddr subid wall).1 born)).Reaches
      Conn.Drains u) :
    (u.tasks = [] → u.kcp.cb.peeksize < 0) ∧
      ∀ e t out, u.step e = some (t, out) → (t.Attended ↔ u.Drains e) := by
  have hu : u.Attended :=
    attended_of_reaches (attended_start fromAddr subid wall uid born) h
  refine ⟨fun htasks => ?_, fun e t out hstep => Conn.attended_step hu hstep⟩
  rcases hu with hpeek | hread
  · exact hpeek
  · simp [htasks, WillRead] at hread

/-- A step that does not get stuck, and is no request that raises. -/
def Conn.smooth (u : Conn) (e : ConnEvent) : Bool :=
  ((u.readsFrom e).all fun kcp => !decide (Stuck kcp)) &&
    match e with
    | .died _ => false
    | _ => true

theorem Conn.drains_of_smooth (u : Conn) (e : ConnEvent) (h : u.smooth e = true) : u.Drains e := by
  unfold smooth at h
  rw [Bool.and_eq_true] at h
  refine ⟨fun kcp hkcp hstuck => ?_, fun i he => ?_⟩
  · have := Option.all_eq_true _ _ |>.mp h.1 kcp hkcp
    simp [hstuck] at this
  · simp [he] at h

/-- A new connection with id `1`. -/
def firstConn : Conn := Conn.start [2] 1 (.ofInt 7) (getKcp [2] 1 0).1 1

/-- One message comes, is read and handled. -/
theorem idle_no_message_firstConn : ∃ u, (connMachine firstConn).Reaches Conn.Drains u ∧
    u.requested = [[42]] ∧ u.tasks = [] ∧ u.kcp.cb.peeksize < 0 := by
  have h : ((connMachine firstConn).run Conn.smooth firstConn
      [.dispatch [2] (encodeSegs [soleSegment 1 0 0 0 [42]]) 0 0, .wake 0 50, .returned 0]).any
        (fun u => decide (u.requested = [[42]] ∧ u.tasks = [])) = true := by decide +kernel
  obtain ⟨u, hrun, hu⟩ := Option.any_eq_true _ _ |>.mp h
  have hpath := Machine.path_of_run Conn.drains_of_smooth _ hrun
  obtain ⟨hreq, htasks⟩ := of_decide_eq_true hu
  exact ⟨u, hpath, hreq, htasks, (idle_no_message hpath).1 htasks⟩

/-- An empty message ends the receive loop, and the message behind it is left. -/
theorem idle_with_message : ¬ ∀ fromAddr subid uid wall born u,
    (connMachine (Conn.start fromAddr subid uid (getKcp fromAddr subid wall).1 born)).Reaches
      Machine.anyStep u → u.tasks = [] → u.kcp.cb.peeksize < 0 := by
  intro hall
  have h : ((connMachine firstConn).run (fun _ _ => true) firstConn
      [.dispatch [2] (encodeSegs [soleSegment 1 0 0 0 [], soleSegment 1 0 1 0 [42]]) 0 0,
        .wake 0 50]).any
        (fun u => decide (u.tasks = [] ∧ u.kcp.cb.peeksize = 1)) = true := by decide +kernel
  obtain ⟨u, hrun, hu⟩ := Option.any_eq_true _ _ |>.mp h
  obtain ⟨htasks, hpeek⟩ := of_decide_eq_true hu
  have hneg := hall [2] 1 (.ofInt 7) 0 1 u
    (Machine.path_of_run (fun _ _ _ => trivial) _ hrun) htasks
  omega

end LuaKcp
