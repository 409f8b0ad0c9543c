import LuaKcp.Server.Requests

/-!
# The requests of a record

A coroutine of `dispatch_msg` reads its requests one after the other, and each request of a record
has a number of its own. The ledger of a record follows the record: it has an entry for each
coroutine, and the requests in progress and those answered are different ones.
-/

namespace LuaKcp

/-! ## Coroutines and requests of a connection -/

namespace Conn

variable {u u' : Conn} {out : List Datagram}

/-- Coroutine `i` has gone on, to one more request or to its end. -/
inductive Goes (u : Conn) (i : ℕ) (u' : Conn) : Prop
  | request (msg : Bytes) (requested : u'.requested = u.requested ++ [msg])
      (tasks : u'.tasks = u.tasks.set i (.handling msg))
  | ends (requested : u'.requested = u.requested) (tasks : u'.tasks = u.tasks.eraseIdx i)

/-- A new coroutine has run, to its sleep, its first request or its end. -/
inductive Starts (u u' : Conn) : Prop
  | sleeps (requested : u'.requested = u.requested) (tasks : u'.tasks = u.tasks ++ [.sleeping])
  | request (msg : Bytes) (requested : u'.requested = u.requested ++ [msg])
      (tasks : u'.tasks = u.tasks ++ [.handling msg])
  | ends (requested : u'.requested = u.requested) (tasks : u'.tasks = u.tasks)

theorem receive_requests (u : Conn) :
    (∃ msg, u.receive.2 = some (.handling msg) ∧ u.receive.1.requested = u.requested ++ [msg]) ∨
      (u.receive.2 = none ∧ u.receive.1.requested = u.requested) := by
  unfold receive
  dsimp only
  split_ifs
  · exact Or.inl ⟨_, rfl, rfl⟩
  · exact Or.inr ⟨rfl, rfl⟩

theorem serve_requests (u : Conn) (wall : ℕ) :
    (∃ msg, (u.serve wall).2.1 = some (.handling msg) ∧
        (u.serve wall).1.requested = u.requested ++ [msg]) ∨
      ((u.serve wall).2.1 = none ∧ (u.serve wall).1.requested = u.requested) :=
  receive_requests { (u.update wall).1 with ms := none }

@[simp] theorem accepted_receive (u : Conn) : u.receive.1.accepted = u.accepted := by
  unfold receive
  dsimp only
  split_ifs <;> rfl

@[simp] theorem accepted_serve (u : Conn) (wall : ℕ) : (u.serve wall).1.accepted = u.accepted :=
  accepted_receive _

/-- A coroutine that has read goes on. -/
theorem goes_receive (i : ℕ) (h : u'.tasks = u.tasks) (h' : u'.requested = u.requested) :
    Goes u i (u'.receive.1.resume i u'.receive.2) := by
  rcases u'.receive_requests with ⟨msg, htask, hreq⟩ | ⟨htask, hreq⟩
  · rw [htask]
    refine .request msg (hreq.trans (by rw [h'])) ?_
    change u'.receive.1.tasks.set i _ = _
    rw [tasks_receive, h]
  · rw [htask]
    refine .ends (hreq.trans h') ?_
    change u'.receive.1.tasks.eraseIdx i = _
    rw [tasks_receive, h]

/-- Waiting coroutine `i` has run. -/
structure Resumes (u : Conn) (i : ℕ) (u' : Conn) : Prop where
  lt : i < u.tasks.length
  goes : u.Goes i u'
  accepted : u'.accepted = u.accepted

theorem Goes.congr {v : Conn} {i : ℕ} (h : u.Goes i u') (htasks : u.tasks = v.tasks)
    (hreq : u.requested = v.requested) : v.Goes i u' := by
  cases h with
  | request msg requested tasks =>
    exact .request msg (by rw [requested, hreq]) (by rw [tasks, htasks])
  | ends requested tasks => exact .ends (by rw [requested, hreq]) (by rw [tasks, htasks])

theorem lt_of_task {i : ℕ} {task : Task} (h : u.tasks[i]? = some task) : i < u.tasks.length :=
  (List.getElem?_eq_some_iff.mp h).1

theorem resumes_wake {i wall : ℕ} (h : u.step (.wake i wall) = some (u', out)) :
    u.Resumes i u' := by
  obtain ⟨htask, h⟩ := wake_of_step h
  obtain rfl : (u.wake i wall).1 = u' := congrArg Prod.fst h
  refine ⟨lt_of_task htask, ?_, ?_⟩
  all_goals
    unfold wake
    split_ifs
  · exact .ends rfl rfl
  · exact goes_receive i rfl rfl
  · rfl
  · exact accepted_serve u wall

theorem resumes_returned {i : ℕ} (h : u.step (.returned i) = some (u', out)) :
    u.Resumes i u' := by
  obtain ⟨msg, htask, rfl, -⟩ := returned_of_step h
  exact ⟨lt_of_task htask, goes_receive i rfl rfl, accepted_receive u⟩

theorem resumes_died {i : ℕ} (h : u.step (.died i) = some (u', out)) : u.Resumes i u' := by
  obtain ⟨msg, htask, rfl, -⟩ := died_of_step h
  exact ⟨lt_of_task htask, .ends rfl rfl, rfl⟩

theorem starts_dispatch {fromAddr str : Bytes} {wall wall' : ℕ}
    (h : u.step (.dispatch fromAddr str wall wall') = some (u', out)) :
    u.Starts u' ∧ u'.accepted = u.accepted := by
  obtain rfl : (u.dispatch fromAddr str wall wall').1 = u' :=
    congrArg Prod.fst (Option.some.inj h)
  unfold dispatch
  dsimp only
  split_ifs
  · exact ⟨.sleeps rfl rfl, rfl⟩
  · refine ⟨?_, accepted_serve (u.input fromAddr str) wall'⟩
    rcases (u.input fromAddr str).serve_requests wall' with ⟨msg, htask, hreq⟩ | ⟨htask, hreq⟩
    · refine .request msg hreq ?_
      change u.tasks ++ (Option.toList _) = _
      rw [htask]
      rfl
    · refine .ends hreq ?_
      change u.tasks ++ (Option.toList _) = _
      rw [htask]
      exact List.append_nil _

/-- What a request and its answer depend on. -/
def serving (u : Conn) : List Task × List Bytes × ℕ × LuaNumber × ℕ :=
  (u.tasks, u.requested, u.made)

theorem serving_sendMsg (u : Conn) (package : Bytes) :
    (u.sendMsg package).1.serving = u.serving := by
  unfold sendMsg
  dsimp only
  split_ifs <;> rfl

/-- An answer is accepted or refused. -/
theorem accepted_responseMsg (u : Conn) (package : Bytes) :
    (u.responseMsg package).1.accepted = u.accepted ∨
      (u.responseMsg package).1.accepted = u.accepted ++ [package] := by
  change (if 0 ≤ (u.kcp.lkcpSend package u.fromAddr).1 then u.accepted ++ [package]
    else u.accepted) = u.accepted ∨ _
  split_ifs with h
  · exact Or.inr (if_pos h)
  · exact Or.inl rfl

end Conn

/-- The coroutine is in a request. -/
def Task.isHandling : Task → Bool
  | .sleeping => false
  | .handling _ => true

/-! ## Ledgers -/

namespace Ledger

variable (l : Ledger)

/-- The numbers of the requests in progress. -/
def numbers : List ℕ := l.calls.filterMap (Option.map Request.number)

/-- The ledger is that of record `r`, which is `u`: it has an entry for each coroutine, the requests
in progress and those answered are different ones that have been read, and what they have found is
this record. -/
structure Follows (r : ℕ) (u : Conn) : Prop where
  fits : l.calls.map Option.isSome = u.tasks.map Task.isHandling
  nodup : (l.numbers ++ l.answered).Nodup
  lt : ∀ n ∈ l.numbers ++ l.answered, n < u.requested.length
  found : ∀ q v, some q ∈ l.calls → q.u = some v → v = r

namespace Follows

variable {l : Ledger} {r i : ℕ} {u u' : Conn}

theorem blank {u : Conn} (htasks : u.tasks = []) : Follows ⟨[], []⟩ r u := by
  refine ⟨?_, .nil, ?_, ?_⟩
  · rw [htasks]
    rfl
  · exact fun n hn => absurd hn List.not_mem_nil
  · exact fun q v hq => absurd hq List.not_mem_nil

theorem congr (h : l.Follows r u) (htasks : u'.tasks = u.tasks)
    (hreq : u'.requested = u.requested) : l.Follows r u' := by
  refine ⟨?_, h.nodup, ?_, h.found⟩
  · rw [htasks]
    exact h.fits
  · rw [hreq]
    exact h.lt

theorem length_eq (h : l.Follows r u) : l.calls.length = u.tasks.length := by
  have := congrArg List.length h.fits
  rwa [List.length_map, List.length_map] at this

/-- The numbers without those of a coroutine. -/
theorem numbers_perm {x : Option Request} (hx : l.calls[i]? = some x) :
    l.numbers.Perm ((x.map Request.number).toList ++
      (l.calls.eraseIdx i).filterMap (Option.map Request.number)) := by
  obtain ⟨hlt, rfl⟩ := List.getElem?_eq_some_iff.mp hx
  have hperm := (List.getElem_cons_eraseIdx_perm hlt).symm.filterMap (Option.map Request.number)
  refine hperm.trans (List.Perm.of_eq ?_)
  cases l.calls[i] with
  | none => rfl
  | some q => rfl

/-- A request ends, answered or not. -/
theorem retire (h : l.Follows r u) {number : Option ℕ}
    (hnumber : ∀ n, number = some n → ∃ v, l.calls[i]? = some (some ⟨n, v⟩)) :
    let rest := (l.calls.eraseIdx i).filterMap (Option.map Request.number)
    (rest ++ (l.answered ++ number.toList)).Nodup ∧
      ∀ n ∈ rest ++ (l.answered ++ number.toList), n < u.requested.length := by
  intro rest
  cases number with
  | none =>
    have hsub : (rest ++ (l.answered ++ [])).Sublist (l.numbers ++ l.answered) := by
      rw [List.append_nil]
      exact ((List.eraseIdx_sublist l.calls i).filterMap _).append_right _
    exact ⟨h.nodup.sublist hsub, fun n hn => h.lt n (hsub.subset hn)⟩
  | some m =>
    obtain ⟨v, hv⟩ := hnumber m rfl
    have hperm : (rest ++ (l.answered ++ [m])).Perm (l.numbers ++ l.answered) := by
      have hnumbers : l.numbers.Perm (m :: rest) := numbers_perm hv
      rw [← List.append_assoc]
      exact List.perm_append_comm.trans (hnumbers.append_right _).symm
    exact ⟨hperm.nodup_iff.mpr h.nodup, fun n hn => h.lt n (hperm.subset hn)⟩

/-- **A coroutine goes on**: its request ends, answered or not, and it may begin the next one. -/
theorem goesOn (h : l.Follows r u) (hgoes : u.Goes i u') (hlt : i < u.tasks.length) {x : Option ℕ}
    (hx : ∀ v, x = some v → v = r) {number : Option ℕ}
    (hnumber : ∀ n, number = some n → ∃ v, l.calls[i]? = some (some ⟨n, v⟩)) :
    Follows ⟨match (if u.requested.length < u'.requested.length then
          some (⟨u.requested.length, x⟩ : Request) else none) with
        | some q => l.calls.set i (some q)
        | none => l.calls.eraseIdx i, l.answered ++ number.toList⟩ r u' := by
  obtain ⟨hnodup, hless⟩ := h.retire hnumber
  rw [← h.length_eq] at hlt
  cases hgoes with
  | request msg requested tasks =>
    have hlen : u'.requested.length = u.requested.length + 1 := by
      rw [requested, List.length_append]
      rfl
    rw [if_pos (by omega)]
    have hperm : (Ledger.mk (l.calls.set i (some ⟨u.requested.length, x⟩))
        (l.answered ++ number.toList)).numbers.Perm (u.requested.length ::
          (l.calls.eraseIdx i).filterMap (Option.map Request.number)) :=
      (List.set_perm_cons_eraseIdx hlt _).filterMap (Option.map Request.number)
    have hperm := hperm.append_right (l.answered ++ number.toList)
    refine ⟨?_, ?_, fun n hn => ?_, fun q v hq hv => ?_⟩
    · rw [tasks, List.map_set, List.map_set, h.fits]
      rfl
    · refine hperm.nodup_iff.mpr (List.nodup_cons.mpr ⟨fun hm => ?_, hnodup⟩)
      exact absurd (hless _ hm) (lt_irrefl _)
    · rcases List.mem_cons.mp (hperm.subset hn) with rfl | hn
      · omega
      · have := hless n hn
        omega
    · rcases List.mem_or_eq_of_mem_set hq with hq | hq
      · exact h.found q v hq hv
      · obtain rfl := Option.some.inj hq
        exact hx v hv
  | ends requested tasks =>
    rw [if_neg (by rw [requested]; exact lt_irrefl _)]
    refine ⟨?_, hnodup, fun n hn => ?_, fun q v hq => h.found q v (List.mem_of_mem_eraseIdx hq)⟩
    · rw [tasks, ← List.eraseIdx_map, ← List.eraseIdx_map, h.fits]
    · rw [requested]
      exact hless n hn

/-- **A new coroutine** sleeps, begins a request, or has ended. -/
theorem starts (h : l.Follows r u) (hstarts : u.Starts u') {x : Option ℕ}
    (hx : ∀ v, x = some v → v = r) :
    Follows ⟨if decide (u.tasks.length < u'.tasks.length) = true then
        l.calls ++ [if u.requested.length < u'.requested.length then
          some (⟨u.requested.length, x⟩ : Request) else none]
      else l.calls, l.answered⟩ r u' := by
  have hnumbers (entry : Option Request) : (Ledger.mk (l.calls ++ [entry]) l.answered).numbers =
      l.numbers ++ (entry.map Request.number).toList := by
    unfold numbers
    rw [List.filterMap_append]
    cases entry <;> rfl
  cases hstarts with
  | sleeps requested tasks =>
    rw [if_pos (by rw [tasks, List.length_append]; exact decide_eq_true (Nat.lt_succ_self _)),
      if_neg (by rw [requested]; exact lt_irrefl _)]
    refine ⟨?_, ?_, ?_, fun q v hq => ?_⟩
    · rw [tasks, List.map_append, List.map_append, h.fits]
      rfl
    · rw [hnumbers, Option.map_none, Option.toList_none, List.append_nil]
      exact h.nodup
    · rw [hnumbers, Option.map_none, Option.toList_none, List.append_nil, requested]
      exact h.lt
    · rcases List.mem_append.mp hq with hq | hq
      · exact h.found q v hq
      · exact absurd (List.mem_singleton.mp hq) (Option.some_ne_none q)
  | request msg requested tasks =>
    have hlen : u'.requested.length = u.requested.length + 1 := by
      rw [requested, List.length_append]
      rfl
    rw [if_pos (by rw [tasks, List.length_append]; exact decide_eq_true (Nat.lt_succ_self _)),
      if_pos (by omega)]
    have hperm : ((Ledger.mk (l.calls ++ [some ⟨u.requested.length, x⟩]) l.answered).numbers ++
        l.answered).Perm (u.requested.length :: (l.numbers ++ l.answered)) := by
      rw [hnumbers, List.append_assoc]
      exact List.perm_middle
    refine ⟨?_, ?_, fun n hn => ?_, fun q v hq hv => ?_⟩
    · rw [tasks, List.map_append, List.map_append, h.fits]
      rfl
    · refine hperm.nodup_iff.mpr (List.nodup_cons.mpr ⟨fun hm => ?_, h.nodup⟩)
      exact absurd (h.lt _ hm) (lt_irrefl _)
    · rcases List.mem_cons.mp (hperm.subset hn) with rfl | hn
      · omega
      · have := h.lt n hn
        omega
    · rcases List.mem_append.mp hq with hq | hq
      · exact h.found q v hq hv
      · obtain rfl := Option.some.inj (List.mem_singleton.mp hq)
        exact hx v hv
  | ends requested tasks =>
    rw [if_neg (by rw [tasks, decide_eq_true_eq]; exact lt_irrefl _)]
    exact h.congr tasks requested

end Follows

end Ledger

end LuaKcp
