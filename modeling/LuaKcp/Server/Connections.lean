import LuaKcp.Server.Expiry

/-!
# The connection tables

`connection`, `uidMap` and `connectNum` agree, and each connection has one keep-alive loop, until
the counter of connection ids wraps around (`consistent_of_reaches`). What it takes is that the id
allocated for a new connection is free.
-/

namespace LuaKcp

namespace Server

/-! ## The connection of a uid -/

/-- A connection in the table is the one that its uid had last. -/
def Latest (s : Server) : Prop :=
  ∀ n r, s.connection.get n = some r →
    ∃ uid born, s.connAt r = some (n, uid, born) ∧ s.uidMap.get uid = some r

namespace Latest

variable {s t : Server}

theorem ctor : Latest Server.ctor := fun _ _ h => absurd h (by simp [Server.ctor])

/-- Steps that keep the connection tables and what their records were made with. -/
theorem congr (h : Latest s) (hat : ∀ r, t.connAt r = s.connAt r)
    (hc : t.connection = s.connection) (hu : t.uidMap = s.uidMap) : Latest t := by
  intro n r hr
  rw [hat, hu]
  exact h n r (by rwa [hc] at hr)

/-- A connection whose uid has another one is the old connection. -/
theorem old_of_connAt (h : Latest s) {uid : LuaNumber} {m r : ℕ} {born : ℕ}
    (hr : s.connection.get m = some r) (hat : s.connAt r = some (m, uid, born)) :
    (s.connectionOf uid).map Conn.subid = some m := by
  obtain ⟨uid', born', hat', hu⟩ := h m r hr
  obtain ⟨-, rfl, -⟩ : m = m ∧ uid' = uid ∧ born' = born := by simpa [hat'] using hat
  rw [map_subid_connectionOf, hu]
  simp [hat]

/-- **An accepted handshake** removes the connection that its uid had. -/
theorem registered (h : Latest s) {a : Accepted} (hr : Registered s a t) : Latest t := by
  intro m r hm
  rw [hr.connection] at hm
  split_ifs at hm with hold hn
  · obtain rfl := Option.some.inj hm
    refine ⟨a.uid, s.advances + 1, by rw [hr.connAt, if_pos rfl, hn], ?_⟩
    rw [hr.uidMap, if_pos rfl, if_neg (hn ▸ hold)]
  · obtain ⟨uid, born, hat, hu⟩ := h m r hm
    refine ⟨uid, born, by rw [hr.connAt, if_neg (connAt_lt hat).ne, hat], ?_⟩
    have hne : uid ≠ a.uid := by
      rintro rfl
      exact hold (h.old_of_connAt hm hat)
    rw [hr.uidMap, if_neg hne, hu]

theorem step (h : Latest s) (hwf : Wf s) {e : ServerEvent} {o : Outcome}
    (hstep : s.step e = some o) : Latest o.state := by
  cases step_cases hstep with
  | accept a ha hc hadmits state raised =>
    rw [state]
    rcases accept_cases hc hwf.uidMap_lt rfl with ⟨-, ⟨-, -, hu⟩ | ⟨-, -, hr⟩⟩
    · exact h.congr hu.connAt hu.connection hu.uidMap
    · exact h.registered hr
  | quiet ha hq =>
    exact h.congr (connAt_of_map hq.same.conns) hq.same.connection hq.same.uidMap
  | keepAlive ha i k hk hsame hloops hkeep =>
    exact h.congr (connAt_of_map hsame.conns) hsame.connection hsame.uidMap
  | tick ha i l hl hrun hkeep ht =>
    obtain ⟨hat, hc, hu, -⟩ := connTables_of_ticked ht
    exact h.congr hat hc hu

end Latest

/-- **A uid has at most one connection**, whatever has happened: one that is superseded leaves the
table. -/
theorem latest_of_reaches {ok : Server → ServerEvent → Prop} {s : Server}
    (h : serverMachine.Reaches ok s) : s.Latest := by
  refine (h.invariant (I := fun s => Wf s ∧ Latest s) ⟨.ctor, .ctor⟩ fun s e t hs _ hstep => ?_).2
  obtain ⟨o, ho, rfl⟩ := Option.map_eq_some_iff.mp hstep
  exact ⟨hs.1.step ho, hs.2.step hs.1 ho⟩

/-! ## Agreement of the tables -/

/-- The entries of `connection` and `uidMap` come in pairs. -/
structure Linked (s : Server) : Prop where
  connection : ∀ n r, s.connection.get n = some r →
    ∃ uid born, s.connAt r = some (n, uid, born) ∧ s.uidMap.get uid = some r
  uidMap : ∀ uid r, s.uidMap.get uid = some r →
    ∃ n born, s.connAt r = some (n, uid, born) ∧ s.connection.get n = some r

namespace Linked

variable {s t : Server}

theorem ctor : Linked Server.ctor := by
  constructor <;> intro k r h <;> exact absurd h (by simp [Server.ctor])

/-- Steps that keep the connection tables and what their records were made with. -/
theorem congr (h : Linked s) (hat : ∀ r, t.connAt r = s.connAt r)
    (hc : t.connection = s.connection) (hu : t.uidMap = s.uidMap) : Linked t := by
  constructor
  · exact Latest.congr h.connection hat hc hu
  · intro uid r hr
    rw [hat, hc]
    exact h.uidMap uid r (by rwa [hu] at hr)

/-- The id of the old connection of a uid is that of its entry. -/
theorem old_eq (h : Linked s) {uid : LuaNumber} {m : ℕ}
    (hold : (s.connectionOf uid).map Conn.subid = some m) :
    ∃ r, s.uidMap.get uid = some r ∧ s.connection.get m = some r := by
  rw [map_subid_connectionOf] at hold
  obtain ⟨r, hr, hm⟩ := Option.bind_eq_some_iff.mp hold
  obtain ⟨n, born, hat, hc⟩ := h.uidMap uid r hr
  rw [hat] at hm
  obtain rfl : n = m := Option.some.inj hm
  exact ⟨r, hr, hc⟩

/-- **An accepted handshake** keeps the tables linked when the id allocated is free. -/
theorem registered (h : Linked s) {a : Accepted} (hr : Registered s a t)
    (hfree : s.connection.get (nextSubid s.subid) = none) : Linked t := by
  have hnotold : (s.connectionOf a.uid).map Conn.subid ≠ some (nextSubid s.subid) := by
    intro hold
    obtain ⟨r, -, hc⟩ := h.old_eq hold
    rw [hfree] at hc
    exact absurd hc (by simp)
  have hnew : t.connAt s.conns.length = some (nextSubid s.subid, a.uid, s.advances + 1) := by
    rw [hr.connAt, if_pos rfl]
  have hkeep {r : ℕ} {x : ℕ × LuaNumber × ℕ} (hx : s.connAt r = some x) : t.connAt r = some x := by
    rw [hr.connAt, if_neg (connAt_lt hx).ne, hx]
  constructor
  · exact Latest.registered h.connection hr
  · intro uid r hu
    rw [hr.uidMap] at hu
    split_ifs at hu with huid
    · obtain rfl := Option.some.inj hu
      refine ⟨nextSubid s.subid, s.advances + 1, by rw [hnew, huid], ?_⟩
      rw [hr.connection, if_neg hnotold, if_pos rfl]
    · obtain ⟨m, born, hat, hm⟩ := h.uidMap uid r hu
      refine ⟨m, born, hkeep hat, ?_⟩
      have hold : (s.connectionOf a.uid).map Conn.subid ≠ some m := by
        intro hold
        obtain ⟨r', hr', hm'⟩ := h.old_eq hold
        obtain rfl : r' = r := by simpa [hm] using hm'.symm
        obtain ⟨m', born', hat', -⟩ := h.uidMap a.uid r' hr'
        obtain ⟨-, huid', -⟩ : m' = m ∧ a.uid = uid ∧ born' = born := by simpa [hat'] using hat
        exact huid huid'.symm
      have hne : m ≠ nextSubid s.subid := by
        rintro rfl
        rw [hfree] at hm
        exact absurd hm (by simp)
      rw [hr.connection, if_neg hold, if_neg hne, hm]

end Linked

/-- The id that a step allocates is free. -/
def Frees (s : Server) (e : ServerEvent) : Prop :=
  ∀ a, s.accepted e = some a → s.connection.get (nextSubid s.subid) = none

theorem Linked.step {s : Server} (h : Linked s) (hwf : Wf s) {e : ServerEvent} {o : Outcome}
    (hfree : s.Frees e) (hstep : s.step e = some o) : Linked o.state := by
  cases step_cases hstep with
  | accept a ha hc hadmits state raised =>
    rw [state]
    rcases accept_cases hc hwf.uidMap_lt rfl with ⟨-, ⟨-, -, hu⟩ | ⟨-, -, hr⟩⟩
    · exact h.congr hu.connAt hu.connection hu.uidMap
    · exact h.registered hr (hfree a ha)
  | quiet ha hq =>
    exact h.congr (connAt_of_map hq.same.conns) hq.same.connection hq.same.uidMap
  | keepAlive ha i k hk hsame hloops hkeep =>
    exact h.congr (connAt_of_map hsame.conns) hsame.connection hsame.uidMap
  | tick ha i l hl hrun hkeep ht =>
    obtain ⟨hat, hc, hu, -⟩ := connTables_of_ticked ht
    exact h.congr hat hc hu

/-! ## The count and the keep-alive loops -/

/-- The ids that the keep-alive loops are for. -/
def keptAlive (s : Server) : List ℕ := s.keepAlives.map KeepAlive.subid

/-- The count is right, ids are below the counter, and each connection has one loop. -/
structure Counted (s : Server) : Prop where
  connectNum : s.connectNum = s.connection.size
  advances : s.advances = s.subid
  keepAlives : ∀ n ∈ s.keptAlive, n ≤ s.subid
  one : ∀ n, s.connection.get n ≠ none → s.keptAlive.count n = 1

/-- The counter of connection ids does not go back in this step. -/
def NoWrap (s : Server) (e : ServerEvent) : Prop :=
  ∀ o, s.step e = some o → s.subid ≤ o.state.subid

theorem count_eraseIdx_of_ne {l : List ℕ} {i m n : ℕ} (h : l[i]? = some m) (hne : m ≠ n) :
    (l.eraseIdx i).count n = l.count n := by
  obtain ⟨hlt, rfl⟩ := List.getElem?_eq_some_iff.mp h
  have := (List.getElem_cons_eraseIdx_perm hlt).count_eq n
  rwa [List.count_cons_of_ne hne] at this

/-- Connection ids are below the counter as long as it has not wrapped. -/
theorem le_of_connection {s : Server} (hwf : Wf s) (hadv : s.advances = s.subid) {n : ℕ}
    (hn : s.connection.get n ≠ none) : n ≤ s.subid := by
  obtain ⟨r, hr⟩ := Option.ne_none_iff_exists'.mp hn
  obtain ⟨uid, born, hat⟩ := hwf.connection n r hr
  obtain ⟨rfl, h₁, h₂⟩ := hwf.conns r n uid born hat
  unfold idOf
  rw [if_neg (by omega)]
  omega

theorem nextSubid_of_le {subid : ℕ} (h : subid ≤ nextSubid subid) :
    nextSubid subid = subid + 1 := by
  unfold nextSubid at h ⊢
  split_ifs at h ⊢ <;> omega

theorem NoWrap.next {s : Server} {e : ServerEvent} {o : Outcome} (h : s.NoWrap e)
    (hstep : s.step e = some o) {a : Accepted} (hb : Began s a o.state) :
    nextSubid s.subid = s.subid + 1 := by
  have := h o hstep
  rw [hb.subid] at this
  exact nextSubid_of_le this

namespace Counted

variable {s t : Server}

theorem ctor : Counted Server.ctor := by
  refine ⟨rfl, rfl, ?_, ?_⟩
  · intro n hn
    simp [Server.ctor, keptAlive] at hn
  · intro n hn
    exact absurd (LuaTable.get_empty n) hn

/-- Steps that keep the connection tables and the counter. -/
theorem congr (h : Counted s) (hc : t.connection = s.connection) (hn : t.connectNum = s.connectNum)
    (hs : t.subid = s.subid) (ha : t.advances = s.advances) (hk : t.keptAlive = s.keptAlive) :
    Counted t :=
  ⟨by rw [hn, hc]; exact h.connectNum, by rw [ha, hs]; exact h.advances,
    by rw [hk, hs]; exact h.keepAlives, by rw [hc, hk]; exact h.one⟩

/-- **A step of a keep-alive loop**: only the loop of a removed connection ends. -/
theorem keepAlive (h : Counted s) {i : ℕ} {k : KeepAlive} (hk : s.keepAlives[i]? = some k)
    (hsame : Same s t) (hkeep : t.keepAlives = match s.connection.get k.subid with
      | none => s.keepAlives.eraseIdx i
      | some r => s.keepAlives.set i { k with u := some r }) : Counted t := by
  have hat : s.keptAlive[i]? = some k.subid := by simp [keptAlive, hk]
  cases hr : s.connection.get k.subid with
  | none =>
    rw [hr] at hkeep
    have herase : t.keptAlive = s.keptAlive.eraseIdx i := by
      unfold keptAlive
      rw [hkeep, List.eraseIdx_map]
    refine ⟨by rw [hsame.connectNum, hsame.connection]; exact h.connectNum,
      by rw [hsame.advances, hsame.subid]; exact h.advances, fun n hn => ?_, fun n hn => ?_⟩
    · rw [herase] at hn
      rw [hsame.subid]
      exact h.keepAlives n (List.mem_of_mem_eraseIdx hn)
    · rw [hsame.connection] at hn
      have hne : k.subid ≠ n := by
        rintro rfl
        exact hn hr
      rw [herase, count_eraseIdx_of_ne hat hne]
      exact h.one n hn
  | some r =>
    rw [hr] at hkeep
    refine h.congr hsame.connection hsame.connectNum hsame.subid hsame.advances ?_
    unfold keptAlive
    rw [hkeep]
    exact map_set_of_eq KeepAlive.subid hk rfl

/-- **An accepted handshake** brings one new loop, for an id above all others. -/
theorem registered (h : Counted s) (hwf : Wf s) {a : Accepted} (hb : Began s a t)
    (hr : Registered s a t) (hnext : nextSubid s.subid = s.subid + 1) : Counted t := by
  have hfree : s.connection.get (nextSubid s.subid) = none := by
    by_contra hne
    have := le_of_connection hwf h.advances hne
    omega
  have hkept : t.keptAlive = s.keptAlive ++ [nextSubid s.subid] := by
    unfold keptAlive
    rw [hr.keepAlives, List.map_append]
    rfl
  refine ⟨hr.connectNum h.connectNum hfree, ?_, fun n hn => ?_, fun n hn => ?_⟩
  · rw [hb.advances, hb.subid, hnext, h.advances]
  · rw [hb.subid, hnext]
    rw [hkept] at hn
    rcases List.mem_append.mp hn with hn | hn
    · exact (h.keepAlives n hn).trans (Nat.le_succ _)
    · rw [List.mem_singleton.mp hn, hnext]
  · rw [hkept, List.count_append]
    rw [hr.connection] at hn
    split_ifs at hn with hold hnew
    · exact absurd rfl hn
    · have hzero : s.keptAlive.count n = 0 := by
        refine List.count_eq_zero.mpr fun hmem => ?_
        have := h.keepAlives n hmem
        omega
      rw [hzero, hnew, List.count_singleton_self]
    · rw [h.one n hn, List.count_singleton, if_neg (by simpa using Ne.symm hnew)]

theorem unregistered (h : Counted s) {a : Accepted} (hb : Began s a t) (hu : Unregistered s t)
    (hnext : nextSubid s.subid = s.subid + 1) : Counted t := by
  have hkept : t.keptAlive = s.keptAlive := by
    unfold keptAlive
    rw [hu.keepAlives]
  refine ⟨by rw [hu.connectNum, hu.connection]; exact h.connectNum, ?_, fun n hn => ?_, ?_⟩
  · rw [hb.advances, hb.subid, hnext, h.advances]
  · rw [hkept] at hn
    rw [hb.subid, hnext]
    exact (h.keepAlives n hn).trans (Nat.le_succ _)
  · rw [hu.connection, hkept]
    exact h.one

theorem step (h : Counted s) (hwf : Wf s) {e : ServerEvent} {o : Outcome} (hok : s.NoWrap e)
    (hstep : s.step e = some o) : Counted o.state := by
  cases step_cases hstep with
  | accept a ha hc hadmits state raised =>
    rcases accept_cases hc hwf.uidMap_lt rfl with ⟨hb, hcases⟩
    rw [← state] at hb hcases
    have hnext := hok.next hstep hb
    rcases hcases with ⟨-, -, hu⟩ | ⟨-, -, hr⟩
    · exact h.unregistered hb hu hnext
    · exact h.registered hwf hb hr hnext
  | quiet ha hq =>
    refine h.congr hq.same.connection hq.same.connectNum hq.same.subid hq.same.advances ?_
    unfold keptAlive
    rw [hq.keepAlives]
  | keepAlive ha i k hk hsame hloops hkeep => exact h.keepAlive hk hsame hkeep
  | tick ha i l hl hrun hkeep ht =>
    obtain ⟨-, hc, -, hn, hs, hadv⟩ := connTables_of_ticked ht
    refine h.congr hc hn hs hadv ?_
    unfold keptAlive
    rw [hkeep]

end Counted

/-- Before the counter wraps, the id allocated is free. -/
theorem frees_of_noWrap {s : Server} (hwf : Wf s) (h : Counted s) {e : ServerEvent} {o : Outcome}
    (hok : s.NoWrap e) (hstep : s.step e = some o) : s.Frees e := by
  intro a ha
  have hnext := hok.next hstep (accepted_cases hwf ha hstep).1
  by_contra hne
  have := le_of_connection hwf h.advances hne
  omega

/-- The three tables agree, and each connection has one keep-alive loop that has not ended. -/
structure Consistent (s : Server) : Prop where
  connection : ∀ n r, s.connection.get n = some r →
    ∃ u, s.conns[r]? = some u ∧ u.subid = n ∧ s.uidMap.get u.uid = some r
  uidMap : ∀ uid r, s.uidMap.get uid = some r →
    ∃ u, s.conns[r]? = some u ∧ u.uid = uid ∧ s.connection.get u.subid = some r
  connectNum : s.connectNum = s.connection.size
  keepAlives : ∀ n, s.connection.get n ≠ none → (s.keepAlives.map KeepAlive.subid).count n = 1

theorem Consistent.of_linked {s : Server} (hl : Linked s) (hc : Counted s) : Consistent s := by
  refine ⟨fun n r hr => ?_, fun uid r hr => ?_, hc.connectNum, hc.one⟩
  · obtain ⟨uid, born, hat, hu⟩ := hl.connection n r hr
    obtain ⟨u, hu', hmade⟩ := Option.map_eq_some_iff.mp hat
    obtain ⟨rfl, rfl, rfl⟩ : u.subid = n ∧ u.uid = uid ∧ u.born = born := by
      simpa [Conn.made] using hmade
    exact ⟨u, hu', rfl, hu⟩
  · obtain ⟨n, born, hat, hn⟩ := hl.uidMap uid r hr
    obtain ⟨u, hu', hmade⟩ := Option.map_eq_some_iff.mp hat
    obtain ⟨rfl, rfl, rfl⟩ : u.subid = n ∧ u.uid = uid ∧ u.born = born := by
      simpa [Conn.made] using hmade
    exact ⟨u, hu', rfl, hn⟩

end Server

/-- What holds before the counter wraps. -/
theorem Server.inv_of_noWrap {s : Server} (h : serverMachine.Reaches Server.NoWrap s) :
    s.Wf ∧ s.Linked ∧ s.Counted := by
  refine h.invariant (I := fun s => Server.Wf s ∧ Server.Linked s ∧ Server.Counted s)
    ⟨.ctor, .ctor, .ctor⟩ fun s e t hs hok hstep => ?_
  obtain ⟨o, ho, rfl⟩ := Option.map_eq_some_iff.mp hstep
  obtain ⟨hwf, hl, hc⟩ := hs
  exact ⟨hwf.step ho, hl.step hwf (Server.frees_of_noWrap hwf hc hok ho) ho, hc.step hwf hok ho⟩

/-- **The tables agree** in every state that is reached before the counter of connection ids has
wrapped around; in particular a uid has at most one connection. -/
theorem consistent_of_reaches {s : Server} (h : serverMachine.Reaches Server.NoWrap s) :
    s.Consistent ∧ ∀ n n' r r' u u', s.connection.get n = some r → s.connection.get n' = some r' →
      s.conns[r]? = some u → s.conns[r']? = some u' → u.uid = u'.uid → n = n' := by
  have hinv := Server.inv_of_noWrap h
  have hcons := Server.Consistent.of_linked hinv.2.1 hinv.2.2
  refine ⟨hcons, fun n n' r r' u u' hn hn' hu hu' huid => ?_⟩
  obtain ⟨v, hv, hvn, hvr⟩ := hcons.connection n r hn
  obtain ⟨v', hv', hvn', hvr'⟩ := hcons.connection n' r' hn'
  obtain rfl : v = u := Option.some.inj (hv.symm.trans hu)
  obtain rfl : v' = u' := Option.some.inj (hv'.symm.trans hu')
  rw [huid, hvr'] at hvr
  obtain rfl : r' = r := Option.some.inj hvr
  obtain rfl : v' = v := Option.some.inj (hv'.symm.trans hv)
  rw [← hvn, ← hvn']

/-- The counter does not go back in the step, decidably. -/
def Server.noWrap (s : Server) (e : ServerEvent) : Bool :=
  (s.step e).all fun o => decide (s.subid ≤ o.state.subid)

theorem Server.noWrap_of (s : Server) (e : ServerEvent) (h : s.noWrap e = true) : s.NoWrap e := by
  intro o ho
  unfold noWrap at h
  rw [ho, Option.all_some] at h
  exact of_decide_eq_true h

/-- A client that connects again has one connection. -/
theorem consistent_of_reaches_again : ∃ s, serverMachine.Reaches Server.NoWrap s ∧
    s.connection.get 2 = some 1 ∧ s.connectNum = 1 ∧ s.Consistent := by
  have h : (serverMachine.run Server.noWrap .ctor
      [.datagram [1] (helloDatagram 7 1) 0 0 0, .keepAlive 0 0, .tick 0 500,
        .datagram [1] (helloDatagram 7 2) 1000 1000 1000, .keepAlive 0 1000]).any
      (fun s => decide (s.connection.get 2 = some 1 ∧ s.connectNum = 1)) = true := by
    decide +kernel
  obtain ⟨s, hrun, hs⟩ := Option.any_eq_true _ _ |>.mp h
  have hreach := Machine.path_of_run Server.noWrap_of _ hrun
  obtain ⟨hget, hnum⟩ := of_decide_eq_true hs
  exact ⟨s, hreach, hget, hnum, (consistent_of_reaches hreach).1⟩

end LuaKcp
