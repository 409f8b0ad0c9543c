import LuaKcp.Server.Freshness

/-!
# The number of connections

`ctor` sets `connectMax`, the greatest number of connections, to 5000, and nothing reads it. The
number of connections stays within it as long as every handshake accepted finds room
(`limited_iff`); without that, it is as large as the number of uids that have come
(`exists_crowded`).
-/

namespace LuaKcp

open Ikcp

namespace Server

/-- `self.connectMax`. -/
def connectMax : ℕ := 5000

/-- An accepted handshake finds room: there are fewer connections than `connectMax`, or the id
allocated is in use, or the uid has a connection, which is removed. When making the answer raises,
there is no connection to find room for. -/
def HasRoom (s : Server) (e : ServerEvent) : Prop :=
  ∀ a, s.accepted e = some a → formatD a.time ≠ none →
    s.connection.size < connectMax ∨ s.connection.get (nextSubid s.subid) ≠ none ∨
      ∃ n, (s.connectionOf a.uid).map Conn.subid = some n ∧
        (s.connection.get n ≠ none ∨ n = nextSubid s.subid)

/-- The number of connections after an accepted handshake. -/
theorem Registered.size_connection {s t : Server} {a : Accepted} (h : Registered s a t) :
    t.connection.size = match (s.connectionOf a.uid).map Conn.subid with
      | none => (s.connection.set (nextSubid s.subid) (some s.conns.length)).size
      | some n =>
        ((s.connection.set (nextSubid s.subid) (some s.conns.length)).set n none).size := by
  cases hold : (s.connectionOf a.uid).map Conn.subid with
  | none =>
    refine LuaTable.size_congr fun k => ?_
    rw [h.connection, hold, if_neg (Option.some_ne_none k).symm, LuaTable.get_set]
  | some n =>
    refine LuaTable.size_congr fun k => ?_
    rw [h.connection, hold, LuaTable.get_set, LuaTable.get_set]
    simp only [Option.some_inj, eq_comm]

/-- **An accepted handshake** keeps the number within the limit exactly when it finds room. -/
theorem Registered.size_le_iff {s t : Server} {a : Accepted} (h : Registered s a t)
    (hle : s.connection.size ≤ connectMax) : t.connection.size ≤ connectMax ↔
      s.connection.size < connectMax ∨ s.connection.get (nextSubid s.subid) ≠ none ∨
        ∃ n, (s.connectionOf a.uid).map Conn.subid = some n ∧
          (s.connection.get n ≠ none ∨ n = nextSubid s.subid) := by
  rw [h.size_connection]
  have hadd := LuaTable.size_set_some s.connection (nextSubid s.subid) s.conns.length
  cases hold : (s.connectionOf a.uid).map Conn.subid with
  | none =>
    dsimp only
    rw [hadd]
    by_cases hfree : s.connection.get (nextSubid s.subid) = none
    · rw [if_pos hfree]
      constructor
      · exact fun hlt => Or.inl hlt
      · rintro (hlt | hused | ⟨n, hn, -⟩)
        · exact hlt
        · exact absurd hfree hused
        · exact absurd hn (Option.some_ne_none n).symm
    · rw [if_neg hfree]
      exact iff_of_true hle (Or.inr (Or.inl hfree))
  | some n =>
    dsimp only
    rw [LuaTable.size_set_none, LuaTable.get_set]
    by_cases hn : n = nextSubid s.subid
    · rw [if_pos hn, if_neg (Option.some_ne_none _), hadd]
      refine iff_of_true ?_ (Or.inr (Or.inr ⟨n, rfl, Or.inr hn⟩))
      split_ifs <;> omega
    · rw [if_neg hn]
      by_cases hlive : s.connection.get n = none
      · rw [if_pos hlive, hadd]
        by_cases hfree : s.connection.get (nextSubid s.subid) = none
        · rw [if_pos hfree]
          constructor
          · exact fun hlt => Or.inl hlt
          · rintro (hlt | hused | ⟨n', hn', hlive' | hnext⟩)
            · exact hlt
            · exact absurd hfree hused
            · obtain rfl := Option.some.inj hn'
              exact absurd hlive hlive'
            · obtain rfl := Option.some.inj hn'
              exact absurd hnext hn
        · rw [if_neg hfree]
          exact iff_of_true hle (Or.inr (Or.inl hfree))
      · rw [if_neg hlive, hadd]
        refine iff_of_true ?_ (Or.inr (Or.inr ⟨n, rfl, Or.inl hlive⟩))
        split_ifs <;> omega

/-- **One step** keeps the number of connections within the limit exactly when it finds room. -/
theorem size_le_iff {s : Server} (hwf : Wf s) (hle : s.connection.size ≤ connectMax)
    {e : ServerEvent} {o : Outcome} (hstep : s.step e = some o) :
    o.state.connection.size ≤ connectMax ↔ s.HasRoom e := by
  have hother (ha : s.accepted e = none) (hc : o.state.connection = s.connection) :
      o.state.connection.size ≤ connectMax ↔ s.HasRoom e := by
    rw [hc]
    refine iff_of_true hle fun a ha' => ?_
    rw [ha] at ha'
    exact absurd ha' (Option.some_ne_none a).symm
  cases hacc : s.accepted e with
  | some a =>
    obtain ⟨-, ⟨htime, -, hu⟩ | ⟨htime, -, hr⟩⟩ := accepted_cases hwf hacc hstep
    · rw [hu.connection]
      refine iff_of_true hle fun a' ha' htime' => ?_
      obtain rfl : a = a' := Option.some.inj (hacc.symm.trans ha')
      exact absurd htime htime'
    · rw [hr.size_le_iff hle]
      constructor
      · intro hroom a' ha' _
        obtain rfl : a = a' := Option.some.inj (hacc.symm.trans ha')
        exact hroom
      · exact fun hroom => hroom a hacc htime
  | none =>
    cases step_cases hstep with
    | accept a ha hc hadmits state raised =>
      rw [hacc] at ha
      exact absurd ha (Option.some_ne_none a).symm
    | quiet ha hq => exact hother ha hq.same.connection
    | keepAlive ha i k hk hsame hloops hkeep => exact hother ha hsame.connection
    | tick ha i l hl hrun hkeep ht => exact hother ha (connTables_of_ticked ht).2.1

end Server

/-- **The connection limit**: in every run whose accepted handshakes all find room, the number of
connections stays within `connectMax`, and a step from a state reached leaves it there exactly when
it finds room. -/
theorem limited_iff {s : Server} (h : serverMachine.Reaches Server.HasRoom s) :
    s.connection.size ≤ Server.connectMax ∧ ∀ e o, s.step e = some o →
      (o.state.connection.size ≤ Server.connectMax ↔ s.HasRoom e) := by
  have hle : s.connection.size ≤ Server.connectMax := by
    have hinv := h.invariant (I := fun s : Server => s.Wf ∧ s.connection.size ≤ Server.connectMax)
      ⟨.ctor, Nat.zero_le _⟩ fun s e t hs hok hstep => ?_
    · exact hinv.2
    · obtain ⟨o, ho, rfl⟩ := Option.map_eq_some_iff.mp hstep
      exact ⟨hs.1.step ho, (Server.size_le_iff hs.1 hs.2 ho).mpr hok⟩
  exact ⟨hle, fun e o ho => Server.size_le_iff (Server.wf_of_reaches h) hle ho⟩

/-- A second client finds room. -/
theorem limited_iff_second : ∃ s o, serverMachine.Reaches Server.HasRoom s ∧
    s.connection.size = 1 ∧ s.step secondHello = some o ∧
    (o.state.connection.size ≤ Server.connectMax ↔ s.HasRoom secondHello) := by
  have h : (serverMachine.run (fun s _ => decide (s.connection.size < Server.connectMax)) .ctor
      [firstHello]).any (fun s => decide (s.connection.size = 1) &&
        (s.step secondHello).isSome) = true := by decide +kernel
  obtain ⟨s, hrun, hs⟩ := Option.any_eq_true _ _ |>.mp h
  obtain ⟨hsize, hstep⟩ := Bool.and_eq_true_iff.mp hs
  obtain ⟨o, ho⟩ := Option.isSome_iff_exists.mp hstep
  have hreach : serverMachine.Reaches Server.HasRoom s :=
    Machine.path_of_run (fun s _ hlt a _ _ => Or.inl (of_decide_eq_true hlt)) _ hrun
  exact ⟨s, o, hreach, of_decide_eq_true hsize, ho, (limited_iff hreach).2 _ o ho⟩

/-! ## Many clients -/

/-- The handshake of the client of a uid. -/
def helloOf (uid : ℕ) : ServerEvent := .datagram (natDigits uid) (helloDatagram uid 1) 0 0 0

theorem LuaNumber.ofInt_natCast_inj {m n : ℕ} (h : LuaNumber.ofInt m = .ofInt n) : m = n := by
  exact_mod_cast LuaNumber.fin.inj h

/-- After the handshakes of the uids up to `n` there are as many connections. -/
structure Crowded (n : ℕ) (s : Server) : Prop where
  reaches : serverMachine.Reaches Server.NoWrap s
  advances : s.advances = n
  size : s.connection.size = n
  absent : ∀ uid : ℕ, n < uid →
    s.handshakeMap.get (.ofInt uid) = none ∧ s.uidMap.get (.ofInt uid) = none

/-- The client of the next uid comes. -/
theorem crowded_succ {n : ℕ} (hlt : n < 4294967293) {s : Server} (h : Crowded n s) :
    ∃ t, Crowded (n + 1) t := by
  obtain ⟨hwf, hl, hc⟩ := Server.inv_of_noWrap h.reaches
  have hsubid : s.subid = n := by rw [← hc.advances, h.advances]
  have hnext : Server.nextSubid s.subid = n + 1 := by
    rw [hsubid]
    exact if_neg (by omega)
  obtain ⟨hmap, huid⟩ := h.absent (n + 1) (Nat.lt_succ_self n)
  obtain ⟨kcp, ha⟩ : ∃ kcp, s.accepted (helloOf (n + 1)) = some
      ⟨natDigits (n + 1), .ofInt (n + 1 : ℕ), .ofInt (1 : ℕ), kcp, 0⟩ :=
    Server.accepted_helloDatagram (by omega) (by norm_num) hmap 0 0 0
  obtain ⟨o, ho⟩ := Server.step_of_accepted ha
  have htime : formatD (.ofInt (1 : ℕ)) ≠ none := by decide +kernel
  obtain ⟨hb, ⟨hnone, -⟩ | ⟨-, -, hr⟩⟩ := Server.accepted_cases hwf ha ho
  · exact absurd hnone htime
  have hok : s.NoWrap (helloOf (n + 1)) := by
    intro o' ho'
    obtain rfl : o = o' := Option.some.inj (ho.symm.trans ho')
    rw [hb.subid, hnext, hsubid]
    exact Nat.le_succ n
  have hfree : s.connection.get (Server.nextSubid s.subid) = none :=
    Server.frees_of_noWrap hwf hc hok ho _ ha
  have hold : s.connectionOf (.ofInt (n + 1 : ℕ)) = none := by
    unfold Server.connectionOf
    rw [huid]
    rfl
  refine ⟨o.state, h.reaches.trans (.single hok (Option.map_eq_some_iff.mpr ⟨o, ho, rfl⟩)),
    ?_, ?_, fun uid hlt' => ?_⟩
  · rw [hb.advances, h.advances]
  · rw [hr.size_connection, hold, Option.map_none]
    dsimp only
    rw [LuaTable.size_set_some_of_none _ _ hfree, h.size]
  · obtain ⟨hmap', huid'⟩ := h.absent uid (by omega)
    have hne : LuaNumber.ofInt uid ≠ .ofInt (n + 1 : ℕ) := fun he => by
      have := LuaNumber.ofInt_natCast_inj he
      omega
    rw [hb.handshakeMap, if_neg hne, hr.uidMap, if_neg hne]
    exact ⟨hmap', huid'⟩

/-- **As many connections as uids**: nothing limits their number before the ids are used up. -/
theorem exists_crowded {n : ℕ} (hle : n ≤ 4294967293) : ∃ s, Crowded n s := by
  induction n with
  | zero =>
    have habsent := LuaTable.get_empty (κ := LuaNumber) (υ := ℕ)
    exact ⟨.ctor, .refl _, rfl, rfl, fun uid _ => ⟨habsent (.ofInt uid), habsent (.ofInt uid)⟩⟩
  | succ n ih =>
    obtain ⟨s, hs⟩ := ih (by omega)
    exact crowded_succ (by omega) hs

/-- After the handshakes of 5001 uids there are 5001 connections. -/
theorem not_limited_crowded : ¬ ∀ s, serverMachine.Reaches Machine.anyStep s →
    s.connection.size ≤ Server.connectMax := by
  intro hall
  obtain ⟨s, hs⟩ := exists_crowded (n := 5001) (by norm_num)
  have hle := hall s hs.reaches.any
  rw [hs.size] at hle
  exact absurd hle (by decide)

end LuaKcp
