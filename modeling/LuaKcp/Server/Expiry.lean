import LuaKcp.Server.Records

/-!
# The end of a handshake

What the sleeps of one handshake loop lead to when nothing else runs meanwhile: after the sixth one
there is no handshake of its uid, and all else is as before (`expires`).
-/

namespace LuaKcp

namespace Server

/-- A handshake loop keeps the connection tables. -/
theorem connTables_of_ticked {s t : Server} {i : ℕ} {l : HandshakeLoop} (h : Ticked s i l t) :
    (∀ r, t.connAt r = s.connAt r) ∧ t.connection = s.connection ∧ t.uidMap = s.uidMap ∧
      t.connectNum = s.connectNum ∧ t.subid = s.subid ∧ t.advances = s.advances := by
  cases h with
  | stop hnone hsame hloops =>
    exact ⟨connAt_of_map hsame.conns, hsame.connection, hsame.uidMap, hsame.connectNum,
      hsame.subid, hsame.advances⟩
  | update hmore hsame hloops =>
    exact ⟨connAt_of_map hsame.conns, hsame.connection, hsame.uidMap, hsame.connectNum,
      hsame.subid, hsame.advances⟩
  | expire hlast hs hh conns connection connectNum uidMap subid advances =>
    refine ⟨fun r => ?_, connection, uidMap, connectNum, subid, advances⟩
    unfold connAt
    rw [conns]

/-- The loop itself after it has been woken. -/
theorem loops_of_ticked {s t : Server} {i : ℕ} {l : HandshakeLoop} (h : Ticked s i l t) :
    ∃ l', t.loops = s.loops.set i l' ∧ l'.uid = l.uid ∧ l'.forkedBy = l.forkedBy ∧
      l'.rounds = l.rounds + 1 ∧ (l'.running = true → l.rounds + 1 < 6) := by
  cases h with
  | stop hnone hsame hloops => exact ⟨_, hloops, rfl, rfl, rfl, fun h => absurd h (by simp)⟩
  | update hmore hsame hloops => exact ⟨_, hloops, rfl, rfl, rfl, fun _ => hmore⟩
  | expire hlast hs hh conns connection connectNum uidMap subid advances handshakes handshakeMap
      handshakeFrom hloops => exact ⟨_, hloops, rfl, rfl, rfl, fun h => absurd h (by simp)⟩

theorem handshakeAt_of_ticked {s t : Server} {i : ℕ} {l : HandshakeLoop} (h : Ticked s i l t) :
    ∀ r, t.handshakeAt r = s.handshakeAt r := by
  cases h with
  | stop hnone hsame hloops => exact handshakeAt_of_map hsame.handshakes
  | update hmore hsame hloops => exact handshakeAt_of_map hsame.handshakes
  | expire hlast hs hh conns connection connectNum uidMap subid advances handshakes =>
    exact handshakeAt_of_map handshakes

/-- Nothing has changed from `s` to `t` but handshakes in their tables and the loop `i`, which is
still that of its handshake. -/
structure Besides (s : Server) (i : ℕ) (l : HandshakeLoop) (t : Server) : Prop where
  connAt : ∀ r, t.connAt r = s.connAt r
  connection : t.connection = s.connection
  uidMap : t.uidMap = s.uidMap
  subid : t.subid = s.subid
  advances : t.advances = s.advances
  handshakeAt : ∀ r, t.handshakeAt r = s.handshakeAt r
  loops : ∀ j, j ≠ i → t.loops[j]? = s.loops[j]?
  own : ∃ l' : HandshakeLoop, t.loops[i]? = some l' ∧ l'.forkedBy = l.forkedBy

theorem Besides.of_ticked {s t : Server} {i : ℕ} {l : HandshakeLoop} (hl : s.loops[i]? = some l)
    (h : Ticked s i l t) : Besides s i l t := by
  have hlt : i < s.loops.length := (List.getElem?_eq_some_iff.mp hl).1
  obtain ⟨hat, hc, hu, -, hs, hadv⟩ := connTables_of_ticked h
  obtain ⟨l', hloops, -, hfork, -⟩ := loops_of_ticked h
  refine ⟨hat, hc, hu, hs, hadv, handshakeAt_of_ticked h, fun j hj => ?_, l', ?_, hfork⟩
  · rw [hloops, List.getElem?_set_ne hj.symm]
  · rw [hloops, List.getElem?_set_self hlt]

theorem Besides.trans {s t v : Server} {i : ℕ} {l l' : HandshakeLoop} (h₁ : Besides s i l t)
    (h₂ : Besides t i l' v) (hfork : l'.forkedBy = l.forkedBy) : Besides s i l v := by
  obtain ⟨m, hm, hmfork⟩ := h₂.own
  exact ⟨fun r => (h₂.connAt r).trans (h₁.connAt r), h₂.connection.trans h₁.connection,
    h₂.uidMap.trans h₁.uidMap, h₂.subid.trans h₁.subid, h₂.advances.trans h₁.advances,
    fun r => (h₂.handshakeAt r).trans (h₁.handshakeAt r),
    fun j hj => (h₂.loops j hj).trans (h₁.loops j hj), m, hm, hmfork.trans hfork⟩

/-- A loop that runs can be woken. -/
theorem tick_isSome {s : Server} (hwf : Wf s) {i : ℕ} {l : HandshakeLoop}
    (hl : s.loops[i]? = some l) (hrun : l.running = true) (wall : ℕ) :
    ∃ o, s.step (.tick i wall) = some o ∧ Ticked s i l o.state := by
  obtain ⟨o, ho⟩ : ∃ o, s.step (.tick i wall) = some o := by
    change ∃ o, s.tick i wall = some o
    unfold tick
    rw [hl, Option.bind_some, if_pos hrun]
    cases hr : s.handshakeMap.get l.uid with
    | none => exact ⟨_, rfl⟩
    | some r =>
      obtain ⟨fromAddr, time, hat⟩ := hwf.handshakeMap l.uid r hr
      obtain ⟨h, hh, -⟩ := Option.map_eq_some_iff.mp hat
      exact ⟨_, Option.map_eq_some_iff.mpr ⟨h, hh, rfl⟩⟩
  obtain ⟨l', hl', -, -, ht⟩ := tick_spec ho
  obtain rfl : l' = l := Option.some.inj (hl'.symm.trans hl)
  exact ⟨o, ho, ht⟩

/-- **The end of a handshake**: the sleeps that a loop has left lead, without anything else, to a
state in which its uid has no handshake. -/
theorem expires (ok : Server → ServerEvent → Prop) (hok : ∀ s i wall, ok s (.tick i wall))
    {s : Server} (hwf : Wf s) {i : ℕ} {l : HandshakeLoop} (hl : s.loops[i]? = some l)
    (hrun : l.running = true) {k : ℕ} (hk : l.rounds + (k + 1) = 6) :
    ∃ t, serverMachine.Path ok s t ∧ Besides s i l t ∧ t.handshakeMap.get l.uid = none := by
  induction k generalizing s l with
  | zero =>
    obtain ⟨o, ho, ht⟩ := tick_isSome hwf hl hrun 0
    refine ⟨o.state, .single (hok s i 0) (Option.map_eq_some_iff.mpr ⟨o, ho, rfl⟩),
      .of_ticked hl ht, ?_⟩
    cases ht with
    | stop hnone hsame => rw [hsame.handshakeMap, hnone]
    | update hless => omega
    | expire hlast g hg conns connection connectNum uidMap subid advances handshakes
        handshakeMap => rw [handshakeMap, if_pos rfl]
  | succ k ih =>
    obtain ⟨o, ho, ht⟩ := tick_isSome hwf hl hrun 0
    have hpath : serverMachine.Path ok s o.state :=
      .single (hok s i 0) (Option.map_eq_some_iff.mpr ⟨o, ho, rfl⟩)
    have hbesides := Besides.of_ticked hl ht
    cases ht with
    | stop hnone hsame =>
      exact ⟨o.state, hpath, hbesides, by rw [hsame.handshakeMap, hnone]⟩
    | update hless hsame hloops =>
      have hlt : i < s.loops.length := (List.getElem?_eq_some_iff.mp hl).1
      have hl' : o.state.loops[i]? = some { l with rounds := l.rounds + 1 } := by
        rw [hloops, List.getElem?_set_self hlt]
      obtain ⟨t, hpath', hbesides', hnone⟩ := ih (hwf.step ho) hl' hrun (by simpa using by omega)
      exact ⟨t, hpath.trans hpath', hbesides.trans hbesides' rfl, hnone⟩
    | expire hlast => omega

end Server

end LuaKcp
