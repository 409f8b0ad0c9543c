import LuaKcp.Server.Records

/-!
# The two tables of handshakes

`handshakeMap` and `handshakeFrom` hold the same handshakes, one under their uids and the other
under their addresses, as long as a handshake that comes from the address of another one is of the
same uid; one of another uid takes the address over, and the tables disagree (`indexes_agree_iff`).
-/

namespace LuaKcp

open Ikcp

namespace Server

/-- Each table leads to the handshakes of the other one. -/
structure Agree (s : Server) : Prop where
  handshakeMap : ∀ uid r, s.handshakeMap.get uid = some r →
    ∃ h, s.handshakes[r]? = some h ∧ h.uid = uid ∧ s.handshakeFrom.get h.fromAddr = some r
  handshakeFrom : ∀ fromAddr r, s.handshakeFrom.get fromAddr = some r →
    ∃ h, s.handshakes[r]? = some h ∧ h.fromAddr = fromAddr ∧ s.handshakeMap.get h.uid = some r

/-- An accepted handshake does not come from the address of a handshake of another uid. -/
def OwnAddress (s : Server) (e : ServerEvent) : Prop :=
  ∀ a, s.accepted e = some a → ∀ r h, s.handshakeFrom.get a.fromAddr = some r →
    s.handshakes[r]? = some h → h.uid = a.uid

/-- Agreement, from what the handshakes were made with. -/
theorem agree_iff (s : Server) : s.Agree ↔
    (∀ uid r, s.handshakeMap.get uid = some r → ∃ fromAddr time,
      s.handshakeAt r = some (uid, fromAddr, time) ∧ s.handshakeFrom.get fromAddr = some r) ∧
    ∀ fromAddr r, s.handshakeFrom.get fromAddr = some r → ∃ uid time,
      s.handshakeAt r = some (uid, fromAddr, time) ∧ s.handshakeMap.get uid = some r := by
  have hat {r : ℕ} {x : LuaNumber × Bytes × LuaNumber} (hx : s.handshakeAt r = some x) :
      ∃ h, s.handshakes[r]? = some h ∧ h.uid = x.1 ∧ h.fromAddr = x.2.1 := by
    obtain ⟨h, hh, rfl⟩ := Option.map_eq_some_iff.mp hx
    exact ⟨h, hh, rfl, rfl⟩
  have hof {r : ℕ} {h : Handshake} (hh : s.handshakes[r]? = some h) :
      s.handshakeAt r = some (h.uid, h.fromAddr, h.time) := by
    unfold handshakeAt
    rw [hh]
    rfl
  constructor
  · intro hagree
    refine ⟨fun uid r hr => ?_, fun fromAddr r hr => ?_⟩
    · obtain ⟨h, hh, rfl, hf⟩ := hagree.handshakeMap uid r hr
      exact ⟨h.fromAddr, h.time, hof hh, hf⟩
    · obtain ⟨h, hh, rfl, hm⟩ := hagree.handshakeFrom fromAddr r hr
      exact ⟨h.uid, h.time, hof hh, hm⟩
  · rintro ⟨hmap, hfrom⟩
    refine ⟨fun uid r hr => ?_, fun fromAddr r hr => ?_⟩
    · obtain ⟨fromAddr, time, hx, hf⟩ := hmap uid r hr
      obtain ⟨h, hh, huid, haddr⟩ := hat hx
      exact ⟨h, hh, huid, by rw [haddr]; exact hf⟩
    · obtain ⟨uid, time, hx, hm⟩ := hfrom fromAddr r hr
      obtain ⟨h, hh, huid, haddr⟩ := hat hx
      exact ⟨h, hh, haddr, by rw [huid]; exact hm⟩

namespace Agree

variable {s t : Server}

theorem ctor : Agree Server.ctor := by
  constructor <;> intro k r h <;> exact absurd h (by simp [Server.ctor])

/-- Steps that keep the tables and what the handshakes were made with. -/
theorem congr (h : Agree s) (hat : ∀ r, t.handshakeAt r = s.handshakeAt r)
    (hm : t.handshakeMap = s.handshakeMap) (hf : t.handshakeFrom = s.handshakeFrom) : Agree t := by
  rw [agree_iff] at h ⊢
  simpa only [hat, hm, hf] using h

/-- The handshake of a uid is the one under its address. -/
theorem of_handshakeOf (h : Agree s) {uid : LuaNumber} {g : Handshake}
    (hg : s.handshakeOf uid = some g) : ∃ r time, s.handshakeMap.get uid = some r ∧
      s.handshakeAt r = some (uid, g.fromAddr, time) ∧
      s.handshakeFrom.get g.fromAddr = some r := by
  obtain ⟨r, hr, hgr⟩ := Option.bind_eq_some_iff.mp hg
  obtain ⟨g', hg', rfl, hf⟩ := h.handshakeMap uid r hr
  obtain rfl : g' = g := Option.some.inj (hg'.symm.trans hgr)
  refine ⟨r, g'.time, hr, ?_, hf⟩
  unfold handshakeAt
  rw [hg']
  rfl

/-- **An accepted handshake** from an address of its own keeps the tables in agreement. -/
theorem began (h : Agree s) {a : Accepted} (hb : Began s a t)
    (hown : ∀ r g, s.handshakeFrom.get a.fromAddr = some r → s.handshakes[r]? = some g →
      g.uid = a.uid) : Agree t := by
  have hs := (agree_iff s).mp h
  have hnew : t.handshakeAt s.handshakes.length = some (a.uid, a.fromAddr, a.time) := by
    rw [hb.handshakeAt, if_pos rfl]
  have hkeep {r : ℕ} {x : LuaNumber × Bytes × LuaNumber} (hx : s.handshakeAt r = some x) :
      t.handshakeAt r = some x := by
    rw [hb.handshakeAt, if_neg (handshakeAt_lt hx).ne, hx]
  rw [agree_iff]
  refine ⟨fun uid r hr => ?_, fun fromAddr r hr => ?_⟩
  · rw [hb.handshakeMap] at hr
    split_ifs at hr with huid
    · obtain rfl := Option.some.inj hr
      exact ⟨a.fromAddr, a.time, by rw [hnew, huid], by rw [hb.handshakeFrom, if_pos rfl]⟩
    · obtain ⟨fromAddr, time, hx, hf⟩ := hs.1 uid r hr
      have hne : fromAddr ≠ a.fromAddr := by
        rintro rfl
        obtain ⟨g, hg, hmade⟩ := Option.map_eq_some_iff.mp hx
        have hguid : g.uid = uid := congrArg Prod.fst hmade
        exact huid (hguid.symm.trans (hown r g hf hg))
      have hold : (s.handshakeOf a.uid).map Handshake.fromAddr ≠ some fromAddr := by
        intro hold
        obtain ⟨g, hg, rfl⟩ := Option.map_eq_some_iff.mp hold
        obtain ⟨r', time', -, hx', hf'⟩ := h.of_handshakeOf hg
        obtain rfl : r' = r := Option.some.inj (hf'.symm.trans hf)
        have := hx'.symm.trans hx
        exact huid (congrArg (fun x => (x.map Prod.fst).getD uid) this).symm
      exact ⟨fromAddr, time, hkeep hx, by rw [hb.handshakeFrom, if_neg hne, if_neg hold, hf]⟩
  · rw [hb.handshakeFrom] at hr
    split_ifs at hr with haddr hold
    · obtain rfl := Option.some.inj hr
      exact ⟨a.uid, a.time, by rw [hnew, haddr], by rw [hb.handshakeMap, if_pos rfl]⟩
    · obtain ⟨uid, time, hx, hm⟩ := hs.2 fromAddr r hr
      have hne : uid ≠ a.uid := by
        rintro rfl
        obtain ⟨g, hg, hmade⟩ := Option.map_eq_some_iff.mp hx
        have haddr : g.fromAddr = fromAddr := congrArg (fun x => x.2.1) hmade
        refine hold ?_
        unfold handshakeOf
        rw [hm, Option.bind_some, hg, Option.map_some, haddr]
      exact ⟨uid, time, hkeep hx, by rw [hb.handshakeMap, if_neg hne, hm]⟩

/-- An accepted handshake from the address of another uid breaks the agreement. -/
theorem own_of_began (h : Agree s) {a : Accepted} (hb : Began s a t) (ht : Agree t) :
    ∀ r g, s.handshakeFrom.get a.fromAddr = some r → s.handshakes[r]? = some g →
      g.uid = a.uid := by
  intro r g hr hg
  by_contra hne
  obtain ⟨g', hg', haddr, hm⟩ := h.handshakeFrom a.fromAddr r hr
  obtain rfl : g' = g := Option.some.inj (hg'.symm.trans hg)
  have hm' : t.handshakeMap.get g'.uid = some r := by rw [hb.handshakeMap, if_neg hne, hm]
  obtain ⟨fromAddr, time, hx, hf⟩ := ((agree_iff t).mp ht).1 g'.uid r hm'
  have hlt : r < s.handshakes.length := (List.getElem?_eq_some_iff.mp hg).1
  have hx' : s.handshakeAt r = some (g'.uid, g'.fromAddr, g'.time) := by
    unfold handshakeAt
    rw [hg]
    rfl
  rw [hb.handshakeAt, if_neg hlt.ne, hx'] at hx
  obtain ⟨-, hfrom, -⟩ : g'.uid = g'.uid ∧ g'.fromAddr = fromAddr ∧ g'.time = time := by
    simpa using hx
  rw [← hfrom, haddr, hb.handshakeFrom, if_pos rfl] at hf
  exact hlt.ne (Option.some.inj hf).symm

/-- **The end of a handshake** takes it out of both tables. -/
theorem ticked (h : Agree s) {i : ℕ} {l : HandshakeLoop} (ht : Ticked s i l t) : Agree t := by
  have hs := (agree_iff s).mp h
  cases ht with
  | stop hnone hsame hloops =>
    exact h.congr (handshakeAt_of_map hsame.handshakes) hsame.handshakeMap hsame.handshakeFrom
  | update hmore hsame hloops =>
    exact h.congr (handshakeAt_of_map hsame.handshakes) hsame.handshakeMap hsame.handshakeFrom
  | expire hlast g hg conns connection connectNum uidMap subid advances handshakes handshakeMap
      handshakeFrom hloops =>
    obtain ⟨r₀, time₀, hm₀, hx₀, hf₀⟩ := h.of_handshakeOf hg
    have hat := handshakeAt_of_map handshakes
    rw [agree_iff]
    refine ⟨fun uid r hr => ?_, fun fromAddr r hr => ?_⟩
    · rw [handshakeMap] at hr
      split_ifs at hr with huid
      obtain ⟨fromAddr, time, hx, hf⟩ := hs.1 uid r hr
      have hne : fromAddr ≠ g.fromAddr := by
        rintro rfl
        obtain rfl : r₀ = r := Option.some.inj (hf₀.symm.trans hf)
        have := hx.symm.trans hx₀
        exact huid (congrArg (fun x => (x.map Prod.fst).getD uid) this)
      exact ⟨fromAddr, time, by rw [hat, hx], by rw [handshakeFrom, if_neg hne, hf]⟩
    · rw [handshakeFrom] at hr
      split_ifs at hr with haddr
      obtain ⟨uid, time, hx, hm⟩ := hs.2 fromAddr r hr
      have hne : uid ≠ l.uid := by
        rintro rfl
        obtain rfl : r₀ = r := Option.some.inj (hm₀.symm.trans hm)
        have := hx.symm.trans hx₀
        exact haddr (congrArg (fun x => (x.map fun y => y.2.1).getD fromAddr) this)
      exact ⟨uid, time, by rw [hat, hx], by rw [handshakeMap, if_neg hne, hm]⟩

/-- Agreement after a step: it is lost exactly when an address is taken over. -/
theorem step_iff (h : Agree s) (hwf : Wf s) {e : ServerEvent} {o : Outcome}
    (hstep : s.step e = some o) : Agree o.state ↔ s.OwnAddress e := by
  have hnone (ha : s.accepted e = none) : s.OwnAddress e := by
    intro a ha'
    rw [ha] at ha'
    exact absurd ha' (by simp)
  cases step_cases hstep with
  | accept a ha hc hadmits state raised =>
    obtain ⟨hb, -⟩ := accepted_cases hwf ha hstep
    constructor
    · intro ht a' ha'
      obtain rfl : a = a' := Option.some.inj (ha.symm.trans ha')
      exact h.own_of_began hb ht
    · intro hown
      exact h.began hb (hown a ha)
  | quiet ha hq =>
    refine iff_of_true ?_ (hnone ha)
    exact h.congr (handshakeAt_of_map hq.same.handshakes) hq.same.handshakeMap
      hq.same.handshakeFrom
  | keepAlive ha i k hk hsame hloops hkeep =>
    refine iff_of_true ?_ (hnone ha)
    exact h.congr (handshakeAt_of_map hsame.handshakes) hsame.handshakeMap hsame.handshakeFrom
  | tick ha i l hl hrun hkeep ht => exact iff_of_true (h.ticked ht) (hnone ha)

end Agree

/-- A datagram from the address of a handshake that is not itself a handshake. -/
theorem repeated_handshake {s : Server} {r : ℕ} {h : Handshake} {msg str : Bytes}
    {wall wall' wall'' : ℕ} {o : Outcome} (hf : s.handshakeFrom.get h.fromAddr = some r)
    (hh : s.handshakes[r]? = some h) (hmsg : unpackPackage msg = some (0, str))
    (hread : (hello h.fromAddr str wall wall').1.1 ≤ 0)
    (hstep : s.step (.datagram h.fromAddr msg wall wall' wall'') = some o) :
    o.state.handshakes[r]? = some { h with kcp := (h.kcp.lkcpInput str h.fromAddr).2 } := by
  have hlt : r < s.handshakes.length := (List.getElem?_eq_some_iff.mp hh).1
  change s.dispatchMsg h.fromAddr msg wall wall' wall'' = some o at hstep
  unfold dispatchMsg at hstep
  rw [hmsg] at hstep
  dsimp only at hstep
  rw [if_pos rfl] at hstep
  obtain rfl := Option.some.inj hstep
  unfold handshake
  rw [if_neg (not_lt.mpr hread)]
  unfold repeated setKcp
  simp only [hf, hh]
  exact List.getElem?_set_self hlt

end Server

/-- **The tables of handshakes agree** in every run in which no accepted handshake comes from the
address of a handshake of another uid, and in each state of such a run a step keeps the agreement
exactly when this is so. Then a datagram that comes from the address of a handshake, and is none
itself, is fed to the object of that handshake. -/
theorem indexes_agree_iff {s : Server} (h : serverMachine.Reaches Server.OwnAddress s) :
    s.Agree ∧ (∀ e o, s.step e = some o → (o.state.Agree ↔ s.OwnAddress e)) ∧
      ∀ uid r h, s.handshakeMap.get uid = some r → s.handshakes[r]? = some h →
        ∀ msg str wall wall' wall'' o, unpackPackage msg = some (0, str) →
          (hello h.fromAddr str wall wall').1.1 ≤ 0 →
          s.step (.datagram h.fromAddr msg wall wall' wall'') = some o →
          o.state.handshakes[r]? = some { h with kcp := (h.kcp.lkcpInput str h.fromAddr).2 } := by
  have hinv : s.Wf ∧ s.Agree := by
    refine h.invariant (I := fun s => Server.Wf s ∧ Server.Agree s) ⟨.ctor, .ctor⟩
      fun s e t hs hok hstep => ?_
    obtain ⟨o, ho, rfl⟩ := Option.map_eq_some_iff.mp hstep
    exact ⟨hs.1.step ho, (hs.2.step_iff hs.1 ho).mpr hok⟩
  refine ⟨hinv.2, fun e o ho => hinv.2.step_iff hinv.1 ho, ?_⟩
  intro uid r g hr hg msg str wall wall' wall'' o hmsg hread ho
  obtain ⟨g', hg', -, hf⟩ := hinv.2.handshakeMap uid r hr
  obtain rfl : g' = g := Option.some.inj (hg'.symm.trans hg)
  exact Server.repeated_handshake hf hg hmsg hread ho

/-- No address is taken over in the step, decidably. -/
def Server.ownAddress (s : Server) (e : ServerEvent) : Bool :=
  (s.accepted e).all fun a =>
    ((s.handshakeFrom.get a.fromAddr).bind fun r => s.handshakes[r]?).all fun h =>
      decide (h.uid = a.uid)

theorem Server.ownAddress_of (s : Server) (e : ServerEvent) (h : s.ownAddress e = true) :
    s.OwnAddress e := by
  intro a ha r g hr hg
  unfold ownAddress at h
  rw [ha, Option.all_some, hr, Option.bind_some, hg, Option.all_some] at h
  exact of_decide_eq_true h

/-- A uid may come again, and from another address. -/
theorem indexes_agree_iff_moved : ∃ s, serverMachine.Reaches Server.OwnAddress s ∧
    s.handshakeMap.get (.ofInt 7) = some 1 ∧ s.handshakeFrom.get [1] = none ∧ s.Agree := by
  have h : (serverMachine.run Server.ownAddress .ctor
      [.datagram [1] (helloDatagram 7 1) 0 0 0, .datagram [2] (helloDatagram 7 2) 0 0 0]).any
      (fun s => decide (s.handshakeMap.get (.ofInt 7) = some 1 ∧
        s.handshakeFrom.get [1] = none)) = true := by decide +kernel
  obtain ⟨s, hrun, hs⟩ := Option.any_eq_true _ _ |>.mp h
  have hreach := Machine.path_of_run Server.ownAddress_of _ hrun
  obtain ⟨hmap, hfrom⟩ := of_decide_eq_true hs
  exact ⟨s, hreach, hmap, hfrom, (indexes_agree_iff hreach).1⟩

/-- Two uids come from one address. -/
theorem not_agree_shared :
    ¬ ∀ s, serverMachine.Reaches Machine.anyStep s → Server.Agree s := by
  intro hall
  have h : (serverMachine.run (fun _ _ => true) .ctor
      [.datagram [1] (helloDatagram 7 1) 0 0 0, .datagram [1] (helloDatagram 8 1) 0 0 0]).any
      (fun s => decide (s.handshakeMap.get (.ofInt 7) = some 0 ∧
        (s.handshakes[0]?.map Handshake.fromAddr) = some [1] ∧
        s.handshakeFrom.get [1] = some 1)) = true := by decide +kernel
  obtain ⟨s, hrun, hs⟩ := Option.any_eq_true _ _ |>.mp h
  obtain ⟨hmap, haddr, hfrom⟩ := of_decide_eq_true hs
  obtain ⟨g, hg, -, hf⟩ :=
    (hall s (Machine.path_of_run (fun _ _ _ => trivial) _ hrun)).handshakeMap _ _ hmap
  rw [hg, Option.map_some, Option.some_inj] at haddr
  rw [haddr, hfrom] at hf
  exact absurd hf (by simp)

end LuaKcp
