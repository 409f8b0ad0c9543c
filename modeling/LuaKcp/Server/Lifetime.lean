import LuaKcp.Server.Expiry

/-!
# How long a handshake stays

The loop that an accepted handshake forks addresses its record by the uid. While it runs, a newer
handshake of the uid puts its own record there, and the older loop then removes that one. So a
handshake stays until a newer one comes or its own six sleeps are over, as long as no handshake is
accepted while a loop of its uid runs (`stays_iff`).
-/

namespace LuaKcp

open Ikcp

namespace Server

/-- Each handshake is in the table, or a newer one of its uid has come, or the six sleeps of its own
loop are over. -/
def Stays (s : Server) : Prop :=
  ∀ (r : ℕ) (h : Handshake), s.handshakes[r]? = some h →
    s.handshakeMap.get h.uid = some r ∨
    (∃ (r' : ℕ) (h' : Handshake), r < r' ∧ s.handshakes[r']? = some h' ∧ h'.uid = h.uid) ∨
    ∃ l ∈ s.loops, l.forkedBy = r ∧ l.rounds = 6

/-- No loop of the uid of an accepted handshake runs. -/
def Alone (s : Server) (e : ServerEvent) : Prop :=
  ∀ a, s.accepted e = some a → ∀ l ∈ s.loops, l.running = true → l.uid ≠ a.uid

/-- A handshake, seen by its uid. -/
def uidAt (s : Server) (r : ℕ) : Option LuaNumber := (s.handshakeAt r).map Prod.fst

/-- Whether handshakes stay, from their uids. -/
theorem stays_iff_uidAt (s : Server) : s.Stays ↔ ∀ r uid, s.uidAt r = some uid →
    s.handshakeMap.get uid = some r ∨ (∃ r', r < r' ∧ s.uidAt r' = some uid) ∨
      ∃ l ∈ s.loops, l.forkedBy = r ∧ l.rounds = 6 := by
  have hiff (r : ℕ) (uid : LuaNumber) :
      s.uidAt r = some uid ↔ ∃ h, s.handshakes[r]? = some h ∧ h.uid = uid := by
    unfold uidAt handshakeAt
    rw [Option.map_map]
    exact Option.map_eq_some_iff
  constructor
  · intro hstays r uid hr
    obtain ⟨h, hh, rfl⟩ := (hiff r uid).mp hr
    rcases hstays r h hh with h₁ | ⟨r', h', hlt, hh', huid⟩ | h₃
    · exact Or.inl h₁
    · exact Or.inr (Or.inl ⟨r', hlt, (hiff r' h.uid).mpr ⟨h', hh', huid⟩⟩)
    · exact Or.inr (Or.inr h₃)
  · intro hstays r h hh
    rcases hstays r h.uid ((hiff r h.uid).mpr ⟨h, hh, rfl⟩) with h₁ | ⟨r', hlt, hr'⟩ | h₃
    · exact Or.inl h₁
    · obtain ⟨h', hh', huid⟩ := (hiff r' h.uid).mp hr'
      exact Or.inr (Or.inl ⟨r', h', hlt, hh', huid⟩)
    · exact Or.inr (Or.inr h₃)

theorem uidAt_lt {s : Server} {r : ℕ} {uid : LuaNumber} (h : s.uidAt r = some uid) :
    r < s.handshakes.length := by
  obtain ⟨x, hx, -⟩ := Option.map_eq_some_iff.mp h
  exact handshakeAt_lt hx

theorem Began.uidAt {s t : Server} {a : Accepted} (h : Began s a t) (r : ℕ) :
    t.uidAt r = if r = s.handshakes.length then some a.uid else s.uidAt r := by
  unfold Server.uidAt
  rw [h.handshakeAt]
  split_ifs <;> rfl

/-- Each loop is that of one handshake, which is in the table while the loop runs. -/
structure Owned (s : Server) : Prop where
  forked : ∀ (i : ℕ) (l : HandshakeLoop), s.loops[i]? = some l →
    l.forkedBy < s.handshakes.length
  once : ∀ (i j : ℕ) (l m : HandshakeLoop), s.loops[i]? = some l → s.loops[j]? = some m →
    l.forkedBy = m.forkedBy → i = j
  running : ∀ (i : ℕ) (l : HandshakeLoop), s.loops[i]? = some l → l.running = true →
    l.rounds < 6 ∧ s.handshakeMap.get l.uid = some l.forkedBy
  stays : s.Stays

namespace Owned

variable {s t : Server}

theorem ctor : Owned Server.ctor := by
  refine ⟨?_, ?_, ?_, ?_⟩
  · intro i l h
    simp [Server.ctor] at h
  · intro i j l m h
    simp [Server.ctor] at h
  · intro i l h
    simp [Server.ctor] at h
  · intro r h hh
    simp [Server.ctor] at hh

/-- Steps that keep the handshakes, their table and the loops. -/
theorem congr (h : Owned s) (hlen : t.handshakes.length = s.handshakes.length)
    (hat : ∀ r, t.handshakeAt r = s.handshakeAt r) (hm : t.handshakeMap = s.handshakeMap)
    (hl : t.loops = s.loops) : Owned t := by
  refine ⟨?_, ?_, ?_, ?_⟩
  · rw [hl, hlen]
    exact h.forked
  · rw [hl]
    exact h.once
  · rw [hl, hm]
    exact h.running
  · have hstays := (stays_iff_uidAt s).mp h.stays
    rw [stays_iff_uidAt]
    unfold uidAt at hstays ⊢
    simpa only [hat, hm, hl] using hstays

theorem length_of_began {a : Accepted} (hb : Began s a t) :
    t.handshakes.length = s.handshakes.length + 1 := by
  obtain ⟨kcp, hs⟩ := hb.handshakes
  rw [hs, List.length_append]
  rfl

/-- The handshakes stay when one is accepted. -/
theorem stays_began (h : Stays s) {a : Accepted} (hb : Began s a t)
    (hloops : ∀ l ∈ s.loops, l ∈ t.loops) : Stays t := by
  rw [stays_iff_uidAt] at h ⊢
  intro r uid hr
  rw [hb.uidAt] at hr
  split_ifs at hr with hnew
  · obtain rfl := Option.some.inj hr
    exact Or.inl (by rw [hb.handshakeMap, if_pos rfl, hnew])
  · rcases h r uid hr with h₁ | ⟨r', hlt, hr'⟩ | ⟨l, hl, h₃⟩
    · by_cases huid : uid = a.uid
      · refine Or.inr (Or.inl ⟨s.handshakes.length, uidAt_lt hr, ?_⟩)
        rw [hb.uidAt, if_pos rfl, huid]
      · exact Or.inl (by rw [hb.handshakeMap, if_neg huid, h₁])
    · refine Or.inr (Or.inl ⟨r', hlt, ?_⟩)
      rw [hb.uidAt, if_neg (uidAt_lt hr').ne, hr']
    · exact Or.inr (Or.inr ⟨l, hloops l hl, h₃⟩)

/-- **An accepted handshake** of a uid without a running loop. -/
theorem registered (h : Owned s) {a : Accepted} (hb : Began s a t) (hr : Registered s a t)
    (halone : ∀ l ∈ s.loops, l.running = true → l.uid ≠ a.uid) : Owned t := by
  have hlen := length_of_began hb
  have hget (i : ℕ) : t.loops[i]? =
      if i = s.loops.length then some ⟨a.uid, s.handshakes.length, 0, true⟩ else s.loops[i]? := by
    rw [hr.loops, getElem?_append_singleton]
  refine ⟨fun i l hl => ?_, fun i j l m hl hm hsame => ?_, fun i l hl hrun => ?_, ?_⟩
  · rw [hget] at hl
    split_ifs at hl
    · obtain rfl := Option.some.inj hl
      exact hlen ▸ Nat.lt_succ_self _
    · exact hlen ▸ (h.forked i l hl).trans (Nat.lt_succ_self _)
  · rw [hget] at hl hm
    split_ifs at hl hm with hi hj hj
    · rw [hi, hj]
    · obtain rfl := Option.some.inj hl
      exact absurd hsame.symm (h.forked j m hm).ne
    · obtain rfl := Option.some.inj hm
      exact absurd hsame (h.forked i l hl).ne
    · exact h.once i j l m hl hm hsame
  · rw [hget] at hl
    split_ifs at hl
    · obtain rfl := Option.some.inj hl
      exact ⟨Nat.zero_lt_succ 5, by rw [hb.handshakeMap, if_pos rfl]⟩
    · obtain ⟨h₁, h₂⟩ := h.running i l hl hrun
      have huid := halone l (List.mem_of_getElem? hl) hrun
      exact ⟨h₁, by rw [hb.handshakeMap, if_neg huid, h₂]⟩
  · refine stays_began h.stays hb fun l hl => ?_
    rw [hr.loops]
    exact List.mem_append_left _ hl

theorem unregistered (h : Owned s) {a : Accepted} (hb : Began s a t) (hu : Unregistered s t)
    (halone : ∀ l ∈ s.loops, l.running = true → l.uid ≠ a.uid) : Owned t := by
  have hlen := length_of_began hb
  refine ⟨fun i l hl => ?_, ?_, fun i l hl hrun => ?_, ?_⟩
  · rw [hu.loops] at hl
    exact hlen ▸ (h.forked i l hl).trans (Nat.lt_succ_self _)
  · rw [hu.loops]
    exact h.once
  · rw [hu.loops] at hl
    obtain ⟨h₁, h₂⟩ := h.running i l hl hrun
    have huid := halone l (List.mem_of_getElem? hl) hrun
    exact ⟨h₁, by rw [hb.handshakeMap, if_neg huid, h₂]⟩
  · exact stays_began h.stays hb fun l hl => by rwa [hu.loops]

/-- The loops after one has been woken. -/
theorem getElem?_loops_of_ticked {i : ℕ} {l : HandshakeLoop} (hl : s.loops[i]? = some l)
    (ht : Ticked s i l t) :
    ∃ l', (∀ j, t.loops[j]? = if i = j then some l' else s.loops[j]?) ∧ l'.uid = l.uid ∧
      l'.forkedBy = l.forkedBy ∧ l'.rounds = l.rounds + 1 ∧
      (l'.running = true → l.rounds + 1 < 6) := by
  obtain ⟨l', hloops, hrest⟩ := loops_of_ticked ht
  exact ⟨l', fun j => by rw [hloops, getElem?_set_of_some hl], hrest⟩

/-- The handshakes stay when a loop is woken: it takes away its own only, at the sixth sleep. -/
theorem stays_ticked (h : Owned s) {i : ℕ} {l : HandshakeLoop} (hl : s.loops[i]? = some l)
    (hrun : l.running = true) (ht : Ticked s i l t) : Stays t := by
  obtain ⟨hsix, hmap⟩ := h.running i l hl hrun
  obtain ⟨l', hget, huid, hfork, hrounds, -⟩ := getElem?_loops_of_ticked hl ht
  have hat : ∀ r, t.uidAt r = s.uidAt r := fun r => by
    unfold uidAt
    rw [handshakeAt_of_ticked ht]
  -- loops at their end are kept
  have hkept {m : HandshakeLoop} (hm : m ∈ s.loops) (hend : m.rounds = 6) : m ∈ t.loops := by
    obtain ⟨j, hj⟩ := List.getElem?_of_mem hm
    have hne : i ≠ j := by
      rintro rfl
      obtain rfl : l = m := Option.some.inj (hl.symm.trans hj)
      omega
    exact List.mem_of_getElem? (by rw [hget, if_neg hne, hj])
  rw [stays_iff_uidAt]
  intro r uid hr
  rw [hat] at hr
  rcases (stays_iff_uidAt s).mp h.stays r uid hr with h₁ | ⟨r', hlt', hr'⟩ | ⟨m, hm, hmr, hend⟩
  · cases ht with
    | stop hnone => exact absurd (hnone.symm.trans hmap) (by simp)
    | update hless hsame hloops' =>
      rw [hsame.handshakeMap]
      exact Or.inl h₁
    | expire hlast g hg conns connection connectNum uidMap subid advances handshakes
        handshakeMap =>
      by_cases hsame : uid = l.uid
      · -- it is the loop's own handshake, and this was the sixth sleep
        have hr : r = l.forkedBy := by
          rw [hsame, hmap] at h₁
          exact (Option.some.inj h₁).symm
        refine Or.inr (Or.inr ⟨l', List.mem_of_getElem? (i := i) ?_, ?_, ?_⟩)
        · rw [hget, if_pos rfl]
        · rw [hfork, hr]
        · omega
      · exact Or.inl (by rw [handshakeMap, if_neg hsame, h₁])
  · exact Or.inr (Or.inl ⟨r', hlt', by rw [hat, hr']⟩)
  · exact Or.inr (Or.inr ⟨m, hkept hm hend, hmr, hend⟩)

/-- **A loop that is woken** finds its own handshake, and removes that one only. -/
theorem ticked (h : Owned s) {i : ℕ} {l : HandshakeLoop} (hl : s.loops[i]? = some l)
    (hrun : l.running = true) (ht : Ticked s i l t)
    (hlen : t.handshakes.length = s.handshakes.length) : Owned t := by
  obtain ⟨-, hmap⟩ := h.running i l hl hrun
  obtain ⟨l', hget, huid, hfork, hrounds, hmore⟩ := getElem?_loops_of_ticked hl ht
  -- another running loop is one of another uid
  have hother {j : ℕ} {m : HandshakeLoop} (hm : s.loops[j]? = some m) (hj : i ≠ j)
      (hmrun : m.running = true) : m.uid ≠ l.uid := by
    intro hsame
    have hmap' := (h.running j m hm hmrun).2
    rw [hsame, hmap] at hmap'
    exact hj (h.once i j l m hl hm (Option.some.inj hmap'))
  refine ⟨fun j m hm => ?_, fun j k m n hm hn hsame => ?_, fun j m hm hmrun => ?_,
    h.stays_ticked hl hrun ht⟩
  · rw [hlen]
    rw [hget] at hm
    split_ifs at hm
    · obtain rfl := Option.some.inj hm
      rw [hfork]
      exact h.forked i l hl
    · exact h.forked j m hm
  · rw [hget] at hm hn
    split_ifs at hm hn with hj hk hk
    · rw [← hj, ← hk]
    · obtain rfl := Option.some.inj hm
      rw [hfork] at hsame
      exact hj.symm.trans (h.once i k l n hl hn hsame)
    · obtain rfl := Option.some.inj hn
      rw [hfork] at hsame
      exact (h.once j i m l hm hl hsame).trans hk
    · exact h.once j k m n hm hn hsame
  · rw [hget] at hm
    cases ht with
    | stop hnone => exact absurd (hnone.symm.trans hmap) (by simp)
    | update hless hsame hloops' =>
      rw [hsame.handshakeMap]
      split_ifs at hm with hj
      · obtain rfl := Option.some.inj hm
        rw [huid, hfork, hrounds]
        exact ⟨hless, hmap⟩
      · exact h.running j m hm hmrun
    | expire hlast g hg conns connection connectNum uidMap subid advances handshakes
        handshakeMap =>
      split_ifs at hm with hj
      · obtain rfl := Option.some.inj hm
        exact absurd (hmore hmrun) hlast
      · rw [handshakeMap, if_neg (hother hm hj hmrun)]
        exact h.running j m hm hmrun

theorem length_of_map {l l' : List Handshake}
    (h : l.map Handshake.made = l'.map Handshake.made) : l.length = l'.length := by
  have := congrArg List.length h
  rwa [List.length_map, List.length_map] at this

theorem length_of_ticked {i : ℕ} {l : HandshakeLoop} (ht : Ticked s i l t) :
    t.handshakes.length = s.handshakes.length := by
  cases ht with
  | stop hnone hsame => exact length_of_map hsame.handshakes
  | update hless hsame => exact length_of_map hsame.handshakes
  | expire hlast g hg conns connection connectNum uidMap subid advances handshakes =>
    exact length_of_map handshakes

theorem step (h : Owned s) (hwf : Wf s) {e : ServerEvent} {o : Outcome} (hok : s.Alone e)
    (hstep : s.step e = some o) : Owned o.state := by
  cases step_cases hstep with
  | accept a ha hc hadmits state raised =>
    obtain ⟨hb, ⟨-, -, hu⟩ | ⟨-, -, hr⟩⟩ := accepted_cases hwf ha hstep
    · exact h.unregistered hb hu (hok a ha)
    · exact h.registered hb hr (hok a ha)
  | quiet ha hq =>
    exact h.congr (length_of_map hq.same.handshakes) (handshakeAt_of_map hq.same.handshakes)
      hq.same.handshakeMap hq.loops
  | keepAlive ha i k hk hsame hloops hkeep =>
    exact h.congr (length_of_map hsame.handshakes) (handshakeAt_of_map hsame.handshakes)
      hsame.handshakeMap hloops
  | tick ha i l hl hrun hkeep ht => exact h.ticked hl hrun ht (length_of_ticked ht)

/-- A loop that removes a handshake removes its own. -/
theorem removes_own (h : Owned s) {i wall : ℕ} {l : HandshakeLoop} {o : Outcome}
    (hl : s.loops[i]? = some l) (hstep : s.step (.tick i wall) = some o) {uid : LuaNumber} {r : ℕ}
    (hr : s.handshakeMap.get uid = some r) (hgone : o.state.handshakeMap.get uid ≠ some r) :
    r = l.forkedBy := by
  obtain ⟨l', hl', hrun, -, ht⟩ := tick_spec hstep
  obtain rfl : l' = l := Option.some.inj (hl'.symm.trans hl)
  cases ht with
  | stop hnone hsame => exact absurd (hsame.handshakeMap ▸ hr) hgone
  | update hless hsame => exact absurd (hsame.handshakeMap ▸ hr) hgone
  | expire hlast g hg conns connection connectNum uidMap subid advances handshakes handshakeMap =>
    rw [handshakeMap] at hgone
    split_ifs at hgone with huid
    · have hmap := (h.running i l' hl hrun).2
      rw [← huid, hr] at hmap
      exact Option.some.inj hmap
    · exact absurd hr hgone

end Owned

/-- **An older loop ends a newer handshake**: when a handshake is accepted while a loop of its uid
runs, the sleeps that this loop has left take it away before its time. -/
theorem exists_not_stays {s : Server} (hwf : Wf s) (h : Owned s) {e : ServerEvent} {a : Accepted}
    {o : Outcome} (ha : s.accepted e = some a) (hstep : s.step e = some o) (hnot : ¬ s.Alone e) :
    ∃ t, serverMachine.Path Machine.anyStep o.state t ∧ ¬ t.Stays := by
  obtain ⟨l, hl, hrun, huid⟩ : ∃ l ∈ s.loops, l.running = true ∧ l.uid = a.uid := by
    by_contra hnone
    push Not at hnone
    refine hnot fun a' ha' l hl hrun => ?_
    obtain rfl : a' = a := Option.some.inj (ha'.symm.trans ha)
    exact hnone l hl hrun
  obtain ⟨i, hi⟩ := List.getElem?_of_mem hl
  have hlt : i < s.loops.length := (List.getElem?_eq_some_iff.mp hi).1
  have hrounds := (h.running i l hi hrun).1
  obtain ⟨hb, hcases⟩ := accepted_cases hwf ha hstep
  -- the loops after the acceptance: the new one has not slept yet
  have hloops : o.state.loops = s.loops ∨
      o.state.loops = s.loops ++ [⟨a.uid, s.handshakes.length, 0, true⟩] := by
    rcases hcases with ⟨-, -, hu⟩ | ⟨-, -, hr⟩
    · exact Or.inl hu.loops
    · exact Or.inr hr.loops
  have hi' : o.state.loops[i]? = some l := by
    rcases hloops with hloops | hloops
    · rw [hloops, hi]
    · rw [hloops, List.getElem?_append_left hlt, hi]
  have hk : l.rounds + (5 - l.rounds + 1) = 6 := by omega
  obtain ⟨t, hpath, hbesides, hnone⟩ :=
    expires Machine.anyStep (fun _ _ _ => trivial) (hwf.step hstep) hi' hrun hk
  have hat (r : ℕ) : t.uidAt r = if r = s.handshakes.length then some a.uid else s.uidAt r := by
    rw [← hb.uidAt]
    unfold uidAt
    rw [hbesides.handshakeAt]
  refine ⟨t, hpath, fun hstays => ?_⟩
  rw [stays_iff_uidAt] at hstays
  rcases hstays s.handshakes.length a.uid (by rw [hat, if_pos rfl]) with
    hmap | ⟨r', hlt', hr'⟩ | ⟨m, hm, hfork, hsix⟩
  · rw [← huid, hnone] at hmap
    exact absurd hmap (by simp)
  · rw [hat, if_neg hlt'.ne'] at hr'
    exact absurd (uidAt_lt hr') (by omega)
  · obtain ⟨j, hj⟩ := List.getElem?_of_mem hm
    by_cases hji : j = i
    · obtain ⟨l', hl', hfork'⟩ := hbesides.own
      rw [hji, hl'] at hj
      obtain rfl := Option.some.inj hj
      have := h.forked i l hi
      omega
    · rw [hbesides.loops j hji] at hj
      rcases hloops with hloops | hloops
      · rw [hloops] at hj
        have := h.forked j m hj
        omega
      · rw [hloops, getElem?_append_singleton] at hj
        split_ifs at hj
        · obtain rfl := Option.some.inj hj
          exact absurd hsix (by norm_num)
        · have := h.forked j m hj
          omega

end Server

/-- **How long handshakes stay**: in every run in which no handshake is accepted while a loop of its
uid runs, each handshake stays in the table until a newer one of its uid is accepted or the six
sleeps of its own loop are over, and a loop removes its own handshake only. And in every state of
such a run, a handshake accepted while a loop of its uid runs can be taken away before its time. -/
theorem stays_iff {s : Server} (h : serverMachine.Reaches Server.Alone s) :
    s.Stays ∧
      (∀ i l wall o uid r, s.loops[i]? = some l → s.step (.tick i wall) = some o →
        s.handshakeMap.get uid = some r → o.state.handshakeMap.get uid ≠ some r →
        r = l.forkedBy) ∧
      ∀ e a o, s.accepted e = some a → s.step e = some o → ¬ s.Alone e →
        ∃ t, serverMachine.Path Machine.anyStep o.state t ∧ ¬ t.Stays := by
  have hinv : s.Wf ∧ s.Owned := by
    refine h.invariant (I := fun s => Server.Wf s ∧ Server.Owned s) ⟨.ctor, .ctor⟩
      fun s e t hs hok hstep => ?_
    obtain ⟨o, ho, rfl⟩ := Option.map_eq_some_iff.mp hstep
    exact ⟨hs.1.step ho, hs.2.step hs.1 hok ho⟩
  exact ⟨hinv.2.stays,
    fun i l wall o uid r hl hstep hr hgone => hinv.2.removes_own hl hstep hr hgone,
    fun e a o ha hstep hnot => Server.exists_not_stays hinv.1 hinv.2 ha hstep hnot⟩

/-- No loop of the uid of an accepted handshake runs, decidably. -/
def Server.alone (s : Server) (e : ServerEvent) : Bool :=
  (s.accepted e).all fun a => s.loops.all fun l => !l.running || decide (l.uid ≠ a.uid)

theorem Server.alone_of (s : Server) (e : ServerEvent) (h : s.alone e = true) : s.Alone e := by
  intro a ha l hl hrun
  unfold alone at h
  rw [ha, Option.all_some] at h
  have := List.all_eq_true.mp h l hl
  simpa [hrun] using this

/-- A second handshake comes when the loop of the first one has ended. -/
theorem stays_iff_again : ∃ s, serverMachine.Reaches Server.Alone s ∧
    s.handshakeMap.get (.ofInt 7) = some 1 ∧ s.Stays := by
  have h : (serverMachine.run Server.alone .ctor
      [.datagram [1] (helloDatagram 7 1) 0 0 0, .tick 0 500, .tick 0 1000, .tick 0 1500,
        .tick 0 2000, .tick 0 2500, .tick 0 3000, .datagram [1] (helloDatagram 7 2) 9 9 9]).any
      (fun s => decide (s.handshakeMap.get (.ofInt 7) = some 1)) = true := by decide +kernel
  obtain ⟨s, hrun, hs⟩ := Option.any_eq_true _ _ |>.mp h
  have hreach := Machine.path_of_run Server.alone_of _ hrun
  exact ⟨s, hreach, of_decide_eq_true hs, (stays_iff hreach).1⟩

/-- The loop of the first handshake removes the second one, half a second after it came. -/
theorem not_stays_overlapping :
    ¬ ∀ s, serverMachine.Reaches Machine.anyStep s → Server.Stays s := by
  intro hall
  have h : (serverMachine.run (fun _ _ => true) .ctor
      [.datagram [1] (helloDatagram 7 1) 0 0 0, .tick 0 500, .tick 0 1000, .tick 0 1500,
        .tick 0 2000, .tick 0 2500, .datagram [1] (helloDatagram 7 2) 2600 2600 2600,
        .tick 0 3000]).any (fun s => decide (s.handshakeMap.get (.ofInt 7) = none ∧
        (s.handshakes.map Handshake.uid) = [.ofInt 7, .ofInt 7] ∧
        s.loops = [⟨.ofInt 7, 0, 6, false⟩, ⟨.ofInt 7, 1, 0, true⟩])) = true := by decide +kernel
  obtain ⟨s, hrun, hs⟩ := Option.any_eq_true _ _ |>.mp h
  obtain ⟨hmap, huids, hloops⟩ := of_decide_eq_true hs
  obtain ⟨g₀, g₁, -, huid, hlist⟩ : ∃ g₀ g₁ : Handshake, g₀.uid = .ofInt 7 ∧ g₁.uid = .ofInt 7 ∧
      s.handshakes = [g₀, g₁] := by
    obtain ⟨g₀, l, hl, h₀, h₁⟩ := List.map_eq_cons_iff.mp huids
    obtain ⟨g₁, rfl, h₂⟩ := List.map_eq_singleton_iff.mp h₁
    exact ⟨g₀, g₁, h₀, h₂, hl⟩
  rcases hall s (Machine.path_of_run (fun _ _ _ => trivial) _ hrun) 1 g₁ (by rw [hlist]; rfl) with
    h₁ | ⟨r', h', hlt, hr', -⟩ | ⟨l, hl, hfork, hsix⟩
  · rw [huid, hmap] at h₁
    exact absurd h₁ (by simp)
  · have := (List.getElem?_eq_some_iff.mp hr').1
    rw [hlist] at this
    exact absurd this (by simpa using hlt)
  · rw [hloops] at hl
    rcases List.mem_cons.mp hl with rfl | hl
    · exact absurd hfork (by simp)
    · rw [List.mem_singleton.mp hl] at hsix
      exact absurd hsix (by simp)

end LuaKcp
