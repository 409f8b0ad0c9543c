import LuaKcp.Ikcp.Transmission
import LuaKcp.Binding.Lkcp
import LuaKcp.Foundations.Machine

/-!
# Retransmission under the clock of `lutil`

`lutil.gettimeofday` cuts the wall clock to 31 bits, and `ikcp.c` compares times of 32 bits through
the sign of their difference. Over the runs of an endpoint that is updated with this clock, every
segment of `snd_buf` has been transmitted, and its time to be sent again is the time of its last
transmission plus the delay chosen then. An update at or after that time which flushes sends it
again exactly when the clock has not wrapped since (`retransmitted_iff`).
-/

namespace LuaKcp

open Ikcp

/-! ## Updates and flushes -/

namespace Ikcp.Ikcpcb

variable (kcp : Ikcpcb)

/-- Whether `ikcp_update` performs a flush: it waits for `ts_flush` when that is less than ten
seconds ahead. -/
def flushesAt (current : U32) : Prop :=
  kcp.updated = 0 ∨ ¬ (-10000 ≤ itimediff current kcp.tsFlush ∧ itimediff current kcp.tsFlush < 0)

instance (current : U32) : Decidable (kcp.flushesAt current) := inferInstanceAs (Decidable (_ ∨ _))

variable {kcp} in
/-- An update that flushes. -/
theorem update_of_flushesAt {current : U32} (h : kcp.flushesAt current) : ∃ ts, kcp.update current =
    ({ kcp with
      current, updated := if kcp.updated = 0 then 1 else kcp.updated, tsFlush := ts }).flush := by
  unfold flushesAt at h
  unfold update
  by_cases hu : kcp.updated = 0
  · have hself : itimediff current current = 0 := by
      rw [itimediff, serialDiff, BitVec.sub_self]
      rfl
    simp only [hu, if_true, hself]
    exact ⟨_, rfl⟩
  · simp only [hu, if_false, false_or, not_and, not_lt] at h ⊢
    by_cases hreset : itimediff current kcp.tsFlush ≥ 10000 ∨ itimediff current kcp.tsFlush < -10000
    · simp only [hreset, if_true, ge_iff_le, le_refl]
      exact ⟨_, rfl⟩
    · have hslap : itimediff current kcp.tsFlush ≥ 0 := h (by omega)
      simp only [hreset, if_false, hslap, if_true]
      exact ⟨_, rfl⟩

variable {kcp} in
/-- An update that does not flush. -/
theorem update_of_not_flushesAt {current : U32} (h : ¬ kcp.flushesAt current) :
    kcp.update current = ({ kcp with current }, []) := by
  unfold flushesAt at h
  obtain ⟨hu, hslap⟩ := not_or.mp h
  obtain ⟨hlow, hneg⟩ := not_not.mp hslap
  unfold update
  have hreset : ¬ (itimediff current kcp.tsFlush ≥ 10000 ∨
      itimediff current kcp.tsFlush < -10000) := by omega
  simp only [hu, if_false, hreset]
  rw [if_neg (by omega)]

end Ikcp.Ikcpcb

/-! ## Runs -/

/-- A data segment handed over: its number, the wall clock, and how far ahead its time to be sent
again was set. -/
structure Transmission where
  sn : U32
  wall : ℕ
  ahead : ℕ
  deriving DecidableEq

/-- An endpoint under the wall clock: its control block, the wall clock of its last update, and the
data segments handed over, the last one first. -/
structure Clocked where
  kcp : Ikcpcb
  wall : ℕ
  log : List Transmission

/-- The calls on an endpoint. -/
inductive ClockedCall
  | send (data : Bytes)
  | recv
  | input (data : Bytes)
  | update (wall : ℕ)

/-- The data segments that an update handed over, from its datagrams and the control block after
it. -/
def transmissions (wall : ℕ) (r : Ikcpcb × List Bytes) : List Transmission :=
  (r.1.sndBuf.filter fun seg => seg.sn ∈ pushedSns r.2).map fun seg =>
    ⟨seg.sn, wall, (seg.resendts - BitVec.ofInt 32 (getms wall)).toNat⟩

namespace Clocked

variable (s : Clocked)

/-- The last transmission of the segment with a number. -/
def last (sn : U32) : Option Transmission := s.log.find? fun t => t.sn = sn

def update (wall : ℕ) : Clocked :=
  let r := s.kcp.lkcpUpdate (getms wall)
  { kcp := r.1, wall := wall, log := transmissions wall r ++ s.log }

/-- A call, the wall clock not going back. -/
def call : ClockedCall → Option Clocked
  | .send data => some { s with kcp := (s.kcp.lkcpSend data).2 }
  | .recv => some { s with kcp := s.kcp.lkcpRecv.2 }
  | .input data => some { s with kcp := (s.kcp.input data).2 }
  | .update wall => if s.wall ≤ wall then some (s.update wall) else none

/-- An update hands over the segment. -/
def Retransmits (wall : ℕ) (seg : Ikcpseg) : Prop :=
  seg.sn ∈ pushedSns (s.kcp.lkcpUpdate (getms wall)).2

instance (wall : ℕ) (seg : Ikcpseg) : Decidable (s.Retransmits wall seg) :=
  inferInstanceAs (Decidable (_ ∈ _))

end Clocked

/-- An endpoint made by `lkcp_create`, `lkcp_wndsize` and `lkcp_nodelay`. -/
def madeWith (conv : U32) (sndwnd rcvwnd nodelay interval resend nc : ℤ) : Ikcpcb :=
  ((create conv).wndsize sndwnd rcvwnd).setNodelay nodelay interval resend nc

/-- An endpoint under the wall clock. -/
def clockedMachine (kcp : Ikcpcb) (wall : ℕ) : Machine Clocked ClockedCall where
  init := ⟨kcp, wall, []⟩
  step := Clocked.call

/-! ## The invariant -/

/-- The segment is sent again at the time of its last transmission plus the delay set then. -/
def Clocked.Scheduled (s : Clocked) (seg : Ikcpseg) : Prop :=
  ∃ t, s.last seg.sn = some t ∧ seg.resendts = BitVec.ofNat 32 (t.wall % 2 ^ 31 + t.ahead)

/-- Every segment of `snd_buf` has been transmitted, and its time is the one set then. -/
structure Clocked.Inv (s : Clocked) : Prop where
  window : ∃ u n is, s.kcp.Window u n is
  short : ∀ seg ∈ s.kcp.sndQueue ++ s.kcp.sndBuf, seg.data.length < 2 ^ 32
  push : ∀ seg ∈ s.kcp.sndBuf, seg.cmd = cmdPush
  scheduled : ∀ seg ∈ s.kcp.sndBuf, s.Scheduled seg

theorem wndRcv_le : wndRcv.toNat ≤ 65535 := by decide

theorem sndBuf_madeWith (conv : U32) (sndwnd rcvwnd nodelay interval resend nc : ℤ) :
    let kcp := madeWith conv sndwnd rcvwnd nodelay interval resend nc
    kcp.sndQueue = [] ∧ kcp.sndBuf = [] ∧ kcp.Window 0 0 [] := by
  have hwnd : ((create conv).wndsize sndwnd rcvwnd).sendSide = (create conv).sendSide ∧
      ((create conv).wndsize sndwnd rcvwnd).pace = (create conv).pace := by
    unfold Ikcpcb.wndsize
    dsimp only
    split_ifs <;> exact ⟨rfl, rfl⟩
  have hnodelay (kcp : Ikcpcb) : (kcp.setNodelay nodelay interval resend nc).sendSide =
      kcp.sendSide ∧ (kcp.setNodelay nodelay interval resend nc).pace = kcp.pace := by
    unfold Ikcpcb.setNodelay
    dsimp only
    split_ifs <;> exact ⟨rfl, rfl⟩
  obtain ⟨hside, hpace⟩ := hnodelay ((create conv).wndsize sndwnd rcvwnd)
  have hside := hside.trans hwnd.1
  have hpace := hpace.trans hwnd.2
  refine ⟨congrArg SendSide.sndQueue hside, congrArg SendSide.sndBuf hside, ?_⟩
  have hwin : (create conv).Window 0 0 [] :=
    ⟨rfl, rfl, rfl, .nil, by simp, le_rfl, by omega, wndRcv_le⟩
  exact hwin.of_sides hpace hside

namespace Clocked.Inv

variable {s : Clocked}

theorem start (conv : U32) (sndwnd rcvwnd nodelay interval resend nc : ℤ) (wall : ℕ) :
    Clocked.Inv ⟨madeWith conv sndwnd rcvwnd nodelay interval resend nc, wall, []⟩ := by
  obtain ⟨hque, hbuf, hwin⟩ := sndBuf_madeWith conv sndwnd rcvwnd nodelay interval resend nc
  refine ⟨⟨0, 0, [], hwin⟩, ?_, ?_, ?_⟩ <;> simp [hque, hbuf]

/-- Segments may be deleted from `snd_buf`. -/
theorem trims (h : s.Inv) {kcp : Ikcpcb} (hk : s.kcp.Trims kcp)
    (hwin : ∃ u n is, kcp.Window u n is) : ({ s with kcp := kcp } : Clocked).Inv := by
  have hold : ∀ seg ∈ kcp.sndBuf, ∃ seg' ∈ s.kcp.sndBuf, timing seg' = timing seg := fun seg hseg =>
    List.mem_map.mp (hk.2.subset (List.mem_map_of_mem hseg))
  refine ⟨hwin, fun seg hseg => ?_, fun seg hseg => ?_, fun seg hseg => ?_⟩
  · rcases List.mem_append.mp hseg with hseg | hseg
    · exact h.short seg (List.mem_append_left _ (hk.1 ▸ hseg))
    · obtain ⟨seg', hseg', he⟩ := hold seg hseg
      obtain ⟨-, -, hdata, -⟩ := eq_of_timing he
      rw [← hdata]
      exact h.short seg' (List.mem_append_right _ hseg')
  · obtain ⟨seg', hseg', he⟩ := hold seg hseg
    obtain ⟨-, hcmd, -⟩ := eq_of_timing he
    exact hcmd.symm.trans (h.push seg' hseg')
  · obtain ⟨seg', hseg', he⟩ := hold seg hseg
    obtain ⟨hsn, -, -, hts⟩ := eq_of_timing he
    obtain ⟨t, ht, hset⟩ := h.scheduled seg' hseg'
    exact ⟨t, by rw [← ht, hsn]; rfl, hts.symm.trans hset⟩

theorem send (h : s.Inv) (data : Bytes) :
    ({ s with kcp := (s.kcp.lkcpSend data).2 } : Clocked).Inv := by
  have hbuf (len : ℤ) : (s.kcp.send data len).2.sndBuf = s.kcp.sndBuf ∧
      (s.kcp.send data len).2.sndNxt = s.kcp.sndNxt := by
    unfold Ikcpcb.send
    dsimp only
    split_ifs <;> exact ⟨rfl, rfl⟩
  obtain ⟨hbuf, hnxt⟩ := hbuf (toInt32 data.length)
  obtain ⟨u, n, is, hwin⟩ := h.window
  refine ⟨⟨u, n, is, hwin.congr (s.kcp.pace_send data _) hnxt (congrArg _ hbuf)⟩,
    fun seg hseg => ?_, fun seg hseg => ?_, fun seg hseg => ?_⟩
  · rcases List.mem_append.mp hseg with hseg | hseg
    · change seg ∈ (s.kcp.send data (toInt32 data.length)).2.sndQueue at hseg
      unfold Ikcpcb.send at hseg
      dsimp only at hseg
      split_ifs at hseg
      · exact h.short seg (List.mem_append_left _ hseg)
      · exact h.short seg (List.mem_append_left _ hseg)
      · rcases List.mem_append.mp hseg with hseg | hseg
        · exact h.short seg (List.mem_append_left _ hseg)
        · have hlen := length_data_of_mem_fragments (List.mem_map_of_mem (f := piece) hseg)
          have := s.kcp.mss.isLt
          exact lt_of_le_of_lt hlen this
    · exact h.short seg (List.mem_append_right _ (hbuf ▸ hseg))
  · exact h.push seg (hbuf ▸ hseg)
  · exact h.scheduled seg (hbuf ▸ hseg)

theorem recv (h : s.Inv) : ({ s with kcp := s.kcp.lkcpRecv.2 } : Clocked).Inv := by
  obtain ⟨u, n, is, hwin⟩ := h.window
  have hside := s.kcp.sendSide_recv recvBufferLen
  exact h.trims (.of_sendSide hside) ⟨u, n, is, hwin.of_sides (s.kcp.pace_recv _) hside⟩

theorem input (h : s.Inv) (data : Bytes) :
    ({ s with kcp := (s.kcp.input data).2 } : Clocked).Inv := by
  obtain ⟨u, n, is, hwin⟩ := h.window
  obtain ⟨u', is', hwin'⟩ := hwin.input data
  exact h.trims (s.kcp.trims_input data) ⟨u', n, is', hwin'⟩

/-- The last transmission of a segment after an update. -/
theorem last_update (s : Clocked) (wall : ℕ) {seg : Ikcpseg}
    (hseg : seg ∈ (s.update wall).kcp.sndBuf)
    (hnodup : ((s.update wall).kcp.sndBuf.map Ikcpseg.sn).Nodup) :
    (s.update wall).last seg.sn = if s.Retransmits wall seg then
        some ⟨seg.sn, wall, (seg.resendts - BitVec.ofInt 32 (getms wall)).toNat⟩
      else s.last seg.sn := by
  have hfind : (s.update wall).last seg.sn =
      ((transmissions wall (s.kcp.lkcpUpdate (getms wall))).find? fun t => t.sn = seg.sn).or
        (s.last seg.sn) := List.find?_append
  rw [hfind]
  by_cases hsent : s.Retransmits wall seg
  · -- the segments of `snd_buf` have different numbers
    have hmem : (⟨seg.sn, wall, (seg.resendts - BitVec.ofInt 32 (getms wall)).toNat⟩ :
        Transmission) ∈ transmissions wall (s.kcp.lkcpUpdate (getms wall)) :=
      List.mem_map.mpr ⟨seg, List.mem_filter.mpr ⟨hseg, decide_eq_true hsent⟩, rfl⟩
    have hsome : ((transmissions wall (s.kcp.lkcpUpdate (getms wall))).find? fun t =>
        t.sn = seg.sn).isSome := List.find?_isSome.mpr ⟨_, hmem, decide_eq_true rfl⟩
    obtain ⟨t, ht⟩ := Option.isSome_iff_exists.mp hsome
    have htsn : t.sn = seg.sn := by simpa using List.find?_some ht
    obtain ⟨seg', hseg', rfl⟩ := List.mem_map.mp (List.mem_of_find?_eq_some ht)
    obtain rfl : seg' = seg :=
      List.inj_on_of_nodup_map hnodup (List.mem_of_mem_filter hseg') hseg htsn
    rw [if_pos hsent, ht]
    rfl
  · have hnone : ((transmissions wall (s.kcp.lkcpUpdate (getms wall))).find? fun t =>
        t.sn = seg.sn) = none := by
      refine List.find?_eq_none.mpr fun t ht htsn => hsent ?_
      obtain ⟨seg', hseg', rfl⟩ := List.mem_map.mp ht
      have := of_decide_eq_true (List.mem_filter.mp hseg').2
      rwa [show seg'.sn = seg.sn from of_decide_eq_true htsn] at this
    rw [if_neg hsent, hnone, Option.none_or]

theorem resendts_eq (wall : ℕ) (resendts : U32) : resendts = BitVec.ofNat 32
    (wall % 2 ^ 31 + (resendts - BitVec.ofInt 32 (getms wall)).toNat) := by
  rw [BitVec.ofNat_add, BitVec.ofNat_toNat, BitVec.setWidth_eq, getms, BitVec.ofInt_natCast]
  rw [BitVec.add_comm, BitVec.sub_add_cancel]

/-- The flush of an update. -/
theorem transmits_update (h : s.Inv) {wall : ℕ}
    (hflush : s.kcp.flushesAt (BitVec.ofInt 32 (getms wall))) :
    ∃ kcp moved,
      Transmits kcp (s.kcp.lkcpUpdate (getms wall)).1 (s.kcp.lkcpUpdate (getms wall)).2 moved ∧
      kcp.sndQueue = s.kcp.sndQueue ∧ kcp.sndBuf = s.kcp.sndBuf ∧
      kcp.current = BitVec.ofInt 32 (getms wall) ∧ kcp.resent = s.kcp.resent := by
  obtain ⟨ts, hupd⟩ := Ikcpcb.update_of_flushesAt hflush
  obtain ⟨u, n, is, hwin⟩ := h.window
  unfold Ikcpcb.lkcpUpdate
  rw [hupd]
  obtain ⟨moved, htransmits⟩ := Ikcpcb.flush_spec { s.kcp with
      current := BitVec.ofInt 32 (getms wall)
      updated := if s.kcp.updated = 0 then 1 else s.kcp.updated
      tsFlush := ts } (by dsimp only; split_ifs with hu; exacts [by decide, hu])
    (hwin.congr rfl rfl rfl) h.short h.push
  exact ⟨_, moved, htransmits, rfl, rfl, rfl, rfl⟩

theorem update (h : s.Inv) (wall : ℕ) : (s.update wall).Inv := by
  by_cases hflush : s.kcp.flushesAt (BitVec.ofInt 32 (getms wall))
  · obtain ⟨kcp, moved, htransmits, hque, hbuf, -, -⟩ := h.transmits_update hflush
    have hafter : (s.update wall).kcp.sndBuf = (s.kcp.sndBuf ++ moved).map kcp.afterFlush := by
      rw [← hbuf]
      exact htransmits.buf
    have hold : ∀ seg ∈ s.kcp.sndBuf ++ moved, seg.cmd = cmdPush ∧ seg.data.length < 2 ^ 32 := by
      intro seg hseg
      rcases List.mem_append.mp hseg with hseg | hseg
      · exact ⟨h.push seg hseg, h.short seg (List.mem_append_right _ hseg)⟩
      · obtain ⟨-, hcmd, q, hq, hdata⟩ := htransmits.fresh seg hseg
        rw [hdata]
        exact ⟨hcmd, h.short q (List.mem_append_left _ (hque ▸ hq))⟩
    refine ⟨htransmits.window, fun seg hseg => ?_, fun seg hseg => ?_, fun seg hseg => ?_⟩
    · rcases List.mem_append.mp hseg with hseg | hseg
      · exact h.short seg (List.mem_append_left _ (hque ▸ htransmits.queue seg hseg))
      · rw [hafter] at hseg
        obtain ⟨seg, hmem, rfl⟩ := List.mem_map.mp hseg
        rw [data_eq_of_content (kcp.content_afterFlush seg)]
        exact (hold seg hmem).2
    · rw [hafter] at hseg
      obtain ⟨seg, hmem, rfl⟩ := List.mem_map.mp hseg
      rw [cmd_eq_of_content (kcp.content_afterFlush seg)]
      exact (hold seg hmem).1
    · obtain ⟨u, n, is, hwin⟩ := htransmits.window
      have hlast := last_update s wall hseg hwin.nodup
      rw [hafter] at hseg
      obtain ⟨seg, hmem, rfl⟩ := List.mem_map.mp hseg
      have hsn := sn_eq_of_content (kcp.content_afterFlush seg)
      have hsent : s.Retransmits wall (kcp.afterFlush seg) ↔ (kcp.transmit seg).isSome := by
        unfold Clocked.Retransmits
        rw [hsn]
        exact htransmits.mem_pushedSns_iff (hbuf ▸ hmem)
      cases htransmit : kcp.transmit seg with
      | some seg' =>
        rw [if_pos (hsent.mpr (by rw [htransmit]; rfl))] at hlast
        exact ⟨_, hlast, resendts_eq wall _⟩
      | none =>
        -- a segment that is not sent was in `snd_buf` before
        rw [if_neg (by rw [hsent, htransmit]; exact Bool.false_ne_true), hsn] at hlast
        have hmem : seg ∈ s.kcp.sndBuf := by
          rcases List.mem_append.mp hmem with hmem | hmem
          · exact hmem
          · have := kcp.isSome_transmit_of_fresh (htransmits.fresh seg hmem).1
            rw [htransmit] at this
            exact absurd this Bool.false_ne_true
        obtain ⟨t, ht, hset⟩ := h.scheduled seg hmem
        have hsame : kcp.afterFlush seg = seg := by
          unfold Ikcpcb.afterFlush
          rw [htransmit]
          rfl
        exact ⟨t, by rw [hsn, hlast, ht], by rw [hsame, hset]⟩
  · have hupd := Ikcpcb.update_of_not_flushesAt hflush
    have hkcp : s.update wall =
        ⟨{ s.kcp with current := BitVec.ofInt 32 (getms wall) }, wall, s.log⟩ := by
      unfold Clocked.update Ikcpcb.lkcpUpdate transmissions
      rw [hupd]
      simp [pushedSns]
    obtain ⟨u, n, is, hwin⟩ := h.window
    rw [hkcp]
    exact ⟨⟨u, n, is, hwin.congr rfl rfl rfl⟩, h.short, h.push, h.scheduled⟩

/-- Every call keeps the invariant. -/
theorem call (h : s.Inv) {e : ClockedCall} {t : Clocked} (hstep : s.call e = some t) : t.Inv := by
  cases e with
  | send data =>
    obtain rfl := Option.some.inj hstep
    exact h.send data
  | recv =>
    obtain rfl := Option.some.inj hstep
    exact h.recv
  | input data =>
    obtain rfl := Option.some.inj hstep
    exact h.input data
  | update wall =>
    unfold Clocked.call at hstep
    dsimp only at hstep
    split_ifs at hstep
    obtain rfl := Option.some.inj hstep
    exact h.update wall

end Clocked.Inv

/-- **Retransmission**: in every run of an endpoint, whatever its parameters, every segment of
`snd_buf` has been transmitted; and an update at or after the time set for it, less than `2 ^ 30`
milliseconds after that transmission, which flushes, sends it again exactly when the clock has not
wrapped since then, or the segment is sent for having been overtaken often enough or for its count
of transmissions having wrapped. -/
theorem retransmitted_iff {conv : U32} {sndwnd rcvwnd nodelay interval resend nc : ℤ} {start : ℕ}
    {s : Clocked} (h : (clockedMachine (madeWith conv sndwnd rcvwnd nodelay interval resend nc)
      start).Reaches Machine.anyStep s) {seg : Ikcpseg} (hseg : seg ∈ s.kcp.sndBuf) :
    ∃ t, s.last seg.sn = some t ∧ ∀ wall, s.wall ≤ wall → t.wall + t.ahead ≤ wall →
      wall < t.wall + 2 ^ 30 → s.kcp.flushesAt (BitVec.ofInt 32 (getms wall)) →
        (s.Retransmits wall seg ↔
          t.wall / 2 ^ 31 = wall / 2 ^ 31 ∨ seg.xmit = 0 ∨ s.kcp.resent ≤ seg.fastack) := by
  have hinv : s.Inv := h.invariant (I := Clocked.Inv)
    (.start conv sndwnd rcvwnd nodelay interval resend nc start)
    fun s e t hs _ hstep => hs.call hstep
  obtain ⟨t, ht, hset⟩ := hinv.scheduled seg hseg
  refine ⟨t, ht, fun wall _ hdue hlate hflush => ?_⟩
  obtain ⟨kcp, moved, htransmits, -, hbuf, hcurrent, hresent⟩ := hinv.transmits_update hflush
  have hmem : seg ∈ kcp.sndBuf ++ moved := List.mem_append_left _ (hbuf ▸ hseg)
  have hdiff : 0 ≤ itimediff kcp.current seg.resendts ↔ t.wall / 2 ^ 31 = wall / 2 ^ 31 := by
    rw [hcurrent, hset, getms, BitVec.ofInt_natCast]
    exact serialDiff_cut hdue (by omega)
  exact (htransmits.mem_pushedSns_iff hmem).trans
    ((kcp.isSome_transmit_iff seg).trans (by rw [hdiff, hresent]))

/-- An endpoint with the parameters of `getKcp`, after some calls. -/
def clockedRun (start : ℕ) (calls : List ClockedCall) : Option Clocked :=
  (clockedMachine (madeWith 1 128 128 0 50 0 1) start).run (fun _ _ => true)
    (clockedMachine (madeWith 1 128 128 0 50 0 1) start).init calls

theorem reaches_clockedRun {start : ℕ} {calls : List ClockedCall} {s : Clocked}
    (h : clockedRun start calls = some s) :
    (clockedMachine (madeWith 1 128 128 0 50 0 1) start).Reaches Machine.anyStep s :=
  Machine.path_of_run (fun _ _ _ => trivial) calls h

/-- A message sent at the time 50 and not acknowledged is sent again at the time 300. -/
theorem retransmitted_iff_early : ∃ start s seg,
    (clockedMachine (madeWith 1 128 128 0 50 0 1) start).Reaches Machine.anyStep s ∧
      seg ∈ s.kcp.sndBuf ∧ s.Retransmits 300 seg := by
  have h : (clockedRun 0 [.update 0, .send [1], .update 50]).any (fun s =>
      s.kcp.sndBuf.any fun seg =>
      decide (s.last seg.sn = some ⟨0, 50, 225⟩ ∧ s.wall ≤ 300 ∧
        s.kcp.flushesAt (BitVec.ofInt 32 (getms 300)))) = true := by decide +kernel
  obtain ⟨s, hrun, hs⟩ := Option.any_eq_true _ _ |>.mp h
  obtain ⟨seg, hseg, hs⟩ := List.any_eq_true.mp hs
  obtain ⟨hlast, hwall, hflush⟩ := of_decide_eq_true hs
  have hreach := reaches_clockedRun hrun
  obtain ⟨t, ht, hiff⟩ := retransmitted_iff hreach hseg
  obtain rfl := Option.some.inj (ht.symm.trans hlast)
  exact ⟨0, s, seg, hreach, hseg,
    (hiff 300 hwall (by norm_num) (by norm_num) hflush).mpr (Or.inl (by norm_num))⟩

/-- A message sent 245 milliseconds before the clock wraps, in a run with an update every 50
milliseconds: it is to be sent again 20 milliseconds before the wrap, and is not sent again by the
update 5 milliseconds after it. -/
def acrossWrap : List ClockedCall :=
  [.update (2 ^ 31 - 295), .send [1], .update (2 ^ 31 - 245), .update (2 ^ 31 - 195),
    .update (2 ^ 31 - 145), .update (2 ^ 31 - 95), .update (2 ^ 31 - 45)]

theorem not_retransmitted_acrossWrap : ¬ ∀ conv start s,
    (clockedMachine (madeWith conv 128 128 0 50 0 1) start).Reaches Machine.anyStep s →
      ∀ seg ∈ s.kcp.sndBuf, ∀ t, s.last seg.sn = some t → ∀ wall, s.wall ≤ wall →
        t.wall + t.ahead ≤ wall → wall < t.wall + 2 ^ 30 →
          s.kcp.flushesAt (BitVec.ofInt 32 (getms wall)) → s.Retransmits wall seg := by
  have h : (clockedRun 0 acrossWrap).any (fun s => s.kcp.sndBuf.any fun seg =>
      decide (s.last seg.sn = some ⟨0, 2 ^ 31 - 245, 225⟩ ∧ s.wall ≤ 2 ^ 31 + 5 ∧
        s.kcp.flushesAt (BitVec.ofInt 32 (getms (2 ^ 31 + 5))) ∧
          ¬ s.Retransmits (2 ^ 31 + 5) seg)) = true := by decide +kernel
  obtain ⟨s, hrun, hs⟩ := Option.any_eq_true _ _ |>.mp h
  obtain ⟨seg, hseg, hs⟩ := List.any_eq_true.mp hs
  obtain ⟨hlast, hwall, hflush, hnot⟩ := of_decide_eq_true hs
  intro hall
  exact hnot (hall 1 0 s (reaches_clockedRun hrun) seg hseg _ hlast (2 ^ 31 + 5) hwall
    (by norm_num) (by norm_num) hflush)

end LuaKcp
