import LuaKcp.Ikcp.Emission
import LuaKcp.Ikcp.Storage
import LuaKcp.Memory.Loops

/-!
# The functions on pointers do what the functions on lists do

`Represents` relates the memory to a control block with lists: the rings hold the segments of the
lists, the counters count them, the other fields agree. Every function of `ikcp.c` keeps the
relation, and returns on pointers what it returns on lists.
-/

namespace LuaKcp.Ikcp

/-- The buffer of `ikcp_flush` takes a unit, a segment with `mss` bytes, and every segment that is
to be sent. -/
structure Ikcpcb.Room (kcp : Ikcpcb) : Prop where
  mtu : kcp.mtu.toNat ≤ kcp.bufferSize
  mss : overhead + kcp.mss.toNat ≤ kcp.bufferSize
  segs : kcp.Carries fun data => overhead + data.length ≤ kcp.bufferSize

theorem Ikcpcb.Room.of_carries {kcp kcp' : Ikcpcb} (h : kcp.Room)
    (hparams : kcp'.params = kcp.params)
    (hsegs : kcp'.Carries fun data => overhead + data.length ≤ kcp.bufferSize) : kcp'.Room := by
  have hmtu : kcp'.mtu = kcp.mtu := congrArg Params.mtu hparams
  have hmss : kcp'.mss = kcp.mss := congrArg Params.mss hparams
  have hsize : kcp'.bufferSize = kcp.bufferSize := by
    unfold bufferSize
    rw [hmtu]
  exact ⟨by rw [hmtu, hsize]; exact h.mtu, by rw [hmss, hsize]; exact h.mss, hsize ▸ hsegs⟩

theorem Ikcpcb.Room.ticked {kcp : Ikcpcb} (h : kcp.Room) (current : U32) :
    (kcp.ticked current).1.Room := by
  have hkeeps : (kcp.ticked current).1.params = kcp.params ∧
      kcp.Trims (kcp.ticked current).1 := by
    unfold Ikcpcb.ticked
    dsimp only
    split_ifs <;> exact ⟨rfl, rfl, List.Sublist.refl _⟩
  exact h.of_carries hkeeps.1 (h.segs.trims hkeeps.2)

namespace Memory

variable {m m' : Memory} {kcp kcp' : Ikcpcb}

/-- The memory of a control block. `rcv_queue` is no longer than a window, which its counter can
count, and an `int` indexes the words of the ack list. -/
structure Represents (m : Memory) (kcp : Ikcpcb) : Prop where
  holds : ∃ E, m.Holds E ∧ ∀ q, (E q).map Prod.snd = kcp.queue q
  cb : m.cb = kcp.bare
  acks : m.acks.Represents kcp.acklist
  buffer : m.buffer = kcp.bufferSize
  mss : kcp.mss ≠ 0
  fits : kcp.rcvQueue.length < 2 ^ 32
  few : kcp.acklist.length ≤ 2 ^ 30

/-- What decides about the blocks that are not segments. -/
def kept (kcp : Ikcpcb) : U32 × U32 × List (U32 × U32) := (kcp.mtu, kcp.mss, kcp.acklist)

namespace Represents

/-- A function that leaves the memory alone. -/
theorem of_queue {cb : Ikcpcb} (h : m.Represents kcp) (hcb : cb = kcp'.bare)
    (hkept : kept kcp' = kept kcp) (hqueue : kcp'.queue = kcp.queue) :
    Represents { m with cb } kcp' := by
  obtain ⟨E, hm, hE⟩ := h.holds
  simp only [kept, Prod.mk.injEq] at hkept
  obtain ⟨hmtu, hmss, hacks⟩ := hkept
  have hrcv : kcp'.rcvQueue = kcp.rcvQueue := congrFun hqueue .rcvQueue
  refine ⟨⟨E, ⟨hm.laid, hm.count⟩, fun q => ?_⟩, hcb, ?_, ?_, hmss ▸ h.mss, hrcv ▸ h.fits,
    hacks ▸ h.few⟩
  · rw [hqueue, hE q]
  · rw [hacks]
    exact h.acks
  · change m.buffer = _
    rw [Ikcpcb.bufferSize, hmtu]
    exact h.buffer

/-- A function that changes queues only. -/
theorem of_fixed {E : Queue → List Entry} (h : m.Represents kcp) (hm : m'.Holds E)
    (hE : ∀ q, (E q).map Prod.snd = kcp'.queue q)
    (hfixed : m'.fixed = (kcp'.bare, m.acks, m.buffer)) (hkept : kept kcp' = kept kcp)
    (hfits : kcp'.rcvQueue.length < 2 ^ 32) : m'.Represents kcp' := by
  simp only [kept, Prod.mk.injEq] at hkept
  simp only [fixed, Prod.mk.injEq] at hfixed
  obtain ⟨hmtu, hmss, hacks⟩ := hkept
  obtain ⟨hcb, hacks', hbuffer⟩ := hfixed
  refine ⟨⟨E, hm, hE⟩, hcb, ?_, ?_, hmss ▸ h.mss, hfits, hacks ▸ h.few⟩
  · rw [hacks, hacks']
    exact h.acks
  · rw [Ikcpcb.bufferSize, hmtu, hbuffer]
    exact h.buffer

theorem fixed_eq (h : m.Represents kcp) : m.fixed = (kcp.bare, m.acks, m.buffer) := by
  rw [fixed, h.cb]

/-- A function that changes one queue. -/
theorem of_update {E : Queue → List Entry} {q : Queue} {cs : List Entry} (h : m.Represents kcp)
    (hm : m'.Holds (Function.update E q cs)) (hE : ∀ q, (E q).map Prod.snd = kcp.queue q)
    (hfixed : m'.fixed = m.fixed) (hcs : cs.map Prod.snd = kcp'.queue q)
    (hother : ∀ q', q' ≠ q → kcp'.queue q' = kcp.queue q') (hbare : kcp'.bare = kcp.bare)
    (hacks : kcp'.acklist = kcp.acklist) (hfits : kcp'.rcvQueue.length < 2 ^ 32) :
    m'.Represents kcp' := by
  have hkept : kept kcp' = kept kcp := by
    have hmtu : kcp'.bare.mtu = kcp.bare.mtu := congrArg Ikcpcb.mtu hbare
    have hmss : kcp'.bare.mss = kcp.bare.mss := congrArg Ikcpcb.mss hbare
    exact Prod.ext hmtu (Prod.ext hmss hacks)
  refine h.of_fixed hm (fun q' => ?_) ?_ hkept hfits
  · by_cases hq : q' = q
    · subst hq
      rw [Function.update_self, hcs]
    · rw [Function.update_of_ne hq, hother q' hq, hE q']
  · rw [hfixed, h.fixed_eq, hbare]

/-- A function on the other fields of the control block. -/
structure Scalar (f : Ikcpcb → Ikcpcb) : Prop where
  bare : ∀ kcp, f kcp.bare = (f kcp).bare
  queue : ∀ kcp, (f kcp).queue = kcp.queue
  kept : ∀ kcp, kept (f kcp) = kept kcp

theorem scalar {f : Ikcpcb → Ikcpcb} (h : m.Represents kcp) (hf : Scalar f) :
    Represents { m with cb := f m.cb } (f kcp) :=
  h.of_queue (by rw [h.cb, hf.bare]) (hf.kept kcp) (hf.queue kcp)

namespace Scalar

variable {f g : Ikcpcb → Ikcpcb}

theorem comp (hg : Scalar g) (hf : Scalar f) : Scalar fun kcp => g (f kcp) :=
  ⟨fun kcp => by rw [hf.bare, hg.bare], fun kcp => (hg.queue _).trans (hf.queue kcp),
    fun kcp => (hg.kept _).trans (hf.kept kcp)⟩

theorem updateAck (rtt : ℤ) : Scalar (·.updateAck rtt) := by
  refine ⟨fun kcp => ?_, fun kcp => ?_, fun kcp => ?_⟩
  · have hsrtt : kcp.bare.rxSrtt = kcp.rxSrtt := rfl
    unfold Ikcpcb.updateAck
    dsimp only
    rw [hsrtt]
    split_ifs <;> rfl
  · unfold Ikcpcb.updateAck
    dsimp only
    split_ifs <;> exact funext fun q => by cases q <;> rfl
  · unfold Ikcpcb.updateAck
    dsimp only
    split_ifs <;> rfl

theorem growCwnd (una : U32) : Scalar (·.growCwnd una) := by
  have hstep : Scalar (·.stepCwnd) := by
    refine ⟨fun kcp => ?_, fun kcp => ?_, fun kcp => ?_⟩
    · unfold Ikcpcb.stepCwnd
      rw [apply_ite Ikcpcb.bare]
      rfl
    · unfold Ikcpcb.stepCwnd
      dsimp only
      split_ifs <;> exact funext fun q => by cases q <;> rfl
    · unfold Ikcpcb.stepCwnd
      dsimp only
      split_ifs <;> rfl
  refine ⟨fun kcp => ?_, fun kcp => ?_, fun kcp => ?_⟩
  · have hfields (kcp : Ikcpcb) : kcp.bare.sndUna = kcp.sndUna ∧ kcp.bare.cwnd = kcp.cwnd ∧
        kcp.bare.rmtWnd = kcp.rmtWnd := ⟨rfl, rfl, rfl⟩
    unfold Ikcpcb.growCwnd
    dsimp only
    rw [hstep.bare, (hfields kcp).1, (hfields kcp).2.1, (hfields kcp).2.2,
      (hfields kcp.stepCwnd).2.1, (hfields kcp.stepCwnd).2.2]
    split_ifs <;> rfl
  · have hqueue := hstep.queue kcp
    unfold Ikcpcb.growCwnd
    dsimp only
    split_ifs
    · exact hqueue ▸ funext fun q => by cases q <;> rfl
    · exact hqueue
    · rfl
  · have hkept := hstep.kept kcp
    unfold Ikcpcb.growCwnd
    dsimp only
    split_ifs
    · exact hkept
    · exact hkept
    · rfl

theorem probeWindow : Scalar (·.probeWindow) := by
  refine ⟨fun kcp => ?_, fun kcp => ?_, fun kcp => ?_⟩
  · have hfields : kcp.bare.rmtWnd = kcp.rmtWnd ∧ kcp.bare.probeWait = kcp.probeWait ∧
        kcp.bare.current = kcp.current ∧ kcp.bare.tsProbe = kcp.tsProbe := ⟨rfl, rfl, rfl, rfl⟩
    unfold Ikcpcb.probeWindow
    rw [hfields.1, hfields.2.1, hfields.2.2.1, hfields.2.2.2]
    split_ifs <;> rfl
  · unfold Ikcpcb.probeWindow
    split_ifs <;> exact funext fun q => by cases q <;> rfl
  · unfold Ikcpcb.probeWindow
    split_ifs <;> rfl

theorem onChange (resent : U32) (change : ℕ) : Scalar (·.onChange resent change) := by
  refine ⟨fun kcp => ?_, fun kcp => ?_, fun kcp => ?_⟩
  · unfold Ikcpcb.onChange
    rw [apply_ite Ikcpcb.bare]
    rfl
  · unfold Ikcpcb.onChange
    split_ifs <;> exact funext fun q => by cases q <;> rfl
  · unfold Ikcpcb.onChange
    split_ifs <;> rfl

theorem onLost (cwnd : U32) (lost : Bool) : Scalar (·.onLost cwnd lost) := by
  refine ⟨fun kcp => ?_, fun kcp => ?_, fun kcp => ?_⟩
  · cases lost <;> rfl
  · cases lost <;> exact funext fun q => by cases q <;> rfl
  · cases lost <;> rfl

theorem minCwnd : Scalar (·.minCwnd) := by
  refine ⟨fun kcp => ?_, fun kcp => ?_, fun kcp => ?_⟩
  · unfold Ikcpcb.minCwnd
    rw [apply_ite Ikcpcb.bare]
    rfl
  · unfold Ikcpcb.minCwnd
    split_ifs <;> exact funext fun q => by cases q <;> rfl
  · unfold Ikcpcb.minCwnd
    split_ifs <;> rfl

theorem bare_ticked (kcp : Ikcpcb) (current : U32) :
    kcp.bare.ticked current = ((kcp.ticked current).1.bare, (kcp.ticked current).2) := by
  have hfields : kcp.bare.updated = kcp.updated ∧ kcp.bare.tsFlush = kcp.tsFlush ∧
      kcp.bare.interval = kcp.interval := ⟨rfl, rfl, rfl⟩
  unfold Ikcpcb.ticked
  dsimp only
  rw [hfields.1, hfields.2.1, hfields.2.2]
  split_ifs <;> rfl

theorem ticked (current : U32) : Scalar fun kcp => (kcp.ticked current).1 := by
  refine ⟨fun kcp => ?_, fun kcp => ?_, fun kcp => ?_⟩
  · rw [bare_ticked]
  · unfold Ikcpcb.ticked
    dsimp only
    split_ifs <;> exact funext fun q => by cases q <;> rfl
  · unfold Ikcpcb.ticked
    dsimp only
    split_ifs <;> rfl

/-- What a flush writes when it is through with `snd_buf`. -/
theorem flushEnd (xmit state resent cwnd : U32) (change : ℕ) (lost : Bool) :
    Scalar fun kcp => ((({ kcp with xmit, state } : Ikcpcb).onChange resent change).onLost cwnd
      lost).minCwnd := by
  have hset : Scalar fun kcp => { kcp with xmit, state } :=
    ⟨fun _ => rfl, fun kcp => funext fun q => by cases q <;> rfl, fun _ => rfl⟩
  exact minCwnd.comp ((onLost cwnd lost).comp ((onChange resent change).comp hset))

end Scalar

/-! ## Acknowledgements -/

theorem shrinkBuf (h : m.Represents kcp) :
    ∃ m', m.shrinkBuf = some m' ∧ m'.Represents kcp.shrinkBuf := by
  obtain ⟨E, hm, hE⟩ := h.holds
  have hfirst := hm.laid.next_head .sndBuf
  have hbuf : (E .sndBuf).map Prod.snd = kcp.sndBuf := hE .sndBuf
  cases hentries : E .sndBuf with
  | nil =>
    rw [hentries] at hfirst hbuf
    refine ⟨{ m with cb := { m.cb with sndUna := m.cb.sndNxt } }, ?_,
      h.of_queue ?_ rfl (funext fun q => by cases q <;> rfl)⟩
    · simp [Memory.shrinkBuf, hfirst]
    · unfold Ikcpcb.shrinkBuf
      rw [← hbuf, h.cb]
      rfl
  | cons e bs =>
    have hne : e.1 ≠ .head .sndBuf := hm.laid.ne_head (by rw [hentries]; simp) _
    have hfront : E .sndBuf = [] ++ e :: bs := hentries
    have hseg := hm.laid.segment hfront
    rw [hentries] at hfirst hbuf
    refine ⟨{ m with cb := { m.cb with sndUna := e.2.sn } }, ?_,
      h.of_queue ?_ rfl (funext fun q => by cases q <;> rfl)⟩
    · simp [Memory.shrinkBuf, hfirst, hne, hseg]
    · unfold Ikcpcb.shrinkBuf
      rw [← hbuf, h.cb]
      rfl

theorem parseUna (h : m.Represents kcp) (una : U32) :
    ∃ m', m.parseUna una = some m' ∧ m'.Represents (kcp.parseUna una) := by
  obtain ⟨E, hm, hE⟩ := h.holds
  obtain ⟨m', cs, hloop, hholds, hfixed, hcs⟩ :=
    unaLoop_spec una hm rfl (hm.laid.lt_rounds .sndBuf)
  refine ⟨m', ?_, h.of_update hholds hE hfixed (by rw [hcs, hE]; rfl) (fun q' hq => ?_) rfl rfl
    h.fits⟩
  · simp only [Memory.parseUna, hm.laid.next_head, Option.bind_eq_bind, Option.bind_some]
    exact hloop
  · cases q' <;> first | rfl | exact absurd rfl hq

theorem parseAck (h : m.Represents kcp) (sn : U32) :
    ∃ m', m.parseAck sn = some m' ∧ m'.Represents (kcp.parseAck sn) := by
  obtain ⟨E, hm, hE⟩ := h.holds
  have hcond : (itimediff sn m.cb.sndUna < 0 ∨ itimediff sn m.cb.sndNxt ≥ 0) ↔
      (itimediff sn kcp.sndUna < 0 ∨ itimediff sn kcp.sndNxt ≥ 0) := by
    rw [h.cb]
    rfl
  unfold Memory.parseAck Ikcpcb.parseAck
  by_cases hout : itimediff sn kcp.sndUna < 0 ∨ itimediff sn kcp.sndNxt ≥ 0
  · rw [if_pos (hcond.mpr hout), if_pos hout]
    exact ⟨m, rfl, h⟩
  · rw [if_neg (mt hcond.mp hout), if_neg hout]
    obtain ⟨m', cs, hloop, hholds, hfixed, hcs⟩ :=
      ackLoop_spec sn hm (List.nil_append _).symm (hm.laid.lt_rounds .sndBuf)
    refine ⟨m', ?_, h.of_update hholds hE hfixed (by rw [List.nil_append, hcs, hE]; rfl)
      (fun q' hq => ?_) rfl rfl h.fits⟩
    · simp only [hm.laid.next_head, Option.bind_eq_bind, Option.bind_some]
      exact hloop
    · cases q' <;> first | rfl | exact absurd rfl hq

/-! ## The receiving side -/

theorem moveAvailable (h : m.Represents kcp) :
    ∃ m', m.moveLoop m.store.rounds = some m' ∧ m'.Represents kcp.moveAvailable := by
  obtain ⟨E, hm, hE⟩ := h.holds
  have hque : (E .rcvQueue).map Prod.snd = kcp.rcvQueue := hE .rcvQueue
  have hbuf : (E .rcvBuf).map Prod.snd = kcp.rcvBuf := hE .rcvBuf
  have hlen : (E .rcvQueue).length < 2 ^ 32 := by
    rw [← List.length_map (f := Prod.snd), hque]
    exact h.fits
  obtain ⟨m', cs, ds, hloop, hholds, hds, hres⟩ :=
    moveLoop_spec hm rfl (hm.laid.lt_rounds .rcvBuf) hlen
  rw [hque, hbuf, h.cb] at hres
  simp only [Prod.mk.injEq] at hres
  obtain ⟨hcs, hds', hfixed⟩ := hres
  refine ⟨m', hloop, h.of_fixed hholds (fun q => ?_) hfixed rfl ?_⟩
  · cases q with
    | sndQueue => exact hE .sndQueue
    | rcvQueue => exact hds'
    | sndBuf => exact hE .sndBuf
    | rcvBuf => exact hcs
  · have hlen' := congrArg List.length hds'
    rw [List.length_map] at hlen'
    exact hlen' ▸ hds

/-- The segment in the program's hands goes into `rcv_buf`, or is freed. -/
theorem parseData {store : Store} {E : Queue → List Entry} {newseg : Entry}
    (h : m.Represents kcp) (hl : Laid store E (some newseg))
    (hcount : ∀ q, m.count q = BitVec.ofNat 32 (E q).length)
    (hE : ∀ q, (E q).map Prod.snd = kcp.queue q) :
    ∃ m', Memory.parseData { m with store } newseg.1 = some m' ∧
      m'.Represents (kcp.parseData newseg.2) := by
  obtain ⟨hseg, -⟩ := hl.inHand newseg rfl
  have hcond : (itimediff newseg.2.sn (m.cb.rcvNxt + m.cb.rcvWnd) ≥ 0 ∨
      itimediff newseg.2.sn m.cb.rcvNxt < 0) ↔
      (itimediff newseg.2.sn (kcp.rcvNxt + kcp.rcvWnd) ≥ 0 ∨
        itimediff newseg.2.sn kcp.rcvNxt < 0) := by
    rw [h.cb]
    rfl
  unfold Memory.parseData Ikcpcb.parseData
  by_cases hout : itimediff newseg.2.sn (kcp.rcvNxt + kcp.rcvWnd) ≥ 0 ∨
      itimediff newseg.2.sn kcp.rcvNxt < 0
  · obtain ⟨s', hfree, hl'⟩ := hl.free
    refine ⟨{ m with store := s' }, ?_, ?_⟩
    · simp only [hseg, if_pos (hcond.mpr hout), hfree, Option.bind_eq_bind, Option.bind_some]
    · rw [if_pos hout]
      exact h.of_fixed ⟨hl', hcount⟩ hE h.fixed_eq rfl h.fits
  · rw [if_neg hout]
    have hbuf : (E .rcvBuf).map Prod.snd = kcp.rcvBuf := hE .rcvBuf
    obtain ⟨rep, p, hsearch, hplace⟩ := searchLoop_spec newseg.2 hl
      (List.append_nil _).symm (hl.lt_rounds .rcvBuf)
    rw [hbuf] at hplace
    rcases hplace with ⟨hrep, hnone⟩ | ⟨hrep, as₁, as₂, hsplit, hp, hsome⟩
    · -- a duplicate
      obtain ⟨s', hfree, hl'⟩ := hl.free
      have hrepr : Represents { m with store := s' } kcp :=
        h.of_fixed ⟨hl', hcount⟩ hE h.fixed_eq rfl h.fits
      obtain ⟨m', hmove, hm'⟩ := hrepr.moveAvailable
      refine ⟨m', ?_, ?_⟩
      · simp only [hseg, if_neg (mt hcond.mp hout), hl.prev_head, hsearch, hrep, if_true, hfree,
          Option.bind_eq_bind, Option.bind_some]
        exact hmove
      · rw [hnone]
        exact hm'
    · obtain ⟨s₁, hinit, hl₁⟩ := hl.init
      obtain ⟨s₂, hadd, hl₂⟩ := hl₁.add hsplit
      have hholds := Holds.incr (m := m) hcount hsplit hl₂
      have hrepr : Represents ({ m with store := s₂ }.incr .rcvBuf)
          { kcp with rcvBuf := (as₁ ++ newseg :: as₂).map Prod.snd } :=
        h.of_update hholds hE rfl rfl
          (fun q' hq => by cases q' <;> first | rfl | exact absurd rfl hq) rfl rfl h.fits
      obtain ⟨m', hmove, hm'⟩ := hrepr.moveAvailable
      refine ⟨m', ?_, ?_⟩
      · simp only [hseg, if_neg (mt hcond.mp hout), hl.prev_head, hsearch, hrep, hp, hinit, hadd,
          Option.bind_eq_bind, Option.bind_some, Bool.false_eq_true, if_false]
        exact hmove
      · rw [hsome]
        dsimp only
        rw [List.reverse_reverse, ← List.map_cons, ← List.map_append]
        exact hm'

theorem inputPush (h : m.Represents kcp) {seg : Ikcpseg} (hdata : seg.data.length < 2 ^ 31)
    (hacks : (kcp.inputPush seg).acklist.length ≤ 2 ^ 30) :
    ∃ m', m.inputPush seg = some m' ∧ m'.Represents (kcp.inputPush seg) := by
  obtain ⟨E, hm, hE⟩ := h.holds
  have hcond : itimediff seg.sn (m.cb.rcvNxt + m.cb.rcvWnd) < 0 ↔
      itimediff seg.sn (kcp.rcvNxt + kcp.rcvWnd) < 0 := by
    rw [h.cb]
    rfl
  have hcond' : itimediff seg.sn m.cb.rcvNxt ≥ 0 ↔
      itimediff seg.sn (kcp.ackPush seg.sn seg.ts).rcvNxt ≥ 0 := by
    rw [h.cb]
    rfl
  rw [Ikcpcb.acklist_inputPush] at hacks
  unfold Memory.inputPush Ikcpcb.inputPush
  by_cases hbelow : itimediff seg.sn (kcp.rcvNxt + kcp.rcvWnd) < 0
  · rw [if_pos hbelow] at hacks
    have hfew : kcp.acklist.length < 2 ^ 31 := h.few.trans_lt (by norm_num)
    obtain ⟨acks, hpush, hacks'⟩ := h.acks.push hfew seg.sn seg.ts
    have hE' (q : Queue) : (E q).map Prod.snd = (kcp.ackPush seg.sn seg.ts).queue q := by
      rw [hE q]
      cases q <;> rfl
    have hpushed : Represents { m with acks } (kcp.ackPush seg.sn seg.ts) :=
      ⟨⟨E, ⟨hm.laid, hm.count⟩, hE'⟩, h.cb, hacks', h.buffer, h.mss, h.fits, hacks⟩
    have hsize : ¬ toInt32 seg.data.length < seg.data.length := by
      rw [toInt32_of_lt hdata]
      exact lt_irrefl _
    simp only [if_pos hbelow, if_pos (hcond.mpr hbelow), hpush, Option.bind_eq_bind,
      Option.bind_some]
    by_cases hnew : itimediff seg.sn (kcp.ackPush seg.sn seg.ts).rcvNxt ≥ 0
    · rw [if_pos hnew, if_pos (hcond'.mpr hnew), if_neg hsize]
      exact hpushed.parseData (hm.laid.malloc seg) hm.count hE'
    · rw [if_neg hnew, if_neg (mt hcond'.mp hnew)]
      exact ⟨_, rfl, hpushed⟩
  · rw [if_neg hbelow, if_neg (mt hcond.mp hbelow)]
    exact ⟨m, rfl, h⟩

theorem inputAck (h : m.Represents kcp) (seg : Ikcpseg) :
    ∃ m', m.inputAck seg = some m' ∧ m'.Represents (kcp.inputAck seg) := by
  have hcurrent : m.cb.current = kcp.current := by
    rw [h.cb]
    rfl
  -- the round trip time counts unless the timestamp is from the future
  have hmeasured : Represents (if itimediff kcp.current seg.ts ≥ 0 then
        { m with cb := m.cb.updateAck (itimediff kcp.current seg.ts) } else m)
      (if itimediff kcp.current seg.ts ≥ 0 then kcp.updateAck (itimediff kcp.current seg.ts)
        else kcp) := by
    split_ifs
    · exact h.scalar (Scalar.updateAck _)
    · exact h
  obtain ⟨m₂, hack, h₂⟩ := hmeasured.parseAck seg.sn
  obtain ⟨m₃, hshrink, h₃⟩ := h₂.shrinkBuf
  refine ⟨m₃, ?_, h₃⟩
  simp only [Memory.inputAck, hcurrent, hack, hshrink, Option.bind_eq_bind, Option.bind_some]

theorem inputSegment (h : m.Represents kcp) {seg : Ikcpseg} (hdata : seg.data.length < 2 ^ 31)
    (hacks : (kcp.inputSegment seg).acklist.length ≤ 2 ^ 30) :
    ∃ m', m.inputSegment seg = some m' ∧ m'.Represents (kcp.inputSegment seg) := by
  have h₀ : Represents { m with cb := { m.cb with rmtWnd := seg.wnd } }
      { kcp with rmtWnd := seg.wnd } := by
    refine h.of_queue ?_ rfl (funext fun q => by cases q <;> rfl)
    rw [h.cb]
    rfl
  obtain ⟨m₁, huna, h₁⟩ := h₀.parseUna seg.una
  obtain ⟨m₂, hshrink, h₂⟩ := h₁.shrinkBuf
  have hpre (f : Memory → Option Memory) :
      ((({ m with cb := { m.cb with rmtWnd := seg.wnd } } : Memory).parseUna seg.una).bind
        fun m => m.shrinkBuf.bind f) = f m₂ := by
    rw [huna, Option.bind_some, hshrink, Option.bind_some]
  unfold Memory.inputSegment
  unfold Ikcpcb.inputSegment at hacks ⊢
  simp only [Option.bind_eq_bind]
  rw [hpre]
  dsimp only at hacks ⊢
  split_ifs at hacks ⊢
  · exact h₂.inputAck seg
  · exact h₂.inputPush hdata hacks
  · refine ⟨_, rfl, h₂.of_queue ?_ rfl (funext fun q => by cases q <;> rfl)⟩
    rw [h₂.cb]
    rfl
  · exact ⟨m₂, rfl, h₂⟩

theorem inputLoop {data : Bytes} (h : m.Represents kcp) (hdata : data.length < 2 ^ 31)
    (hacks : (kcp.inputLoop data).2.acklist.length ≤ 2 ^ 30) :
    ∃ m', m.inputLoop data = some ((kcp.inputLoop data).1, m') ∧
      m'.Represents (kcp.inputLoop data).2 := by
  revert hacks hdata m
  fun_induction Ikcpcb.inputLoop kcp data with
  | case1 kcp data hshort =>
    intro m h hdata hacks
    unfold Memory.inputLoop
    exact ⟨m, if_pos hshort, h⟩
  | case2 kcp data hshort hd =>
    rename_i hother
    intro m h hdata hacks
    have hconv : m.cb.conv = kcp.conv := by rw [h.cb]; rfl
    unfold Memory.inputLoop
    dsimp only
    rw [if_neg hshort, hconv, if_pos hother]
    exact ⟨m, rfl, h⟩
  | case3 kcp data hshort hd len hconv' =>
    rename_i hlen
    intro m h hdata hacks
    have hconv : m.cb.conv = kcp.conv := by rw [h.cb]; rfl
    unfold Memory.inputLoop
    dsimp only
    rw [if_neg hshort, hconv, if_neg hconv', if_pos hlen]
    exact ⟨m, rfl, h⟩
  | case4 kcp data hshort hd len hconv' hlen =>
    rename_i hcmd
    intro m h hdata hacks
    have hconv : m.cb.conv = kcp.conv := by rw [h.cb]; rfl
    unfold Memory.inputLoop
    dsimp only
    rw [if_neg hshort, hconv, if_neg hconv', if_neg hlen, if_pos hcmd]
    exact ⟨m, rfl, h⟩
  | case5 kcp data hshort hd len hconv' hlen hcmd =>
    rename_i ih
    intro m h hdata hacks
    have hconv : m.cb.conv = kcp.conv := by rw [h.cb]; rfl
    have hrest : hd.2.2.length < 2 ^ 31 :=
      (length_decodeHeader data).trans_le (Nat.sub_le _ _) |>.trans_lt hdata
    have hseg : (hd.2.2.take len).length < 2 ^ 31 :=
      (List.length_take_le' len hd.2.2).trans_lt hrest
    obtain ⟨m₁, hseg, h₁⟩ := h.inputSegment hseg
      ((Ikcpcb.length_acklist_inputLoop _ (hd.2.2.drop len)).trans hacks)
    obtain ⟨m', hrest, h'⟩ := ih h₁ (by rw [List.length_drop]; omega) hacks
    refine ⟨m', ?_, h'⟩
    rw [Memory.inputLoop]
    dsimp only
    rw [if_neg hshort, hconv, if_neg hconv', if_neg hlen, if_neg hcmd]
    have hbind := congrArg (fun o => Option.bind o (·.inputLoop (hd.2.2.drop len))) hseg
    exact hbind.trans hrest

theorem input (h : m.Represents kcp) {data : Bytes} (hdata : data.length < 2 ^ 31)
    (hacks : (kcp.input data).2.acklist.length ≤ 2 ^ 30) :
    ∃ m', m.input data = some ((kcp.input data).1, m') ∧ m'.Represents (kcp.input data).2 := by
  unfold Memory.input Ikcpcb.input
  by_cases hshort : data.length < 24
  · rw [if_pos hshort, if_pos hshort]
    exact ⟨m, rfl, h⟩
  · rw [if_neg hshort, if_neg hshort]
    have huna : m.cb.sndUna = kcp.sndUna := by
      rw [h.cb]
      rfl
    have hacks' : (kcp.inputLoop data).2.acklist.length ≤ 2 ^ 30 := by
      unfold Ikcpcb.input at hacks
      rw [if_neg hshort] at hacks
      dsimp only at hacks
      split_ifs at hacks
      · exact hacks
      · rwa [Ikcpcb.acklist_growCwnd] at hacks
    obtain ⟨m', hloop, h'⟩ := h.inputLoop hdata hacks'
    simp only [hloop, Option.bind_eq_bind, Option.bind_some, huna]
    split_ifs
    · exact ⟨m', rfl, h'⟩
    · exact ⟨_, rfl, h'.scalar (Scalar.growCwnd _)⟩

theorem send (h : m.Represents kcp) {buffer : Bytes} {len : ℤ} (hlen : len ≤ buffer.length) :
    ∃ m', m.send buffer len = some ((kcp.send buffer len).1, m') ∧
      m'.Represents (kcp.send buffer len).2 := by
  obtain ⟨E, hm, hE⟩ := h.holds
  have hmss : m.cb.mss = kcp.mss := by
    rw [h.cb]
    rfl
  have hcount : m.cb.sendCount len.toNat = kcp.sendCount len.toNat := by
    rw [h.cb]
    rfl
  unfold Memory.send Ikcpcb.send
  dsimp only
  rw [if_neg (by rw [hmss]; exact h.mss), hcount, hmss]
  split_ifs
  · exact ⟨m, rfl, h⟩
  · exact ⟨m, rfl, h⟩
  · obtain ⟨m', cs, hloop, hholds, hfixed, hcs⟩ := sendLoop_spec kcp.mss.toNat
      (kcp.sendCount len.toNat) len.toNat buffer hm (by omega)
    refine ⟨m', ?_, h.of_update hholds hE hfixed ?_
      (fun q' hq => by cases q' <;> first | rfl | exact absurd rfl hq) rfl rfl h.fits⟩
    · simp only [hloop, Option.bind_eq_bind, Option.bind_some]
    · rw [List.map_append, hcs, hE]
      rfl

/-! ## The user side -/

/-- The counter of `rcv_queue` stands for its length. -/
theorem count_lt (h : m.Represents kcp) (wnd : U32) :
    m.count .rcvQueue < wnd ↔ kcp.nrcvQue < wnd.toNat := by
  obtain ⟨E, hm, hE⟩ := h.holds
  have hlen : (E .rcvQueue).length = kcp.nrcvQue := by
    rw [← List.length_map (f := Prod.snd), hE]
    rfl
  rw [hm.count_lt (by rw [hlen]; exact h.fits), hlen]

theorem isEmpty (h : m.Represents kcp) (q : Queue) :
    m.store.heap.isEmpty (.head q) = some (decide (kcp.queue q = [])) := by
  obtain ⟨E, hm, hE⟩ := h.holds
  rw [hm.laid.isEmpty, ← hE]
  simp

theorem peeksize (h : m.Represents kcp) (hint : kcp.peeksize < 2 ^ 31) :
    m.peeksize = some kcp.peeksize := by
  obtain ⟨E, hm, hE⟩ := h.holds
  have hque : (E .rcvQueue).map Prod.snd = kcp.rcvQueue := hE .rcvQueue
  have hempty := h.isEmpty .rcvQueue
  change _ = some (decide (kcp.rcvQueue = [])) at hempty
  unfold Ikcpcb.peeksize at hint ⊢
  unfold Memory.peeksize
  rw [← hque] at hempty hint ⊢
  cases hentries : E .rcvQueue with
  | nil =>
    rw [hentries] at hempty
    simp [hempty]
  | cons e bs =>
    have hfront : E .rcvQueue = [] ++ e :: bs := hentries
    have hseg := hm.laid.segment hfront
    have hfirst := hm.laid.next_head .rcvQueue
    have hloop := peekLoop_spec 0 hm.laid (List.nil_append _).symm
      (hm.laid.lt_rounds .rcvQueue)
    have hcount := h.count_lt (e.2.frg + 1)
    rw [hentries] at hempty hfirst hloop hint
    rw [first_cons] at hfirst hloop
    rw [List.map_cons] at hint
    simp only [hempty, hfirst, hseg, List.map_cons, Option.bind_eq_bind, Option.bind_some,
      reduceCtorEq, decide_false, Bool.false_eq_true, if_false, hcount]
    dsimp only at hint
    split_ifs at hint ⊢
    · rw [toInt32_of_lt (by omega)]
    · rfl
    · rw [List.map_cons, Nat.zero_add] at hloop
      exact hloop (by omega)

theorem fastRecover (h : m.Represents kcp) (recover : Bool) :
    Represents (m.fastRecover recover) (kcp.fastRecover recover) := by
  have hwnd : m.cb.rcvWnd = kcp.rcvWnd := by
    rw [h.cb]
    rfl
  have hcond : (m.count .rcvQueue < m.cb.rcvWnd ∧ recover = true) ↔
      (kcp.nrcvQue < kcp.rcvWnd.toNat ∧ recover = true) := by
    rw [hwnd, h.count_lt]
  unfold Memory.fastRecover Ikcpcb.fastRecover
  by_cases hopen : kcp.nrcvQue < kcp.rcvWnd.toNat ∧ recover = true
  · rw [if_pos (hcond.mpr hopen), if_pos hopen]
    refine h.of_queue ?_ rfl (funext fun q => by cases q <;> rfl)
    rw [h.cb]
    rfl
  · rw [if_neg (mt hcond.mp hopen), if_neg hopen]
    exact h

/-- The fragments are merged, and freed unless only peeking. -/
theorem merge (h : m.Represents kcp) {block : Option ℕ} (ispeek : Bool)
    (hblock : ∀ size ∈ block, (Ikcp.mergeLoop kcp.rcvQueue).1.length ≤ size)
    (hint : (Ikcp.mergeLoop kcp.rcvQueue).1.length < 2 ^ 31) :
    ∃ p m', m.store.heap.next (.head .rcvQueue) = some p ∧
      mergeLoop block ispeek m.store.rounds p [] 0 m =
        some (received block (Ikcp.mergeLoop kcp.rcvQueue).1,
          ((Ikcp.mergeLoop kcp.rcvQueue).1.length : ℤ), m') ∧
      m'.Represents (kcp.dropMerged ispeek) := by
  obtain ⟨E, hm, hE⟩ := h.holds
  have hque : (E .rcvQueue).map Prod.snd = kcp.rcvQueue := hE .rcvQueue
  have hrounds := hm.laid.lt_rounds .rcvQueue
  have hnil : received block [] = [] := ite_self _
  rw [← hque] at hblock hint
  refine ⟨first .rcvQueue (E .rcvQueue), ?_⟩
  cases ispeek with
  | true =>
    have hloop := mergeLoop_peek [] hm (List.nil_append _).symm hrounds hblock hint
    rw [hque, hnil] at hloop
    exact ⟨m, hm.laid.next_head .rcvQueue, hloop, h⟩
  | false =>
    obtain ⟨m', cs, hloop, hholds, hfixed, hcs⟩ := mergeLoop_spec [] hm rfl hrounds hblock hint
    rw [hque] at hloop hcs
    rw [hnil] at hloop
    refine ⟨m', hm.laid.next_head .rcvQueue, hloop, h.of_update hholds hE hfixed hcs
      (fun q' hq => by cases q' <;> first | rfl | exact absurd rfl hq) rfl rfl ?_⟩
    exact (mergeLoop_suffix kcp.rcvQueue).length_le.trans_lt h.fits

theorem recv (h : m.Represents kcp) {block : Option ℕ} {len : ℤ} (hlow : -(2 ^ 31) < len)
    (hblock : ∀ size ∈ block, |len| ≤ size) (hint : kcp.peeksize < 2 ^ 31) :
    ∃ m', m.recv block len =
        some ((kcp.recv len).1, received block (kcp.recv len).2.1, m') ∧
      m'.Represents (kcp.recv len).2.2 := by
  have hempty := h.isEmpty .rcvQueue
  change _ = some (decide (kcp.rcvQueue = [])) at hempty
  have hnone : received block [] = [] := ite_self _
  have hroom : (if len < 0 then toInt32 (-len) else len) = |len| := by
    split_ifs with hneg
    · have hnat : -len = ((-len).toNat : ℕ) := (Int.toNat_of_nonneg (by omega)).symm
      rw [hnat, toInt32_of_lt (by omega), ← hnat, abs_of_neg hneg]
    · exact (abs_of_nonneg (not_lt.mp hneg)).symm
  unfold Memory.recv Ikcpcb.recv
  simp only [hempty, Option.bind_eq_bind, Option.bind_some, decide_eq_true_eq, h.peeksize hint,
    hroom]
  by_cases hnil : kcp.rcvQueue = []
  · rw [if_pos hnil, if_pos hnil, hnone]
    exact ⟨m, rfl, h⟩
  rw [if_neg hnil, if_neg hnil]
  by_cases hneg : kcp.peeksize < 0
  · rw [if_pos hneg, if_pos hneg, hnone]
    exact ⟨m, rfl, h⟩
  rw [if_neg hneg, if_neg hneg]
  by_cases hsmall : kcp.peeksize > |len|
  · rw [if_pos hsmall, if_pos hsmall, hnone]
    exact ⟨m, rfl, h⟩
  rw [if_neg hsmall, if_neg hsmall]
  have hlength := length_mergeLoop (not_lt.mp hneg)
  obtain ⟨p, m₁, hfirst, hmerge, h₁⟩ := h.merge (len < 0)
    (fun size hsize => by have := hblock size hsize; omega) (by omega)
  obtain ⟨m₂, hmove, h₂⟩ := h₁.moveAvailable
  have hfull : decide (m.count .rcvQueue ≥ m.cb.rcvWnd) =
      decide (kcp.nrcvQue ≥ kcp.rcvWnd.toNat) := by
    have hwnd : m.cb.rcvWnd = kcp.rcvWnd := by
      rw [h.cb]
      rfl
    have hcount := not_congr (h.count_lt kcp.rcvWnd)
    rw [BitVec.not_lt, not_lt] at hcount
    rw [hwnd, decide_eq_decide]
    exact hcount
  refine ⟨m₂.fastRecover _, ?_, h₂.fastRecover _⟩
  simp only [hfirst, hmerge, hlength, hmove, hfull, Option.bind_some, ne_eq, not_true, if_false]

/-! ## Flushing -/

theorem wndUnused (h : m.Represents kcp) : m.wndUnused = kcp.wndUnused := by
  obtain ⟨E, hm, hE⟩ := h.holds
  have hcount : m.count .rcvQueue = BitVec.ofNat 32 kcp.nrcvQue := by
    rw [hm.count, ← List.length_map (f := Prod.snd), hE]
    rfl
  have hwnd : m.cb.rcvWnd = kcp.rcvWnd := by
    rw [h.cb]
    rfl
  have hlt := h.count_lt kcp.rcvWnd
  unfold Memory.wndUnused Ikcpcb.wndUnused
  rw [hwnd]
  by_cases hopen : kcp.nrcvQue < kcp.rcvWnd.toNat
  · rw [if_pos (hlt.mpr hopen), if_pos hopen, hcount]
  · rw [if_neg (mt hlt.mp hopen), if_neg hopen]

theorem moveToBuf (h : m.Represents kcp) (wnd cwnd : U32) :
    ∃ m', m.moveToBuf wnd cwnd m.store.rounds = some m' ∧
      let r := Ikcp.moveToBuf kcp wnd cwnd kcp.sndQueue kcp.sndBuf kcp.sndNxt
      m'.Represents { kcp with sndQueue := r.1, sndBuf := r.2.1, sndNxt := r.2.2 } := by
  obtain ⟨E, hm, hE⟩ := h.holds
  have hque : (E .sndQueue).map Prod.snd = kcp.sndQueue := hE .sndQueue
  have hbuf : (E .sndBuf).map Prod.snd = kcp.sndBuf := hE .sndBuf
  have hcb : m.cb = { kcp.bare with sndNxt := kcp.sndNxt } := h.cb
  obtain ⟨m', cs, ds, hloop, hholds, hres⟩ :=
    moveToBuf_spec wnd cwnd hm hcb rfl (hm.laid.lt_rounds .sndQueue)
  rw [hque, hbuf] at hres
  simp only [Prod.mk.injEq] at hres
  obtain ⟨hcs, hds, hfixed⟩ := hres
  refine ⟨m', hloop, h.of_fixed hholds (fun q => ?_) hfixed rfl h.fits⟩
  cases q with
  | sndQueue => exact hcs
  | rcvQueue => exact hE .rcvQueue
  | sndBuf => exact hds
  | rcvBuf => exact hE .rcvBuf

theorem flushLoop (h : m.Represents kcp) (wnd resent rtomin : U32) (acc : FlushAcc)
    (hmtu : kcp.mtu.toNat ≤ m.buffer)
    (hroom : ∀ seg ∈ kcp.sndBuf, overhead + seg.data.length ≤ m.buffer)
    (hacc : acc.buf.buf.length ≤ m.buffer) :
    ∃ p m', m.store.heap.next (.head .sndBuf) = some p ∧
      flushLoop true wnd resent rtomin m.store.rounds p acc m =
        some ((flushData kcp wnd resent rtomin kcp.sndBuf acc).2, m') ∧
      m'.Represents { kcp with
        sndBuf := (flushData kcp wnd resent rtomin kcp.sndBuf acc).1 } := by
  obtain ⟨E, hm, hE⟩ := h.holds
  have hbuf : (E .sndBuf).map Prod.snd = kcp.sndBuf := hE .sndBuf
  have hroom' : ∀ e ∈ E .sndBuf, overhead + e.2.data.length ≤ m.buffer := fun e he =>
    hroom e.2 (hbuf ▸ List.mem_map_of_mem he)
  obtain ⟨m', cs, hloop, hholds, hfixed, hcs⟩ := flushLoop_spec wnd resent rtomin
    acc hm h.cb (List.nil_append _).symm (hm.laid.lt_rounds .sndBuf) hmtu hroom' hacc
  rw [hbuf] at hloop hcs
  exact ⟨_, m', hm.laid.next_head .sndBuf, hloop, h.of_update hholds hE hfixed hcs
    (fun q' hq => by cases q' <;> first | rfl | exact absurd rfl hq) rfl rfl h.fits⟩

/-- The acknowledgements go out and the probe timer is set. -/
theorem flushAcks (h : m.Represents kcp) (hroom : kcp.Room) :
    m.flushAcks true m.acks.count.toInt.toNat 0 { m.cb.ackSegment with wnd := m.wndUnused }
        ⟨[], []⟩ = some (Ikcp.flushAcks kcp.mtu kcp.acklist kcp.ackSegment ⟨[], []⟩) ∧
      (Ikcp.flushAcks kcp.mtu kcp.acklist kcp.ackSegment ⟨[], []⟩).1.data = [] ∧
      (Ikcp.flushAcks kcp.mtu kcp.acklist kcp.ackSegment ⟨[], []⟩).2.buf.length ≤ m.buffer := by
  have hcount : m.acks.count.toInt.toNat = kcp.acklist.length := by
    have hfew := h.few
    have hcast := toInt32_of_lt (n := kcp.acklist.length) (by omega)
    rw [toInt32, BitVec.ofInt_natCast] at hcast
    rw [h.acks.count, hcast, Int.toNat_natCast]
  have hseg : ({ m.cb.ackSegment with wnd := m.wndUnused } : Ikcpseg) = kcp.ackSegment := by
    rw [h.wndUnused, h.cb]
    rfl
  have hmtu : m.cb.mtu = kcp.mtu := by
    rw [h.cb]
    rfl
  have hacks : m.acks.Represents ([] ++ kcp.acklist) := h.acks
  have hunit : m.cb.mtu.toNat ≤ m.buffer := by
    rw [hmtu, h.buffer]
    exact hroom.mtu
  have hover : overhead ≤ m.buffer := by
    rw [h.buffer]
    exact (Nat.le_add_right _ _).trans hroom.mss
  have hspec := flushAcks_spec (b := ⟨[], []⟩) kcp.ackSegment hacks h.few rfl hunit hover
    (Nat.zero_le _)
  rw [hcount, hseg]
  rwa [hmtu] at hspec

theorem flush (h : m.Represents kcp) (hroom : kcp.Room) :
    ∃ m', m.flush true = some (m', kcp.flush.2) ∧ m'.Represents kcp.flush.1 := by
  have hupdated : m.cb.updated = kcp.updated := by
    rw [h.cb]
    rfl
  by_cases hu : kcp.updated = 0
  · unfold Memory.flush Ikcpcb.flush
    rw [if_pos (hupdated.trans hu), if_pos hu]
    exact ⟨m, rfl, h⟩
  · obtain ⟨hacks, hdata, hlen⟩ := h.flushAcks hroom
    have hcleared : Represents { m with acks := { m.acks with count := 0 } }
        { kcp with acklist := [] } := by
      obtain ⟨E, hm, hE⟩ := h.holds
      refine ⟨⟨E, ⟨hm.laid, hm.count⟩, fun q => ?_⟩, h.cb, h.acks.clear, h.buffer, h.mss, h.fits,
        Nat.zero_le _⟩
      rw [hE q]
      cases q <;> rfl
    have h₁ := hcleared.scalar Scalar.probeWindow
    set m₁ : Memory :=
      { m with acks := { m.acks with count := 0 }, cb := m.cb.probeWindow } with hm₁
    have hmtu₁ : m₁.cb.mtu = kcp.mtu := by
      have hcb : m₁.cb = ({ kcp with acklist := [] } : Ikcpcb).probeWindow.bare := h₁.cb
      rw [hcb]
      exact Ikcpcb.mtu_probeWindow { kcp with acklist := [] }
    obtain ⟨hprobes, hlen₁⟩ := flushProbes_spec (m := m₁) hdata
      (by rw [hmtu₁]; exact h.buffer ▸ hroom.mtu)
      (h.buffer ▸ (Nat.le_add_right _ _).trans hroom.mss) hlen
    have hpreamble : m₁.cb.flushProbes
        (Ikcp.flushAcks kcp.mtu kcp.acklist kcp.ackSegment ⟨[], []⟩).1
        (Ikcp.flushAcks kcp.mtu kcp.acklist kcp.ackSegment ⟨[], []⟩).2 = kcp.preamble := by
      have hcb : m₁.cb = ({ kcp with acklist := [] } : Ikcpcb).probeWindow.bare := h₁.cb
      rw [hcb]
      rfl
    rw [hpreamble] at hprobes hlen₁
    have h₂ : Represents { m₁ with cb := { m₁.cb with probe := 0 } } kcp.probed :=
      h₁.of_queue (by rw [h₁.cb]; rfl) rfl (funext fun q => by cases q <;> rfl)
    have hcwnd : ({ m₁.cb with probe := 0 } : Ikcpcb).flushCwnd = kcp.probed.flushCwnd := by
      have hcb : ({ m₁.cb with probe := 0 } : Ikcpcb) = kcp.probed.bare := h₂.cb
      rw [hcb]
      rfl
    obtain ⟨m₃, hmove, h₃⟩ := h₂.moveToBuf kcp.wndUnused kcp.probed.flushCwnd
    change m₃.Represents kcp.loaded at h₃
    have hmtu₃ : kcp.loaded.mtu = kcp.mtu := Ikcpcb.mtu_probeWindow { kcp with acklist := [] }
    have hbuffer : m₃.buffer = m.buffer := by
      rw [h₃.buffer, h.buffer, Ikcpcb.bufferSize, hmtu₃]
      rfl
    obtain ⟨p, m₄, hfirst, hloop, h₄⟩ := h₃.flushLoop kcp.wndUnused kcp.loaded.resent
      kcp.loaded.rtomin ⟨kcp.preamble, kcp.loaded.xmit, kcp.loaded.state, 0, false⟩
      (by rw [hmtu₃, hbuffer, h.buffer]; exact hroom.mtu)
      (by
        rw [hbuffer, h.buffer]
        exact fun seg hseg => hroom.segs.loaded seg (List.mem_append_right _ hseg))
      (hbuffer ▸ hlen₁)
    change m₄.Represents { kcp.loaded with sndBuf := kcp.flushed.1 } at h₄
    change _ = some (kcp.flushed.2, m₄) at hloop
    have hend := h₄.scalar (Scalar.flushEnd kcp.flushed.2.xmit kcp.flushed.2.state
      kcp.loaded.resent kcp.probed.flushCwnd kcp.flushed.2.change kcp.flushed.2.lost)
    have hfields : m₃.cb.resent = kcp.loaded.resent ∧ m₃.cb.rtomin = kcp.loaded.rtomin ∧
        m₃.cb.xmit = kcp.loaded.xmit ∧ m₃.cb.state = kcp.loaded.state := by
      rw [h₃.cb]
      exact ⟨rfl, rfl, rfl, rfl⟩
    refine ⟨_, ?_, by rw [kcp.flush_eq hu]; exact hend⟩
    have hstart : m.flush true =
        (m.flushAcks true m.acks.count.toInt.toNat 0 { m.cb.ackSegment with wnd := m.wndUnused }
          ⟨[], []⟩).bind fun r =>
        (m₁.flushProbes true r.1 r.2).bind fun probes =>
        (Memory.moveToBuf m.wndUnused ({ m₁.cb with probe := 0 } : Ikcpcb).flushCwnd
          m.store.rounds { m₁ with cb := { m₁.cb with probe := 0 } }).bind fun m₃ =>
        (m₃.store.heap.next (.head .sndBuf)).bind fun p =>
        (Memory.flushLoop true m.wndUnused m₃.cb.resent m₃.cb.rtomin m₃.store.rounds p
          ⟨probes, m₃.cb.xmit, m₃.cb.state, 0, false⟩ m₃).bind fun r =>
        if r.1.buf.buf ≠ [] ∧ true = false then none
        else some ({ r.2 with cb := ((({ r.2.cb with xmit := r.1.xmit, state := r.1.state } :
          Ikcpcb).onChange m₃.cb.resent r.1.change).onLost
            ({ m₁.cb with probe := 0 } : Ikcpcb).flushCwnd r.1.lost).minCwnd },
          r.1.buf.output) := by
      unfold Memory.flush
      rw [if_neg (hupdated ▸ hu)]
      rfl
    rw [hstart, hacks, Option.bind_some, hprobes, Option.bind_some, h.wndUnused, hcwnd]
    change (Memory.moveToBuf kcp.wndUnused kcp.probed.flushCwnd _ _).bind _ = _
    rw [hmove, Option.bind_some, hfirst, Option.bind_some, hfields.1, hfields.2.1,
      hfields.2.2.1, hfields.2.2.2, hloop, Option.bind_some, if_neg (fun h => Bool.noConfusion h.2),
      kcp.flush_eq hu]

theorem update (h : m.Represents kcp) (hroom : kcp.Room) (current : U32) :
    ∃ m', m.update true current = some (m', (kcp.update current).2) ∧
      m'.Represents (kcp.update current).1 := by
  have hticked : m.update true current = if (m.cb.ticked current).2 then
      { m with cb := (m.cb.ticked current).1 }.flush true
      else some ({ m with cb := (m.cb.ticked current).1 }, []) := by
    unfold Memory.update Ikcpcb.ticked
    dsimp only
    split_ifs <;> first | rfl | contradiction
  have hflag : (m.cb.ticked current).2 = (kcp.ticked current).2 := by
    rw [h.cb, Scalar.bare_ticked]
  have hscalar := Scalar.ticked current
  rw [hticked, hflag, kcp.update_ticked]
  split_ifs
  · exact (h.scalar hscalar).flush (hroom.ticked current)
  · exact ⟨_, rfl, h.scalar hscalar⟩

theorem check (h : m.Represents kcp) (current : U32) :
    m.check current = some (kcp.check current) := by
  obtain ⟨E, hm, hE⟩ := h.holds
  have hbuf : (E .sndBuf).map Prod.snd = kcp.sndBuf := hE .sndBuf
  have hloop := checkLoop_spec current 0x7fffffff hm.laid (List.nil_append _).symm
    (hm.laid.lt_rounds .sndBuf)
  rw [hbuf] at hloop
  have hfields : m.cb.updated = kcp.updated ∧ m.cb.tsFlush = kcp.tsFlush ∧
      m.cb.interval = kcp.interval := by
    rw [h.cb]
    exact ⟨rfl, rfl, rfl⟩
  unfold Memory.check Ikcpcb.check
  rw [hfields.1, hfields.2.1, hfields.2.2]
  by_cases hu : kcp.updated = 0
  · rw [if_pos hu, if_pos hu]
  rw [if_neg hu, if_neg hu]
  dsimp only
  generalize (if itimediff current kcp.tsFlush ≥ 10000 ∨ itimediff current kcp.tsFlush < -10000
    then current else kcp.tsFlush) = tsFlush
  by_cases hdue : itimediff current tsFlush ≥ 0
  · rw [if_pos hdue, if_pos hdue]
  · rw [if_neg hdue, if_neg hdue]
    simp only [hm.laid.next_head, hloop, Option.bind_eq_bind, Option.bind_some]
    cases Ikcpcb.checkLoop current kcp.sndBuf 0x7fffffff <;> rfl

end Represents

end Memory

end LuaKcp.Ikcp
