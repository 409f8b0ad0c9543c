import LuaKcp.Ikcp.Probing
import LuaKcp.Session.Acknowledging

/-!
# Two endpoints never get stuck

From every state that two endpoints reach, the messages accepted so far can still be delivered, even
if all that has been handed over before is lost and the clocks do not go back: the receiving end
reads what it has, the sending end transmits its first outstanding segment again when this is due,
and what is told back takes it away (`path_round`); when nothing is outstanding and the window of
the other end was closed, a probe finds it open (`path_open`). The number of the first outstanding
segment rises with every round.
-/

namespace LuaKcp

open Ikcp

/-- An update of an endpoint, followed by a flush if the update makes none, is a flush at any time
chosen. -/
theorem Endpoint.exists_flush (s : Endpoint) (c : U32) : ∃ current u ts,
    BitVec.ofInt 32 current = c ∧ u ≠ 0 ∧
    ((s.call (.update current)).call .flush = (s.tick c u ts).call .flush ∨
      s.call (.update current) = (s.tick c u ts).call .flush) := by
  have hc : BitVec.ofInt 32 (c.toNat : ℤ) = c := by
    rw [BitVec.ofInt_natCast, BitVec.ofNat_toNat, BitVec.setWidth_eq]
  obtain ⟨u, ts, hu, h⟩ := s.kcp.update_flushes c
  refine ⟨c.toNat, u, ts, hc, hu, ?_⟩
  unfold call tick
  dsimp only [Ikcpcb.lkcpUpdate]
  rw [hc]
  rcases h with h | h <;> rw [h]
  · exact Or.inr rfl
  · rw [List.append_nil]
    exact Or.inl rfl

/-- The next message is not complete. -/
def Idle (ms : List Bytes) (read R : ℕ) : Prop :=
  ∀ m, ms[read]? = some m → R < (streamOf (ms.take read)).length + (cutOf m).length

namespace Acks

variable {conv : U32} {s t : Endpoint} {n read R : ℕ} {is kept : List ℕ}

/-- What is before the first outstanding piece is held. -/
theorem held_of_lt (h : Acks conv s t n read R is kept) {i : ℕ} (hi : i < kept.headD n) :
    Held R is i := by
  refine (h.covered i (hi.trans_le h.outstanding.head_le)).resolve_left fun hmem => ?_
  exact absurd (h.outstanding.head_le_of_mem hmem) (not_le.mpr hi)

/-- The pieces taken in go on from those that have been read. -/
theorem receives (h : Acks conv s t n read R is kept) :
    Receives t.kcp.recvSide (streamOf s.accepted) R (streamOf (s.accepted.take read)).length
      is := by
  have haw := h.owes.taking.awaits
  unfold Awaits at haw
  rw [Taking.stream_eq] at haw
  exact haw

/-- **Where reading stops**, the window is open and everything before the first outstanding piece
has been taken in. -/
theorem of_idle (h : Acks conv s t n read R is kept) (hidle : Idle s.accepted read R)
    (hcut : ∀ m ∈ s.accepted, (cutOf m).length ≤ 128) :
    t.kcp.nrcvQue < 128 ∧ kept.headD n ≤ R := by
  have hrec := h.receives
  have hwnd := h.owes.rcvWnd
  have hque := hrec.length_queue
  have hle := hrec.le
  have hlen := hrec.len
  change t.kcp.nrcvQue = _ at hque
  have hR : R < (streamOf (s.accepted.take read)).length + 128 := by
    by_cases hread : read < s.accepted.length
    · have hm := hidle _ (List.getElem?_eq_getElem hread)
      have := hcut _ (List.getElem_mem hread)
      omega
    · rw [List.take_of_length_le (not_lt.mp hread)]
      omega
  refine ⟨by omega, ?_⟩
  have hmin := hrec.le_of_held h.owes.settled
    (T := min (kept.headD n) ((streamOf (s.accepted.take read)).length + 128))
    (by rw [show t.kcp.recvSide.rcvWnd.toNat = 128 from hwnd]; exact min_le_right _ _)
    fun i hi => h.held_of_lt (hi.trans_le (min_le_left _ _))
  omega

/-- The outstanding pieces begin at most a window before the next number. -/
theorem width (h : Acks conv s t n read R is kept) : n ≤ kept.headD n + 128 := by
  have hwidth := h.outstanding.width
  rwa [h.sndWnd] at hwidth

/-- **The first outstanding piece** is taken in when there is room for it, and is owed an
acknowledgement. -/
theorem input_first (h : Acks conv s t n read R is kept) (hn : n < 2 ^ 31)
    (hroom : t.kcp.nrcvQue < 128) (hle : kept.headD n ≤ R) (hlt : kept.headD n < n)
    {segs : List Ikcpseg} (hsegs : ∀ seg ∈ segs, Genuine conv (streamOf s.accepted) n seg)
    {seg : Ikcpseg} (hseg : seg ∈ segs) (hcmd : seg.cmd = cmdPush)
    (hsn : seg.sn = BitVec.ofNat 32 (kept.headD n)) :
    ∃ R' is', Acks conv s (t.call (.input (encodeSegs segs))) n read R' is' kept ∧
      kept.headD n < R' ∧ (t.call (.input (encodeSegs segs))).kcp.acklist ≠ [] := by
  have hwidth := h.width
  obtain ⟨R', is', howes, hR, hheld, hfirst, hacks⟩ :=
    h.owes.input_piece hn hsegs hseg hcmd (by omega) hlt (by omega) hsn
  have h' : Acks conv s (t.call (.input (encodeSegs segs))) n read R' is' kept :=
    h.of_owes howes hheld h.received fun _ hd => Or.inl hd
  refine ⟨R', is', h', ?_, hacks⟩
  rcases Nat.lt_or_ge (kept.headD n) R with hlt | hge
  · omega
  · -- it is the piece expected next, and the queue has room
    have hque := h.receives.length_queue
    have hDR := h.receives.le
    have hwnd : (t.call (.input (encodeSegs segs))).kcp.rcvWnd.toNat = 128 := howes.rcvWnd
    change t.kcp.nrcvQue = _ at hque
    refine h'.receives.le_of_held howes.settled (T := kept.headD n + 1) ?_ fun i hi => ?_
    · change kept.headD n + 1 ≤ _ + (t.call (.input (encodeSegs segs))).kcp.rcvWnd.toNat
      omega
    · rcases Nat.lt_succ_iff_lt_or_eq.mp hi with hi | rfl
      · exact hheld i (Or.inl (by omega))
      · exact hfirst

end Acks

namespace Duplex

variable {conv : U32} {d₀ d d' : Duplex} {x : Side} {n read R : ℕ} {is kept : List ℕ}

/-- What an end has handed over since the state `d₀`. -/
def since (d₀ d : Duplex) (x : Side) : List Bytes := (d x).sent.drop (d₀ x).sent.length

/-- A step of two short endpoints that sends no new message, feeds only what has been handed over
since the state `d₀`, and does not set a clock back. -/
structure Draining (d₀ d : Duplex) (e : Side × EndpointCall) : Prop where
  short : d.Short e
  quiet : ∀ m, e.2 ≠ .send m
  recent : ∀ data, e.2 = .input data → data ∈ since d₀ d e.1.other
  forward : ∀ current, e.2 = .update current →
    0 ≤ itimediff (BitVec.ofInt 32 current) (d e.1).kcp.current

/-- What the ends have accepted can be delivered: it is short, and no message has more fragments
than the receive window. -/
structure Drainable (conv : U32) (d₀ d : Duplex) : Prop where
  acked : d.Acked conv
  sent : ∀ x, (d₀ x).sent <+: (d x).sent
  paced : ∀ x, (d x).kcp.Paced
  short : ∀ x, (streamOf (d x).accepted).length < 2 ^ 31
  cut : ∀ x, ∀ m ∈ (d x).accepted, (cutOf m).length ≤ 128

theorem segments_le (s : Endpoint) : s.segments ≤ (streamOf s.accepted).length := Nat.sub_le _ _

theorem accepted_call_of_ne_send (s : Endpoint) {c : EndpointCall} (hc : ∀ m, c ≠ .send m) :
    (s.call c).accepted = s.accepted := by
  cases c with
  | send m => exact absurd rfl (hc m)
  | recv | input | update | flush => rfl

theorem paced_call {s : Endpoint} (h : s.kcp.Paced) (c : EndpointCall) : (s.call c).kcp.Paced := by
  cases c with
  | send m => exact h.congr (congrArg Prod.fst (s.kcp.waiting_send m _))
  | recv => exact h.congr (congrArg Prod.fst (s.kcp.waiting_recv _))
  | input data => exact h.congr (congrArg Prod.fst (s.kcp.waiting_input data))
  | update current => exact h.update _
  | flush => exact h.flush

theorem sent_call (s : Endpoint) (c : EndpointCall) : s.sent <+: (s.call c).sent := by
  obtain ⟨kcp, -, -, -, hsent⟩ | ⟨-, hsent⟩ := s.call_flushing c
  · exact hsent ▸ List.prefix_append _ _
  · exact hsent ▸ List.prefix_rfl

theorem current_flush (kcp : Ikcpcb) : kcp.flush.1.current = kcp.current := by
  have hend (kcp : Ikcpcb) (resent cwnd : U32) (change : ℕ) (lost : Bool) :
      ((kcp.onChange resent change).onLost cwnd lost).minCwnd.current = kcp.current := by
    unfold Ikcpcb.minCwnd Ikcpcb.onLost Ikcpcb.onChange
    split_ifs <;> rfl
  by_cases hu : kcp.updated = 0
  · unfold Ikcpcb.flush
    rw [if_pos hu]
  · rw [kcp.flush_eq hu, hend]
    exact congrArg Prod.fst kcp.clock_loaded

/-- **One call** at one end. -/
theorem Drainable.path_call (h : Drainable conv d₀ d) (x : Side) {c : EndpointCall}
    (hc : ∀ m, c ≠ .send m) (hfed : ∀ data, c = .input data → data ∈ since d₀ d x.other)
    (htime : ∀ current, c = .update current →
      0 ≤ itimediff (BitVec.ofInt 32 current) (d x).kcp.current) :
    (duplexMachine conv).Path (Draining d₀) d (Function.update d x ((d x).call c)) := by
  have hfed' : c.fedFrom (d x.other).sent := by
    cases c with
    | input data => exact decide_eq_true (List.mem_of_mem_drop (hfed data rfl))
    | _ => rfl
  have hstep : (duplexMachine conv).step d (x, c) =
      some (Function.update d x ((d x).call c)) := if_pos hfed'
  exact .single ⟨fun _ _ y => (segments_le (d y)).trans_lt (h.short y), hc, hfed, htime⟩ hstep

/-- **Reading** at one end. -/
theorem Drainable.path_recv (h : Drainable conv d₀ d) (x : Side) :
    (duplexMachine conv).Path (Draining d₀) d (Function.update d x ((d x).call .recv)) :=
  h.path_call x (by simp) (by simp) (by simp)

/-- **A datagram** handed over since the state `d₀` is fed to the other end. -/
theorem Drainable.path_input (h : Drainable conv d₀ d) (x : Side) {data : Bytes}
    (hdata : data ∈ since d₀ d x.other) :
    (duplexMachine conv).Path (Draining d₀) d (Function.update d x ((d x).call (.input data))) :=
  h.path_call x (by simp) (fun data' hc => EndpointCall.input.inj hc ▸ hdata) (by simp)

/-- What an end hands over now has been handed over since the state `d₀`. -/
theorem Drainable.mem_since (h : Drainable conv d₀ d) {t : Endpoint} (hd' : d' x = t)
    {out : List Bytes} (ht : t.sent = (d x).sent ++ out) {data : Bytes} (hdata : data ∈ out) :
    data ∈ since d₀ d' x := by
  unfold since
  rw [hd', ht, List.drop_append_of_le_length (h.sent x).length_le]
  exact List.mem_append_right _ hdata

theorem Drainable.step (h : Drainable conv d₀ d) {e : Side × EndpointCall}
    (hok : Draining d₀ d e) (hstep : (duplexMachine conv).step d e = some d') :
    Drainable conv d₀ d' ∧ ∀ y, (d' y).accepted = (d y).accepted := by
  have hacked := acked_step h.acked hok.short hstep
  obtain ⟨x, c⟩ := e
  unfold duplexMachine at hstep
  dsimp only at hstep
  split_ifs at hstep
  obtain rfl := Option.some.inj hstep
  have hsame (y : Side) :
      (Function.update d x ((d x).call c) y).accepted = (d y).accepted := by
    rw [Function.update_apply]
    split_ifs with hy
    · rw [hy]
      exact accepted_call_of_ne_send _ hok.quiet
    · rfl
  refine ⟨⟨hacked, fun y => ?_, fun y => ?_, fun y => ?_, fun y => ?_⟩, hsame⟩
  · rw [Function.update_apply]
    split_ifs with hy
    · exact (h.sent y).trans (hy ▸ sent_call (d x) c)
    · exact h.sent y
  · rw [Function.update_apply]
    split_ifs
    · exact paced_call (h.paced x) c
    · exact h.paced y
  · rw [hsame]
    exact h.short y
  · rw [hsame]
    exact h.cut y

/-- **Runs without new messages** keep what can be delivered. -/
theorem Drainable.of_path (h : Drainable conv d₀ d)
    (hpath : (duplexMachine conv).Path (Draining d₀) d d') :
    Drainable conv d₀ d' ∧ ∀ y, (d' y).accepted = (d y).accepted := by
  refine hpath.invariant
    (I := fun d' => Drainable conv d₀ d' ∧ ∀ y, (d' y).accepted = (d y).accepted)
    (fun d₁ e d₂ h₁ hok hstep => ?_) ⟨h, fun _ => rfl⟩
  obtain ⟨h₂, hsame⟩ := h₁.1.step hok hstep
  exact ⟨h₂, fun y => (hsame y).trans (h₁.2 y)⟩

/-- **A flush at any time** at one end that is not before the last one. -/
theorem Drainable.path_flush (h : Drainable conv d₀ d) (x : Side) {c : U32}
    (hc : 0 ≤ itimediff c (d x).kcp.current) : ∃ u ts, u ≠ 0 ∧
    (duplexMachine conv).Path (Draining d₀) d
      (Function.update d x (((d x).tick c u ts).call .flush)) := by
  obtain ⟨current, u, ts, hcurrent, hu, he⟩ := (d x).exists_flush c
  refine ⟨u, ts, hu, ?_⟩
  have h₁ := h.path_call x (c := .update current) (by simp) (by simp) fun current' hc' => by
    rwa [← EndpointCall.update.inj hc', hcurrent]
  rcases he with he | he
  · have h₂ := (h.of_path h₁).1.path_call x (c := .flush) (by simp) (by simp) (by simp)
    rw [Function.update_self, Function.update_idem, he] at h₂
    exact h₁.trans h₂
  · rwa [he] at h₁

/-! ## Reading -/

/-- **The receiving end reads what it has.** -/
theorem Drainable.path_read (h : Drainable conv d₀ d)
    (hx : Acks conv (d x) (d x.other) n read R is kept) :
    ∃ d' read' R' is', (duplexMachine conv).Path (Draining d₀) d d' ∧ d' x = d x ∧
      Acks conv (d x) (d' x.other) n read' R' is' kept ∧ Idle (d x).accepted read' R' ∧
      ∀ ask, (d x.other).kcp.probe &&& ask ≠ 0 → (d' x.other).kcp.probe &&& ask ≠ 0 := by
  obtain ⟨left, hleft⟩ : ∃ left, (d x).accepted.length - read = left := ⟨_, rfl⟩
  induction left generalizing d read R is with
  | zero =>
    refine ⟨d, read, R, is, .refl d, rfl, hx, fun m hm => ?_, fun _ => id⟩
    have hlt := (List.getElem?_eq_some_iff.mp hm).1
    omega
  | succ left ih =>
    rcases hx.recv_receiver with ⟨-, hidle⟩ | ⟨R₁, is₁, hx₁, -⟩
    · exact ⟨d, read, R, is, .refl d, rfl, hx, hidle, fun _ => id⟩
    · have hpath := h.path_recv x.other
      set d₁ := Function.update d x.other ((d x.other).call .recv)
      have hother : d₁ x.other = (d x.other).call .recv := Function.update_self ..
      have hsame : d₁ x = d x := Function.update_of_ne x.other_ne.symm ..
      obtain ⟨d', read', R', is', hpath', hsame', hx', hidle, hprobe⟩ :=
        ih (h.of_path hpath).1 (by rw [hsame, hother]; exact hx₁) (by rw [hsame]; omega)
      rw [hsame] at hsame' hx' hidle
      refine ⟨d', read', R', is', hpath.trans hpath', hsame', hx', hidle, fun ask hask => ?_⟩
      refine hprobe ask ?_
      rw [hother]
      exact (d x.other).kcp.probe_recv hask _

/-! ## A round trip -/

theorem Drainable.lt (h : Drainable conv d₀ d) (hx : Acks conv (d x) (d x.other) n read R is kept) :
    n < 2 ^ 31 := by
  have hseg := (segments_le (d x)).trans_lt (h.short x)
  rwa [hx.segments_eq] at hseg

/-- **A segment that is due** is transmitted, and maybe some more are numbered. -/
theorem Drainable.path_resend_due (h : Drainable conv d₀ d)
    (hx : Acks conv (d x) (d x.other) n read R is kept) {seg : Ikcpseg}
    (hseg : seg ∈ (d x).kcp.sndBuf) {c : U32} (hc : 0 ≤ itimediff c (d x).kcp.current)
    (hdue : (((d x).tick c 0 0).kcp.transmit seg).isSome) :
    ∃ d' k, (duplexMachine conv).Path (Draining d₀) d d' ∧ d' x.other = d x.other ∧
      Acks conv (d' x) (d' x.other) (n + k) read R is (kept ++ List.range' n k) ∧
      ∃ data ∈ since d₀ d' x, ∃ seg' ∈ decodeSegs data, seg'.cmd = cmdPush ∧ seg'.sn = seg.sn := by
  obtain ⟨u, ts, hu, hp⟩ := h.path_flush x hc
  have hs : Acks conv ((d x).tick c u ts) (d x.other) n read R is kept := hx.tick_sender c u ts
  obtain ⟨data, hdata, hsent⟩ :=
    Ikcpcb.mem_flush_of_transmit hu hs.sending.sends hs.fits hseg hdue
  obtain ⟨k, -, hx', -⟩ := hs.flush_sender hu
  refine ⟨_, k, hp, Function.update_of_ne x.other_ne .., ?_, data,
    h.mem_since (Function.update_self ..) rfl hdata, hsent⟩
  rw [Function.update_self, Function.update_of_ne x.other_ne]
  exact hx'

/-- **An outstanding segment is transmitted** when its time has come; if that is half the clock
away, it is not transmitted, or is for another reason, at a flush before. -/
theorem Drainable.path_resend (h : Drainable conv d₀ d)
    (hx : Acks conv (d x) (d x.other) n read R is kept) {seg : Ikcpseg}
    (hseg : seg ∈ (d x).kcp.sndBuf) :
    ∃ d' k, (duplexMachine conv).Path (Draining d₀) d d' ∧ d' x.other = d x.other ∧
      Acks conv (d' x) (d' x.other) (n + k) read R is (kept ++ List.range' n k) ∧
      ∃ data ∈ since d₀ d' x, ∃ seg' ∈ decodeSegs data, seg'.cmd = cmdPush ∧ seg'.sn = seg.sn := by
  have hdue (s : Endpoint) {c : U32} (hc : 0 ≤ itimediff c seg.resendts) :
      ((s.tick c 0 0).kcp.transmit seg).isSome :=
    ((s.tick c 0 0).kcp.isSome_transmit_iff seg).mpr (Or.inl hc)
  rcases serialDiff_reached (by norm_num) (d x).kcp.current seg.resendts with
    hnow | htime | ⟨-, htime, hstep⟩
  · exact h.path_resend_due hx hseg (serialDiff_self _).ge (hdue _ hnow)
  · exact h.path_resend_due hx hseg htime (hdue _ (serialDiff_self _).ge)
  by_cases hearly : (((d x).tick ((d x).kcp.current + 1) 0 0).kcp.transmit seg).isSome
  · exact h.path_resend_due hx hseg hstep hearly
  obtain ⟨u, ts, hu, hp₁⟩ := h.path_flush x hstep
  set s := (d x).tick ((d x).kcp.current + 1) u ts with hs
  set d₁ := Function.update d x (s.call .flush)
  have hd₁x : d₁ x = s.call .flush := Function.update_self ..
  have hd₁y : d₁ x.other = d x.other := Function.update_of_ne x.other_ne ..
  obtain ⟨k, -, hx₁, -⟩ := (hx.tick_sender ((d x).kcp.current + 1) u ts).flush_sender hu
  rw [← hs, ← hd₁x, ← hd₁y] at hx₁
  -- the segment stays as it was
  have hkept : s.kcp.afterFlush seg = seg := by
    have hnone : s.kcp.transmit seg = none := Option.not_isSome_iff_eq_none.mp hearly
    unfold Ikcpcb.afterFlush
    rw [hnone, Option.getD_none]
  have hseg₁ : seg ∈ (d₁ x).kcp.sndBuf := by
    have hbuf : (s.call .flush).kcp.sndBuf = _ := s.kcp.sndBuf_flush hu
    rw [hd₁x, hbuf, ← hkept]
    exact List.mem_map_of_mem (s.kcp.mem_loaded_of_mem hseg)
  have hcurrent : (d₁ x).kcp.current = (d x).kcp.current + 1 := by
    rw [hd₁x]
    exact current_flush s.kcp
  obtain ⟨d₂, k₂, hp₂, hsame, hx₂, hsent⟩ := (h.of_path hp₁).1.path_resend_due hx₁ hseg₁
    (by rw [hcurrent]; exact htime) (hdue _ (serialDiff_self _).ge)
  rw [List.append_assoc, List.range'_append_1, Nat.add_assoc] at hx₂
  exact ⟨d₂, k + k₂, hp₁.trans hp₂, hsame.trans hd₁y, hx₂, hsent⟩

/-- **The first outstanding segment is transmitted** and taken in by the other end, which owes an
acknowledgement then. -/
theorem Drainable.path_transmit (h : Drainable conv d₀ d)
    (hx : Acks conv (d x) (d x.other) n read R is kept) (hne : kept ≠ []) :
    ∃ d' n' read' R' is' kept', (duplexMachine conv).Path (Draining d₀) d d' ∧
      Acks conv (d' x) (d' x.other) n' read' R' is' kept' ∧ kept.headD n < R' ∧
      (d' x.other).kcp.acklist ≠ [] := by
  obtain ⟨d₁, read₁, R₁, is₁, hp₁, hsame₁, hx₁, hidle, -⟩ := h.path_read hx
  have h₁ := (h.of_path hp₁).1
  rw [← hsame₁] at hx₁ hidle
  obtain ⟨hque, hle⟩ := hx₁.of_idle hidle (h₁.cut x)
  have hfirst : kept.headD n ∈ kept := by
    obtain ⟨u, rest, rfl⟩ := List.exists_cons_of_ne_nil hne
    exact List.mem_cons_self
  -- the segment at the head of `snd_buf`
  obtain ⟨seg, hseg, hsn⟩ :
      ∃ seg ∈ (d₁ x).kcp.sndBuf, seg.sn = BitVec.ofNat 32 (kept.headD n) := by
    have hmem : BitVec.ofNat 32 (kept.headD n) ∈ (d₁ x).kcp.sndBuf.map Ikcpseg.sn := by
      rw [hx₁.outstanding.sns]
      exact List.mem_map_of_mem hfirst
    exact List.mem_map.mp hmem
  obtain ⟨d₂, k, hp₂, hsame₂, hx₂, data, hdata, seg', hseg', hcmd', hsn'⟩ :=
    h₁.path_resend hx₁ hseg
  have h₂ := (h₁.of_path hp₂).1
  obtain ⟨segs, rfl, hsegs, hdecode⟩ := hx₂.genuine (List.mem_of_mem_drop hdata)
  rw [hdecode] at hseg'
  obtain ⟨seg₀, hseg₀, rfl⟩ := List.mem_map.mp hseg'
  have hcmd₀ : seg₀.cmd = cmdPush := by
    rwa [(hsegs seg₀ hseg₀).sendable.cmd.onWire] at hcmd'
  -- the other end takes it in
  have hfed : encodeSegs segs ∈ since d₀ d₂ x.other.other := by
    rw [Side.other_other]
    exact hdata
  have hp₃ := h₂.path_input x.other hfed
  have hhead := Ikcpcb.Outstanding.headD_append_range' kept n k
  have hlt := hx₁.outstanding.bounds _ hfirst
  obtain ⟨R₃, is₃, hx₃, hR₃, hacks⟩ := hx₂.input_first (h₂.lt hx₂) (by rw [hsame₂]; exact hque)
    (by rw [hhead]; exact hle) (by rw [hhead]; omega) hsegs hseg₀ hcmd₀
    (by rw [hhead]; exact hsn'.trans hsn)
  rw [hhead] at hR₃
  refine ⟨_, n + k, read₁, R₃, is₃, kept ++ List.range' n k, hp₁.trans (hp₂.trans hp₃), ?_, hR₃, ?_⟩
  · rw [Function.update_self, Function.update_of_ne x.other_ne.symm]
    exact hx₃
  · rw [Function.update_self]
    exact hacks

/-- **The receiving end tells** what it holds, and the sending end is fed one of the datagrams. -/
theorem Drainable.path_tell (h : Drainable conv d₀ d)
    (hx : Acks conv (d x) (d x.other) n read R is kept) : ∃ u ts, u ≠ 0 ∧
      ∀ data ∈ ((d x.other).tick (d x.other).kcp.current u ts).kcp.flush.2, ∃ d' segs kept',
        (duplexMachine conv).Path (Draining d₀) d d' ∧ d' x = (d x).call (.input data) ∧
        Acks conv (d' x) (d' x.other) n read R is kept' ∧ kept'.Sublist kept ∧
        data = encodeSegs segs ∧ (∀ seg ∈ segs, Sendable conv seg) ∧
        decodeSegs data = segs.map onWire ∧
        ∀ seg ∈ segs, ∀ a ≤ n, seg.una = BitVec.ofNat 32 a → ∀ i ∈ kept', a ≤ i := by
  obtain ⟨u, ts, hu, hp₁⟩ := h.path_flush x.other (serialDiff_self (d x.other).kcp.current).ge
  refine ⟨u, ts, hu, fun data hdata => ?_⟩
  have h₁ := (h.of_path hp₁).1
  set t := (d x.other).tick (d x.other).kcp.current u ts
  set d₁ := Function.update d x.other (t.call .flush)
  have hd₁y : d₁ x.other = t.call .flush := Function.update_self ..
  have hd₁x : d₁ x = d x := Function.update_of_ne x.other_ne.symm ..
  -- the flush is one of the receiving end
  obtain ⟨m, read', R', is', kept', hy⟩ := h.acked x.other
  have hback : Sending conv t.kcp t.accepted m t.sent := (hy.tick_sender _ u ts).sending
  have hx₁ : Acks conv (d₁ x) (d₁ x.other) n read R is kept := by
    rw [hd₁x, hd₁y]
    exact (hx.tick_receiver _ u ts).flush_receiver hback
  have hrecent : data ∈ since d₀ d₁ x.other := h.mem_since hd₁y rfl hdata
  have hsent := List.mem_of_mem_drop hrecent
  obtain ⟨m', read₁, R₁, is₁, kept₁, hy₁⟩ := h₁.acked x.other
  obtain ⟨segs, rfl, hsegs, hdecode⟩ := hy₁.genuine hsent
  have hsend : ∀ seg ∈ segs, Sendable conv seg := fun seg hseg => (hsegs seg hseg).sendable
  obtain ⟨kept₂, hx₂, hsub, huna⟩ := hx₁.input_sender (h₁.lt hx₁) hsend hsent
  have hp₂ := h₁.path_input x hrecent
  refine ⟨_, segs, kept₂, hp₁.trans hp₂, ?_, ?_, hsub, rfl, hsend, hdecode, huna⟩
  · rw [Function.update_self, hd₁x]
  · rw [Function.update_self, Function.update_of_ne x.other_ne]
    exact hx₂

/-- **What is owed an acknowledgement** is told, and no longer outstanding then. -/
theorem Drainable.path_answer (h : Drainable conv d₀ d)
    (hx : Acks conv (d x) (d x.other) n read R is kept)
    (hne : (d x.other).kcp.acklist ≠ []) :
    ∃ d' kept', (duplexMachine conv).Path (Draining d₀) d d' ∧
      Acks conv (d' x) (d' x.other) n read R is kept' ∧ R ≤ kept'.headD n := by
  obtain ⟨m, read', R', is', kept', hy⟩ := h.acked x.other
  obtain ⟨u, ts, hu, htell⟩ := h.path_tell hx
  have ht := hy.tick_sender (d x.other).kcp.current u ts
  obtain ⟨data, hdata, seg, hseg, huna⟩ :=
    Ikcpcb.mem_flush_of_acklist hu ht.sending.sends ht.fits hne
  obtain ⟨d', segs, kept', hpath, -, hx', -, rfl, -, hdecode, hall⟩ := htell data hdata
  rw [hdecode] at hseg
  obtain ⟨seg₀, hseg₀, rfl⟩ := List.mem_map.mp hseg
  have hR : R ≤ n := hx.owes.taking.bound
  have hafter := hall seg₀ hseg₀ R hR (huna.trans hx.owes.recv_eq)
  refine ⟨d', kept', hpath, hx', ?_⟩
  cases kept' with
  | nil => exact hR
  | cons i kept' => exact hafter i List.mem_cons_self

/-- **A round trip** takes the first outstanding segment away. -/
theorem Drainable.path_round (h : Drainable conv d₀ d)
    (hx : Acks conv (d x) (d x.other) n read R is kept) (hne : kept ≠ []) :
    ∃ d' n' read' R' is' kept', (duplexMachine conv).Path (Draining d₀) d d' ∧
      Acks conv (d' x) (d' x.other) n' read' R' is' kept' ∧ kept.headD n < kept'.headD n' := by
  obtain ⟨d₁, n₁, read₁, R₁, is₁, kept₁, hp₁, hx₁, hlt, hacks⟩ := h.path_transmit hx hne
  obtain ⟨d₂, kept₂, hp₂, hx₂, hle⟩ := (h.of_path hp₁).1.path_answer hx₁ hacks
  exact ⟨d₂, n₁, read₁, R₁, is₁, kept₂, hp₁.trans hp₂, hx₂, hlt.trans_le hle⟩

/-! ## Opening the window -/

/-- **The sending end flushes**: nothing changes at the other end, and either a piece is outstanding
then or the numbers are the same. -/
theorem Drainable.path_flush_sender (h : Drainable conv d₀ d)
    (hx : Acks conv (d x) (d x.other) n read R is []) {c : U32}
    (hc : 0 ≤ itimediff c (d x).kcp.current) : ∃ u ts d', u ≠ 0 ∧
      (duplexMachine conv).Path (Draining d₀) d d' ∧ d' x = ((d x).tick c u ts).call .flush ∧
      d' x.other = d x.other ∧
      ((∃ n' kept', Acks conv (d' x) (d' x.other) n' read R is kept' ∧ kept' ≠ [] ∧
          kept'.headD n' = n) ∨
        (Acks conv (d' x) (d' x.other) n read R is [] ∧
          ((d x).kcp.sndQueue ≠ [] → ((d x).tick c u ts).kcp.probed.flushCwnd.toNat = 0))) := by
  obtain ⟨u, ts, hu, hp⟩ := h.path_flush x hc
  obtain ⟨k, -, hx', hpos⟩ := (hx.tick_sender c u ts).flush_sender hu
  have hd'x : Function.update d x (((d x).tick c u ts).call .flush) x =
      ((d x).tick c u ts).call .flush := Function.update_self ..
  have hd'y : Function.update d x (((d x).tick c u ts).call .flush) x.other = d x.other :=
    Function.update_of_ne x.other_ne ..
  refine ⟨u, ts, _, hu, hp, hd'x, hd'y, ?_⟩
  rw [hd'x, hd'y]
  cases k with
  | zero =>
    refine Or.inr ⟨hx', fun hque => ?_⟩
    by_contra hne
    exact absurd (hpos hque (by simpa using Nat.pos_of_ne_zero hne)) (lt_irrefl 0)
  | succ k => exact Or.inl ⟨_, _, hx', by simp, rfl⟩

/-- The window of a flush is open when that of the remote is. -/
theorem flushCwnd_pos {s t : Endpoint} (hx : Acks conv s t n read R is kept) (c u ts : U32)
    (hrmt : s.kcp.rmtWnd ≠ 0) : (s.tick c u ts).kcp.probed.flushCwnd.toNat ≠ 0 := by
  set kcp := (s.tick c u ts).kcp.probed with hkcp
  have hset : kcp.settings = (configured conv).settings :=
    ((s.tick c u ts).kcp.settings_probed).trans hx.settings
  have hnocwnd : kcp.nocwnd = 1 := congrArg Ikcpcb.Settings.nocwnd hset
  have hsnd : kcp.sndWnd = 128 := congrArg Ikcpcb.Settings.sndWnd hset
  have hpace : kcp.rmtWnd = s.kcp.rmtWnd := congrArg Prod.snd (s.tick c u ts).kcp.pace_probed
  intro h0
  have hzero : kcp.flushCwnd = 0 := BitVec.eq_of_toNat_eq h0
  unfold Ikcpcb.flushCwnd imin at hzero
  dsimp only at hzero
  rw [hnocwnd, hsnd, hpace, if_neg (by decide)] at hzero
  split_ifs at hzero
  · exact absurd hzero (by decide)
  · exact hrmt hzero

/-- **With the window open**, a piece that waits in the queue becomes outstanding. -/
theorem Drainable.path_fill (h : Drainable conv d₀ d)
    (hx : Acks conv (d x) (d x.other) n read R is []) (hque : (d x).kcp.sndQueue ≠ [])
    (hrmt : (d x).kcp.rmtWnd ≠ 0) :
    ∃ d' n' kept', (duplexMachine conv).Path (Draining d₀) d d' ∧
      Acks conv (d' x) (d' x.other) n' read R is kept' ∧ kept' ≠ [] ∧ kept'.headD n' = n := by
  obtain ⟨u, ts, d', hu, hp, -, -, ⟨n', kept', hx', hne, hhead⟩ | ⟨-, hclosed⟩⟩ :=
    h.path_flush_sender hx (serialDiff_self (d x).kcp.current).ge
  · exact ⟨d', n', kept', hp, hx', hne, hhead⟩
  · exact absurd (hclosed hque) (flushCwnd_pos hx _ u ts hrmt)

/-- **A window probe** is answered with the window, which is open when the other end has read what
it has. -/
theorem Drainable.path_probe (h : Drainable conv d₀ d)
    (hx : Acks conv (d x) (d x.other) n read R is [])
    (htell : (d x.other).kcp.probe &&& askTell ≠ 0) :
    ∃ d' read' R' is', (duplexMachine conv).Path (Draining d₀) d d' ∧
      Acks conv (d' x) (d' x.other) n read' R' is' [] ∧ (d' x).kcp.rmtWnd ≠ 0 := by
  obtain ⟨d₁, read₁, R₁, is₁, hp₁, hsame₁, hx₁, hidle, hprobe⟩ := h.path_read hx
  have h₁ := (h.of_path hp₁).1
  rw [← hsame₁] at hx₁ hidle
  have hroom := (hx₁.of_idle hidle (h₁.cut x)).1
  obtain ⟨u, ts, hu, hpath⟩ := h₁.path_tell hx₁
  obtain ⟨m, read', R', is', kept', hy⟩ := h₁.acked x.other
  set t := (d₁ x.other).tick (d₁ x.other).kcp.current u ts with ht
  have hty : Acks conv t (d₁ x.other.other) m read' R' is' kept' := hy.tick_sender _ u ts
  -- the flush tells the window
  have hask : t.kcp.asked &&& askTell ≠ 0 := t.kcp.asked_of_probe (hprobe askTell htell)
  obtain ⟨data, hdata, seg, hseg, -⟩ := t.kcp.mem_flush_of_asked hu
    (fun seg hseg => (Ikcpcb.mem_loaded hty.sending.sends hty.fits hseg).2) (Or.inr ⟨rfl, hask⟩)
  obtain ⟨d', segs, kept₂, hp₂, hd', hx₂, hsub, rfl, hsend, hdecode, -⟩ := hpath data hdata
  obtain rfl := List.sublist_nil.mp hsub
  refine ⟨d', read₁, R₁, is₁, hp₁.trans hp₂, hx₂, ?_⟩
  have howes : Owes conv (d₁ x).accepted n t.kcp read₁ R₁ is₁ := (hx₁.tick_receiver _ u ts).owes
  have hne : segs ≠ [] := by
    rintro rfl
    rw [hdecode] at hseg
    exact absurd hseg List.not_mem_nil
  have hwnd : ∀ seg ∈ segs, (onWire seg).wnd = t.kcp.wndUnused := fun seg hseg => by
    have hmem : onWire seg ∈ decodeSegs (encodeSegs segs) := by
      rw [hdecode]
      exact List.mem_map_of_mem hseg
    exact (Ikcpcb.tells_of_flush hty.sending.sends hty.fits howes.wndUnused_lt hdata hmem).wnd
  have hrmt : (d' x).kcp.rmtWnd = t.kcp.wndUnused := by
    rw [hd']
    exact (d₁ x).kcp.rmtWnd_input (fun seg hseg => by
      rw [hx₁.sending.configured.conv_eq]
      exact hsend seg hseg) hne hwnd
  rw [hrmt]
  exact t.kcp.wndUnused_ne_zero (by
    rw [howes.rcvWnd]
    exact hroom)

/-- A queue that is not empty stays so as long as no more is numbered. -/
theorem queue_ne_nil {s s' t t' : Endpoint} {read' R' : ℕ} {is' kept' : List ℕ}
    (hx : Acks conv s t n read R is kept) (hx' : Acks conv s' t' n read' R' is' kept')
    (hsame : s'.accepted = s.accepted) (hque : s.kcp.sndQueue ≠ []) : s'.kcp.sndQueue ≠ [] := by
  have hnum := hx.numbered
  have hnum' := hx'.numbered
  have hpos := List.length_pos_iff.mpr hque
  rw [hsame] at hnum'
  exact List.length_pos_iff.mp (by omega)

/-- **A closed window** is asked for at a flush when the probe timer has run out. -/
theorem Drainable.path_ask_due (h : Drainable conv d₀ d)
    (hx : Acks conv (d x) (d x.other) n read R is []) (hrmt : (d x).kcp.rmtWnd = 0)
    (hwait : (d x).kcp.probeWait ≠ 0) {c : U32} (hc : 0 ≤ itimediff c (d x).kcp.current)
    (hdue : 0 ≤ itimediff c (d x).kcp.tsProbe) :
    (∃ d' n' kept', (duplexMachine conv).Path (Draining d₀) d d' ∧
        Acks conv (d' x) (d' x.other) n' read R is kept' ∧ kept' ≠ [] ∧ kept'.headD n' = n) ∨
      ∃ d' R' is', (duplexMachine conv).Path (Draining d₀) d d' ∧
        Acks conv (d' x) (d' x.other) n read R' is' [] ∧
        (d' x.other).kcp.probe &&& askTell ≠ 0 := by
  obtain ⟨u, ts, d₁, hu, hp₁, hd₁x, -, ⟨n', kept', hx₁, hne, hhead⟩ | ⟨hx₁, -⟩⟩ :=
    h.path_flush_sender hx hc
  · exact Or.inl ⟨d₁, n', kept', hp₁, hx₁, hne, hhead⟩
  have h₁ := (h.of_path hp₁).1
  set s := (d x).tick c u ts
  have hs : Acks conv s (d x.other) n read R is [] := hx.tick_sender _ u ts
  have hask : s.kcp.asked &&& askSend ≠ 0 := s.kcp.asked_of_due hrmt hwait hdue
  obtain ⟨data, hdata, seg, hseg, hcmd⟩ := s.kcp.mem_flush_of_asked hu
    (fun seg hseg => (Ikcpcb.mem_loaded hs.sending.sends hs.fits hseg).2) (Or.inl ⟨rfl, hask⟩)
  have hrecent : data ∈ since d₀ d₁ x := h.mem_since hd₁x rfl hdata
  obtain ⟨segs, rfl, hsegs, hdecode⟩ := hx₁.genuine (List.mem_of_mem_drop hrecent)
  rw [hdecode] at hseg
  obtain ⟨seg₀, hseg₀, rfl⟩ := List.mem_map.mp hseg
  -- the other end is fed the probe
  have hfed : encodeSegs segs ∈ since d₀ d₁ x.other.other := by
    rw [Side.other_other]
    exact hrecent
  have hp₂ := h₁.path_input x.other hfed
  obtain ⟨R', is', howes, -, hheld⟩ := hx₁.owes.input (h₁.lt hx₁) hsegs
  have hx₂ : Acks conv (d₁ x) ((d₁ x.other).call (.input (encodeSegs segs))) n read R' is' [] :=
    hx₁.of_owes howes hheld hx₁.received fun _ hd => Or.inl hd
  refine Or.inr ⟨_, R', is', hp₁.trans hp₂, ?_, ?_⟩
  · rw [Function.update_self, Function.update_of_ne x.other_ne.symm]
    exact hx₂
  · rw [Function.update_self]
    refine (d₁ x.other).kcp.probe_input (fun seg hseg => ?_) hseg₀ hcmd
    rw [hx₁.owes.configured.conv_eq]
    exact (hsegs seg hseg).sendable

/-- **A closed window** is asked for when the probe timer runs out; if that is half the clock away,
a flush before leaves the timer alone. -/
theorem Drainable.path_ask (h : Drainable conv d₀ d)
    (hx : Acks conv (d x) (d x.other) n read R is []) (hrmt : (d x).kcp.rmtWnd = 0)
    (hwait : (d x).kcp.probeWait ≠ 0) :
    (∃ d' n' kept', (duplexMachine conv).Path (Draining d₀) d d' ∧
        Acks conv (d' x) (d' x.other) n' read R is kept' ∧ kept' ≠ [] ∧ kept'.headD n' = n) ∨
      ∃ d' R' is', (duplexMachine conv).Path (Draining d₀) d d' ∧
        Acks conv (d' x) (d' x.other) n read R' is' [] ∧
        (d' x.other).kcp.probe &&& askTell ≠ 0 := by
  rcases serialDiff_reached (by norm_num) (d x).kcp.current (d x).kcp.tsProbe with
    hnow | htime | ⟨hearly, htime, hstep⟩
  · exact h.path_ask_due hx hrmt hwait (serialDiff_self _).ge hnow
  · exact h.path_ask_due hx hrmt hwait htime (serialDiff_self _).ge
  obtain ⟨u, ts, d₁, hu, hp₁, hd₁x, -, ⟨n', kept', hx₁, hne, hhead⟩ | ⟨hx₁, -⟩⟩ :=
    h.path_flush_sender hx hstep
  · exact Or.inl ⟨d₁, n', kept', hp₁, hx₁, hne, hhead⟩
  set s := (d x).tick ((d x).kcp.current + 1) u ts
  have htimer : (d₁ x).kcp.probeTimer = (d x).kcp.probeTimer := by
    rw [hd₁x]
    exact s.kcp.probeTimer_flush_of_not_due hu hrmt hwait (not_le.mpr hearly)
  simp only [Ikcpcb.probeTimer, Prod.mk.injEq] at htimer
  obtain ⟨hrmt₁, hwait₁, hts₁⟩ := htimer
  have hcurrent : (d₁ x).kcp.current = (d x).kcp.current + 1 := by
    rw [hd₁x]
    exact current_flush s.kcp
  rcases (h.of_path hp₁).1.path_ask_due hx₁ (hrmt₁.trans hrmt) (hwait₁ ▸ hwait)
      (c := (d x).kcp.tsProbe) (by rw [hcurrent]; exact htime)
      (by rw [hts₁]; exact (serialDiff_self _).ge) with
    ⟨d₂, n', kept', hp₂, hx₂⟩ | ⟨d₂, R', is', hp₂, hx₂⟩
  · exact Or.inl ⟨d₂, n', kept', hp₁.trans hp₂, hx₂⟩
  · exact Or.inr ⟨d₂, R', is', hp₁.trans hp₂, hx₂⟩

/-- **When nothing is outstanding** and something waits in the queue, it can become outstanding: if
the other end has told that its window is closed, a probe asks for it. -/
theorem Drainable.path_open (h : Drainable conv d₀ d)
    (hx : Acks conv (d x) (d x.other) n read R is []) (hque : (d x).kcp.sndQueue ≠ []) :
    ∃ d' n' read' R' is' kept', (duplexMachine conv).Path (Draining d₀) d d' ∧
      Acks conv (d' x) (d' x.other) n' read' R' is' kept' ∧ kept' ≠ [] ∧ kept'.headD n' = n := by
  by_cases hrmt : (d x).kcp.rmtWnd = 0
  · -- the first flush arms the timer
    obtain ⟨u, ts, d₁, hu, hp₁, hd₁x, -, ⟨n', kept', hx₁, hne, hhead⟩ | ⟨hx₁, -⟩⟩ :=
      h.path_flush_sender hx (serialDiff_self (d x).kcp.current).ge
    · exact ⟨d₁, n', read, R, is, kept', hp₁, hx₁, hne, hhead⟩
    have h₁ := h.of_path hp₁
    set s := (d x).tick (d x).kcp.current u ts
    have hpaced : s.kcp.Paced := h.paced x
    have hwait : (d₁ x).kcp.probeWait ≠ 0 := by
      rw [hd₁x]
      exact hpaced.probeWait_flush hu hrmt
    have hrmt₁ : (d₁ x).kcp.rmtWnd = 0 := by
      rw [hd₁x]
      exact s.kcp.rmtWnd_flush.trans hrmt
    -- the second one asks for the window, unless there is no need
    rcases h₁.1.path_ask hx₁ hrmt₁ hwait with
      ⟨d₂, n', kept', hp₂, hx₂, hne, hhead⟩ | ⟨d₂, R₂, is₂, hp₂, hx₂, htell⟩
    · exact ⟨d₂, n', read, R, is, kept', hp₁.trans hp₂, hx₂, hne, hhead⟩
    have h₂ := h.of_path (hp₁.trans hp₂)
    obtain ⟨d₃, read₃, R₃, is₃, hp₃, hx₃, hopen⟩ := h₂.1.path_probe hx₂ htell
    have h₃ := h.of_path ((hp₁.trans hp₂).trans hp₃)
    obtain ⟨d₄, n₄, kept₄, hp₄, hx₄, hne, hhead⟩ :=
      h₃.1.path_fill hx₃ (queue_ne_nil hx hx₃ (h₃.2 x) hque) hopen
    exact ⟨d₄, n₄, read₃, R₃, is₃, kept₄, ((hp₁.trans hp₂).trans hp₃).trans hp₄, hx₄, hne, hhead⟩
  · obtain ⟨d', n', kept', hp, hx', hne, hhead⟩ := h.path_fill hx hque hrmt
    exact ⟨d', n', read, R, is, kept', hp, hx', hne, hhead⟩

/-! ## Everything is delivered -/

/-- **Everything that an end has accepted** can be numbered, taken in and acknowledged. -/
theorem Drainable.path_acked (h : Drainable conv d₀ d)
    (hx : Acks conv (d x) (d x.other) n read R is kept) :
    ∃ d' n' read' R' is', (duplexMachine conv).Path (Draining d₀) d d' ∧
      Acks conv (d' x) (d' x.other) n' read' R' is' [] ∧ (d' x).kcp.sndQueue = [] := by
  -- the first outstanding piece moves up with every round trip
  obtain ⟨left, hleft⟩ : ∃ left, (streamOf (d x).accepted).length - kept.headD n = left := ⟨_, rfl⟩
  induction left using Nat.strong_induction_on generalizing d n read R is kept with
  | _ left ih =>
    have hround {d' : Duplex} {n' read' R' : ℕ} {is' kept' : List ℕ}
        (hp : (duplexMachine conv).Path (Draining d₀) d d')
        (hx' : Acks conv (d' x) (d' x.other) n' read' R' is' kept') (hne : kept' ≠ [])
        (hle : kept.headD n ≤ kept'.headD n') :
        ∃ d'' n'' read'' R'' is'', (duplexMachine conv).Path (Draining d₀) d d'' ∧
          Acks conv (d'' x) (d'' x.other) n'' read'' R'' is'' [] ∧ (d'' x).kcp.sndQueue = [] := by
      have h' := h.of_path hp
      obtain ⟨d₁, n₁, read₁, R₁, is₁, kept₁, hp₁, hx₁, hlt⟩ := h'.1.path_round hx' hne
      have h₁ := h.of_path (hp.trans hp₁)
      have hbound := hx₁.outstanding.head_le
      have hnum := hx₁.numbered
      rw [h₁.2 x] at hnum
      obtain ⟨d₂, n₂, read₂, R₂, is₂, hp₂, hx₂, hque⟩ :=
        ih _ (by rw [h₁.2 x]; omega) h₁.1 hx₁ rfl
      exact ⟨d₂, n₂, read₂, R₂, is₂, (hp.trans hp₁).trans hp₂, hx₂, hque⟩
    by_cases hne : kept = []
    · subst hne
      by_cases hque : (d x).kcp.sndQueue = []
      · exact ⟨d, n, read, R, is, .refl d, hx, hque⟩
      · obtain ⟨d', n', read', R', is', kept', hp, hx', hne, hhead⟩ := h.path_open hx hque
        exact hround hp hx' hne hhead.ge
    · exact hround (.refl d) hx hne le_rfl

/-- All that `x` has accepted has been received at the other end, and `x` keeps none of it. -/
structure Delivered (d : Duplex) (x : Side) : Prop where
  queue : (d x).kcp.sndQueue = []
  buf : (d x).kcp.sndBuf = []
  received : (d x.other).received = withoutEmpty ((d x).accepted.map sentBytes)

/-- **One direction** can be brought to its end. -/
theorem Drainable.path_drained (h : Drainable conv d₀ d) (x : Side) :
    ∃ d', (duplexMachine conv).Path (Draining d₀) d d' ∧ d'.Delivered x := by
  obtain ⟨n, read, R, is, kept, hx⟩ := h.acked x
  obtain ⟨d₁, n₁, read₁, R₁, is₁, hp₁, hx₁, hque⟩ := h.path_acked hx
  have h₁ := h.of_path hp₁
  obtain ⟨d₂, read₂, R₂, is₂, hp₂, hsame, hx₂, hidle, -⟩ := h₁.1.path_read hx₁
  have hle : n₁ ≤ R₂ := (hx₂.of_idle hidle (h₁.1.cut x)).2
  have hnum := hx₂.numbered
  rw [hque, List.length_nil, Nat.add_zero] at hnum
  -- no message is left to read
  have hread : (d₁ x).accepted.length ≤ read₂ := by
    by_contra hlt
    rw [not_le] at hlt
    have hmiss := hidle _ (List.getElem?_eq_getElem hlt)
    have hsplit : streamOf (d₁ x).accepted = streamOf ((d₁ x).accepted.take read₂) ++
        (cutOf (d₁ x).accepted[read₂] ++ streamOf ((d₁ x).accepted.drop (read₂ + 1))) := by
      rw [← streamOf_singleton, ← streamOf_append, ← streamOf_append, List.singleton_append,
        ← List.drop_eq_getElem_cons hlt, List.take_append_drop]
    have hlen := congrArg List.length hsplit
    rw [List.length_append, List.length_append] at hlen
    omega
  refine ⟨d₂, hp₁.trans hp₂, ?_, ?_, ?_⟩
  · rw [hsame]
    exact hque
  · have hsns := hx₂.outstanding.sns
    rw [hsame]
    exact List.map_eq_nil_iff.mp hsns
  · rw [hx₂.received, List.take_of_length_le hread, hsame]

/-- An endpoint with nothing to send keeps nothing to send. -/
theorem nothing_call {s : Endpoint} (hque : s.kcp.sndQueue = []) (hbuf : s.kcp.sndBuf = [])
    {c : EndpointCall} (hc : ∀ m, c ≠ .send m) :
    (s.call c).kcp.sndQueue = [] ∧ (s.call c).kcp.sndBuf = [] := by
  have hflush (s : Endpoint) (hque : s.kcp.sndQueue = []) (hbuf : s.kcp.sndBuf = []) :
      s.kcp.flush.1.sndQueue = [] ∧ s.kcp.flush.1.sndBuf = [] := by
    by_cases hu : s.kcp.updated = 0
    · unfold Ikcpcb.flush
      rw [if_pos hu]
      exact ⟨hque, hbuf⟩
    · have hside : s.kcp.probed.sendSide = s.kcp.sendSide := s.kcp.sendSide_probed
      have hque' : s.kcp.probed.sndQueue = [] := (congrArg SendSide.sndQueue hside).trans hque
      have hbuf' : s.kcp.probed.sndBuf = [] := (congrArg SendSide.sndBuf hside).trans hbuf
      have hloaded : s.kcp.loaded.sndQueue = [] ∧ s.kcp.loaded.sndBuf = [] := by
        unfold Ikcpcb.loaded
        dsimp only
        rw [hque', hbuf']
        exact ⟨rfl, rfl⟩
      refine ⟨?_, by rw [s.kcp.sndBuf_flush hu, hloaded.2, List.map_nil]⟩
      have hend : s.kcp.flush.1.sendSide =
          { s.kcp.loaded.sendSide with sndBuf := s.kcp.flushed.1 } := by
        rw [s.kcp.flush_eq hu]
        simp only [Ikcpcb.sendSide_minCwnd, Ikcpcb.sendSide_onLost, Ikcpcb.sendSide_onChange]
        rfl
      exact (congrArg SendSide.sndQueue hend).trans hloaded.1
  cases c with
  | send m => exact absurd rfl (hc m)
  | recv =>
    have hside := s.kcp.sendSide_recv recvBufferLen
    exact ⟨(congrArg SendSide.sndQueue hside).trans hque,
      (congrArg SendSide.sndBuf hside).trans hbuf⟩
  | input data =>
    obtain ⟨hside, hsub⟩ := s.kcp.keeps_input data
    refine ⟨(congrArg SendSide.sndQueue hside).trans hque, ?_⟩
    rw [hbuf] at hsub
    exact List.map_eq_nil_iff.mp (List.sublist_nil.mp hsub)
  | update current =>
    obtain ⟨u, ts, he | he⟩ := s.call_update current
    · rw [he]
      exact hflush _ hque hbuf
    · rw [he]
      exact ⟨hque, hbuf⟩
  | flush => exact hflush s hque hbuf

/-- What has been delivered stays delivered. -/
theorem Delivered.step (hdone : d.Delivered x) (h : Drainable conv d₀ d) {e : Side × EndpointCall}
    (hok : Draining d₀ d e) (hstep : (duplexMachine conv).step d e = some d') : d'.Delivered x := by
  obtain ⟨h', hsame⟩ := h.step hok hstep
  obtain ⟨n, read, R, is, kept, hx'⟩ := h'.acked x
  obtain ⟨y, c⟩ := e
  unfold duplexMachine at hstep
  dsimp only at hstep
  split_ifs at hstep
  obtain rfl := Option.some.inj hstep
  have hsend : (Function.update d y ((d y).call c) x).kcp.sndQueue = [] ∧
      (Function.update d y ((d y).call c) x).kcp.sndBuf = [] := by
    by_cases hy : x = y
    · subst hy
      rw [Function.update_self]
      exact nothing_call hdone.queue hdone.buf hok.quiet
    · rw [Function.update_of_ne hy]
      exact ⟨hdone.queue, hdone.buf⟩
  -- what has been received grows, and is never more than what has been accepted
  have hgrow : (d x.other).received <+:
      (Function.update d y ((d y).call c) x.other).received := by
    by_cases hy : x.other = y
    · subst hy
      rw [Function.update_self]
      exact (d x.other).received_call c
    · rw [Function.update_of_ne hy]
  have hall : (Function.update d y ((d y).call c) x.other).received <+:
      withoutEmpty ((d x).accepted.map sentBytes) := by
    rw [hx'.received, hsame x]
    exact ((List.take_prefix read _).map sentBytes).filter _
  rw [hdone.received] at hgrow
  refine ⟨hsend.1, hsend.2, ?_⟩
  rw [hsame x]
  exact hall.eq_of_length (le_antisymm hall.length_le hgrow.length_le)

end Duplex

/-- **Two endpoints never get stuck**: from every state that they reach in runs with fewer than
`2 ^ 31` segments, when no message accepted has more fragments than the receive window, a run leads
to a state where everything accepted on either side has been received at the other end, and neither
end keeps a segment to send. The run sends no new message, feeds only datagrams that are handed over
in it, so that all that came before may be lost, and sets no clock back. -/
theorem path_delivered {conv : U32} {d : Duplex}
    (h : (duplexMachine conv).Reaches Duplex.Short d)
    (hshort : ∀ x, (streamOf (d x).accepted).length < 2 ^ 31)
    (hcut : ∀ x, ∀ m ∈ (d x).accepted, (cutOf m).length ≤ 128) :
    ∃ d', (duplexMachine conv).Path (Duplex.Draining d) d d' ∧
      ∀ x, (d' x).accepted = (d x).accepted ∧ d'.Delivered x := by
  have hpaced : ∀ x, (d x).kcp.Paced := by
    refine h.invariant (I := fun d => ∀ x, (d x).kcp.Paced) (fun x => Or.inl rfl)
      fun d e d' hd _ hstep x => ?_
    unfold duplexMachine at hstep
    dsimp only at hstep
    split_ifs at hstep
    obtain rfl := Option.some.inj hstep
    rw [Function.update_apply]
    split_ifs
    · exact Duplex.paced_call (hd e.1) e.2
    · exact hd x
  have hd : Duplex.Drainable conv d d :=
    ⟨Duplex.acked_of_reaches h, fun _ => List.prefix_rfl, hpaced, hshort, hcut⟩
  obtain ⟨d₁, hp₁, hclient⟩ := hd.path_drained .client
  have hd₁ := hd.of_path hp₁
  obtain ⟨d₂, hp₂, hserver⟩ := hd₁.1.path_drained .server
  -- the first direction stays delivered
  have hboth : Duplex.Drainable conv d d₂ ∧ d₂.Delivered .client :=
    hp₂.invariant (I := fun d' => Duplex.Drainable conv d d' ∧ d'.Delivered .client)
      (fun _ _ _ hI hok hstep => ⟨(hI.1.step hok hstep).1, hI.2.step hI.1 hok hstep⟩)
      ⟨hd₁.1, hclient⟩
  refine ⟨d₂, hp₁.trans hp₂, fun x => ⟨(hd.of_path (hp₁.trans hp₂)).2 x, ?_⟩⟩
  cases x with
  | client => exact hboth.2
  | server => exact hserver

/-- The client has transmitted its first message, which is lost, and the server has not transmitted
its own. -/
theorem path_delivered_lost : ∃ d d' : Duplex, (duplexMachine 1).Reaches Duplex.Short d ∧
    (d .client).accepted = [[42], [43]] ∧ pushedSns (d .client).sent = [0] ∧
      (d .server).accepted = [[44]] ∧ (d .server).received = [] ∧
      (duplexMachine 1).Path (Duplex.Draining d) d d' ∧
        ∀ x, (d' x).accepted = (d x).accepted ∧ d'.Delivered x := by
  have h : ((duplexMachine 1).run Duplex.short (duplexMachine 1).init
      [(.client, .send [42]), (.client, .update 0), (.client, .send [43]),
        (.server, .send [44])]).any
      (fun d => decide ((d .client).accepted = [[42], [43]] ∧ (d .server).accepted = [[44]] ∧
        (d .server).received = [] ∧
        (d .client).sent = [encodeSegs [soleSegment 1 0 0 0 [42]]])) = true := by
    decide +kernel
  obtain ⟨d, hrun, hd⟩ := Option.any_eq_true _ _ |>.mp h
  obtain ⟨hclient, hserver, hreceived, hsent⟩ := of_decide_eq_true hd
  have hreach := Machine.path_of_run Duplex.short_of _ hrun
  have hone : ∀ x, ∀ m ∈ (d x).accepted, m.length ≤ 1376 := by
    intro x m hm
    cases x
    · rw [hclient] at hm
      rcases List.mem_pair.mp hm with rfl | rfl <;> decide
    · rw [hserver, List.mem_singleton] at hm
      rw [hm]
      decide
  have hcut : ∀ x, ∀ m ∈ (d x).accepted, (cutOf m).length ≤ 128 := by
    intro x m hm
    have hlen := length_streamOf_singleton (hone x m hm)
    rw [streamOf_singleton] at hlen
    rw [hlen]
    norm_num
  have hshort : ∀ x, (streamOf (d x).accepted).length < 2 ^ 31 := by
    intro x
    cases x
    · rw [hclient]
      decide
    · rw [hserver]
      decide
  obtain ⟨d', hpath, hdone⟩ := path_delivered hreach hshort hcut
  have hsns : pushedSns (d .client).sent = [0] := by
    unfold pushedSns
    rw [hsent, List.flatMap_singleton, decodeSegs_encodeSegs (by simp [soleSegment])]
    decide
  exact ⟨d, d', hreach, hclient, hsns, hserver, hreceived, hpath, hdone⟩

end LuaKcp
