import LuaKcp.Ikcp.Emission
import LuaKcp.Ikcp.Outstanding
import LuaKcp.Session.Duplex

/-!
# Acknowledgements between two endpoints

What an endpoint tells the other one, by the number it expects next and by its acknowledgements, is
true: the pieces it names are held or have been read (`Told`). So a sender deletes a segment only
when the other end has taken it in, and every piece that has been numbered is still in `snd_buf` or
is held at the other end, whatever the network does (`kept_or_held`).
-/

namespace LuaKcp

open Ikcp

/-- What a segment tells is true of the pieces `H` held by its sender, `n` having been numbered at
the other end. -/
structure Told (n : ℕ) (H : ℕ → Prop) (seg : Ikcpseg) : Prop where
  una : ∃ a ≤ n, (∀ i < a, H i) ∧ seg.una = BitVec.ofNat 32 a
  ack : seg.cmd = cmdAck → ∃ i < n, H i ∧ seg.sn = BitVec.ofNat 32 i

theorem Told.mono {n n' : ℕ} {H H' : ℕ → Prop} {seg : Ikcpseg} (h : Told n H seg) (hn : n ≤ n')
    (hH : ∀ i, H i → H' i) : Told n' H' seg := by
  obtain ⟨⟨a, ha, hheld, huna⟩, hack⟩ := h
  refine ⟨⟨a, ha.trans hn, fun i hi => hH i (hheld i hi), huna⟩, fun hc => ?_⟩
  obtain ⟨i, hi, hheld, hsn⟩ := hack hc
  exact ⟨i, hi.trans_le hn, hH i hheld, hsn⟩

/-! ## The end that sends -/

namespace Ikcp.Ikcpcb.Outstanding

variable {kcp : Ikcpcb} {n : ℕ} {kept : List ℕ}

/-- The segments before a number that is told. -/
theorem mem_dropWhile_iff (h : kcp.Outstanding n kept) (hn : n < 2 ^ 31) {a : ℕ} (ha : a ≤ n)
    (i : ℕ) : i ∈ kept.dropWhile (fun i => 0 < itimediff (BitVec.ofNat 32 a) (BitVec.ofNat 32 i)) ↔
      i ∈ kept ∧ a ≤ i := by
  have hiff : ∀ i ∈ kept, 0 < itimediff (BitVec.ofNat 32 a) (BitVec.ofNat 32 i) ↔ i < a := by
    intro i hi
    have hin := h.bounds i hi
    rw [itimediff, serialDiff_ofNat (by push_cast; omega) (by push_cast; omega)]
    omega
  have hsorted := h.sorted
  clear h
  induction kept with
  | nil => simp
  | cons j kept ih =>
    have hj := hiff j List.mem_cons_self
    have hrest := List.pairwise_cons.mp hsorted
    rw [List.dropWhile_cons]
    split_ifs with hlt
    · rw [decide_eq_true_iff, hj] at hlt
      refine (ih (fun i hi => hiff i (List.mem_cons_of_mem j hi)) hrest.2).trans ?_
      rw [List.mem_cons]
      constructor
      · exact fun hi => ⟨Or.inr hi.1, hi.2⟩
      · rintro ⟨rfl | hi, hle⟩
        · omega
        · exact ⟨hi, hle⟩
    · rw [decide_eq_true_iff, hj] at hlt
      refine ⟨fun hi => ⟨hi, ?_⟩, fun hi => hi.1⟩
      rcases List.mem_cons.mp hi with rfl | hi
      · omega
      · have := hrest.1 i hi
        omega

/-- The segments tell their numbers. -/
theorem unique (h : kcp.Outstanding n kept) (hn : n < 2 ^ 31) {kept' : List ℕ}
    (h' : kcp.Outstanding n kept') : kept = kept' := by
  have hsns : kept.map (BitVec.ofNat 32) = kept'.map (BitVec.ofNat 32) := h.sns.symm.trans h'.sns
  refine List.ext_getElem (by simpa using congrArg List.length hsns) fun k hk hk' => ?_
  have hkth := List.getElem_of_eq hsns (i := k) (by simpa using hk)
  rw [List.getElem_map, List.getElem_map] at hkth
  have hi := h.bounds _ (List.getElem_mem hk)
  have hi' := h'.bounds _ (List.getElem_mem hk')
  exact (ofNat_eq_ofNat_iff (by omega) (by omega)).mp hkth

/-- **A true segment** deletes only what is held, and everything before the number that it tells. -/
theorem inputTold (h : kcp.Outstanding n kept) (hn : n < 2 ^ 31) {H : ℕ → Prop} {seg : Ikcpseg}
    (hseg : Told n H seg) : ∃ kept', (kcp.inputSegment seg).Outstanding n kept' ∧
      kept'.Sublist kept ∧ (∀ i ∈ kept, i ∈ kept' ∨ H i) ∧
      ∀ a ≤ n, seg.una = BitVec.ofNat 32 a → ∀ i ∈ kept', a ≤ i := by
  obtain ⟨kept', h', hsub, hmem⟩ := h.inputSegment seg
  obtain ⟨⟨a, ha, hheld, huna⟩, hack⟩ := hseg
  rw [huna] at hsub hmem
  refine ⟨kept', h', hsub.trans (List.dropWhile_sublist _), fun i hi => ?_,
    fun a' ha' he i hi => ?_⟩
  · by_cases hlt : i < a
    · exact Or.inr (hheld i hlt)
    · rcases hmem i ((h.mem_dropWhile_iff hn ha i).mpr ⟨hi, not_lt.mp hlt⟩) with hi | ⟨hc, hsn⟩
      · exact Or.inl hi
      · obtain ⟨j, hj, hheld, hsn'⟩ := hack hc
        have hin := h.bounds i hi
        obtain rfl : i = j := (ofNat_eq_ofNat_iff (by omega) (by omega)).mp (hsn.symm.trans hsn')
        exact Or.inr hheld
  · obtain rfl : a = a' := (ofNat_eq_ofNat_iff (by omega) (by omega)).mp (huna.symm.trans he)
    exact ((h.mem_dropWhile_iff hn ha i).mp (hsub.subset hi)).2

/-- **A datagram of true segments**. -/
theorem inputDatagram (h : kcp.Outstanding n kept) (hn : n < 2 ^ 31) {H : ℕ → Prop}
    {segs : List Ikcpseg} (hsend : ∀ seg ∈ segs, Sendable kcp.conv seg)
    (htold : ∀ seg ∈ segs, Told n H (onWire seg)) :
    ∃ kept', (kcp.input (encodeSegs segs)).2.Outstanding n kept' ∧ kept'.Sublist kept ∧
      (∀ i ∈ kept, i ∈ kept' ∨ H i) ∧
      ∀ seg ∈ segs, ∀ a ≤ n, seg.una = BitVec.ofNat 32 a → ∀ i ∈ kept', a ≤ i := by
  -- what the segments keep, and what one of them establishes
  let P (kcp' : Ikcpcb) : Prop := ∃ kept', kcp'.Outstanding n kept' ∧ kept'.Sublist kept ∧
    ∀ i ∈ kept, i ∈ kept' ∨ H i
  have hstep : ∀ kcp', P kcp' → ∀ seg ∈ segs, P (kcp'.inputSegment (onWire seg)) := by
    rintro kcp' ⟨kept₁, h₁, hsub₁, hmem₁⟩ seg hseg
    obtain ⟨kept₂, h₂, hsub₂, hmem₂, -⟩ := h₁.inputTold hn (htold seg hseg)
    exact ⟨kept₂, h₂, hsub₂.trans hsub₁, fun i hi => (hmem₁ i hi).elim (hmem₂ i) Or.inr⟩
  have hgrow (kcp' : Ikcpcb) (una : U32) (hP : P kcp') : P (kcp'.growCwnd una) := by
    obtain ⟨kept₁, h₁, hrest₁⟩ := hP
    exact ⟨kept₁, h₁.congr (outstanding_growCwnd kcp' una), hrest₁⟩
  have hstart : P kcp := ⟨kept, h, List.Sublist.refl kept, fun i hi => Or.inl hi⟩
  obtain ⟨kept', h', hsub', hmem'⟩ : P (kcp.input (encodeSegs segs)).2 :=
    input_encode_invariant hstep hgrow hstart hsend
  refine ⟨kept', h', hsub', hmem', fun seg hseg a ha huna => ?_⟩
  let Q (kcp' : Ikcpcb) : Prop := ∃ kept', kcp'.Outstanding n kept' ∧ ∀ i ∈ kept', a ≤ i
  obtain ⟨-, kept₂, h₂, hall⟩ := input_encode_rule (P := P) (Q := Q) hseg hstep
    (fun kcp' hP => by
      obtain ⟨kept₁, h₁, -⟩ := hP
      obtain ⟨kept₂, h₂, -, -, hall⟩ := h₁.inputTold hn (htold seg hseg)
      exact ⟨kept₂, h₂, hall a ha huna⟩)
    (fun kcp' _ hQ seg' hseg' => by
      obtain ⟨kept₁, h₁, hall₁⟩ := hQ
      obtain ⟨kept₂, h₂, hsub, -⟩ := h₁.inputTold hn (htold seg' hseg')
      exact ⟨kept₂, h₂, fun i hi => hall₁ i (hsub.subset hi)⟩)
    (fun kcp' una hP hQ => by
      obtain ⟨kept₁, h₁, hall₁⟩ := hQ
      exact ⟨hgrow kcp' una hP, kept₁, h₁.congr (outstanding_growCwnd kcp' una), hall₁⟩)
    hstart hsend
  -- the numbers left are those of the segments left
  rwa [h₂.unique hn h'] at hall

end Ikcp.Ikcpcb.Outstanding

/-! ## The end that receives -/

/-- The endpoint takes in the pieces of `ms`, and what it owes an acknowledgement is held. -/
structure Owes (conv : U32) (ms : List Bytes) (n : ℕ) (kcp : Ikcpcb) (read R : ℕ) (is : List ℕ) :
    Prop where
  configured : Configured conv kcp
  taking : Taking ms n kcp.recvSide read R is
  settled : Settled kcp.recvSide
  acks : ∀ a ∈ kcp.acklist, ∃ i < n, Held R is i ∧ a.1 = BitVec.ofNat 32 i

namespace Owes

variable {conv : U32} {ms : List Bytes} {n read R : ℕ} {kcp : Ikcpcb} {is : List ℕ}

theorem rcvWnd (h : Owes conv ms n kcp read R is) : kcp.rcvWnd.toNat = 128 := by
  rw [h.configured.rcvWnd_eq]
  rfl

theorem recv_eq (h : Owes conv ms n kcp read R is) : kcp.rcvNxt = BitVec.ofNat 32 R :=
  h.taking.awaits.nxt

/-- **A genuine segment**: what is held stays held, and data inside the window is held and
owed an acknowledgement. -/
theorem inputSegment (h : Owes conv ms n kcp read R is) (hn : n < 2 ^ 31) {seg : Ikcpseg}
    (hseg : Genuine conv (streamOf ms) n seg) :
    ∃ R' is', Owes conv ms n (kcp.inputSegment (onWire seg)) read R' is' ∧ R ≤ R' ∧
      (∀ i, Held R is i → Held R' is' i) ∧
      (kcp.acklist ≠ [] → (kcp.inputSegment (onWire seg)).acklist ≠ []) ∧
      ∀ j < R + 128, seg.cmd = cmdPush → j < n → n ≤ j + 2 ^ 30 → seg.sn = BitVec.ofNat 32 j →
        Held R' is' j ∧ (kcp.inputSegment (onWire seg)).acklist ≠ [] := by
  have hwnd := h.rcvWnd
  have hcmd := hseg.sendable.cmd.onWire
  have hconf : Configured conv (kcp.inputSegment (onWire seg)) := h.configured.of_params
    (Ikcpcb.params_eq (Ikcpcb.keeps_inputSegment kcp _) (Ikcpcb.rcvWnd_inputSegment kcp _))
  have hacklist := kcp.acklist_inputSegment (onWire seg)
  have haw := h.taking.awaits
  unfold Awaits at haw
  rw [Taking.stream_eq] at haw
  obtain ⟨hother, hdata⟩ :=
    (haw.take h.taking.bound h.taking.bounds).inputSegment (by omega) (onWire seg)
  by_cases hc : seg.cmd = cmdPush
  · -- the piece that the segment carries
    obtain ⟨hfrg, j, hj, hp⟩ := hseg.placed hc
    have hR := h.taking.bound
    have hp' : Placed ((streamOf ms).take n) j (onWire seg) :=
      ⟨hp.1, by rw [List.getElem?_take_of_lt hj, piece_onWire hfrg, hp.2]⟩
    have hnear : Near R j := ⟨by omega, by omega⟩
    obtain ⟨R', is', htake, hheld⟩ := hdata (hcmd.trans hc) j hp' hnear
    have hjheld : j < R + 128 → Held R' is' j := fun hlt => by
      by_cases hle : R ≤ j
      · exact hheld hle (by rw [hwnd]; exact hlt)
      · exact htake.held j (Or.inl (by omega))
    obtain ⟨hrec, hR', his'⟩ := Receives.of_take htake.receives
    -- the test of the window
    have hsum : kcp.rcvNxt + kcp.rcvWnd = BitVec.ofNat 32 (R + 128) := by
      rw [h.recv_eq, h.configured.rcvWnd_eq, BitVec.ofNat_add]
      rfl
    have hbelow : itimediff (onWire seg).sn (kcp.rcvNxt + kcp.rcvWnd) < 0 → j < R + 128 := by
      intro hb
      by_contra hge
      rw [hsum, hp'.1, itimediff,
        serialDiff_ofNat (by push_cast; omega) (by push_cast; omega)] at hb
      push_cast at hb
      omega
    have hacked : j < R + 128 → n ≤ j + 2 ^ 30 →
        itimediff (onWire seg).sn (kcp.rcvNxt + kcp.rcvWnd) < 0 := by
      intro hlt hle
      rw [hsum, hp'.1, itimediff, serialDiff_ofNat (by push_cast; omega) (by push_cast; omega)]
      push_cast
      omega
    refine ⟨R', is', ⟨hconf, ⟨?_, h.taking.le, hR', his'⟩, htake.settled h.settled, ?_⟩, htake.le,
      htake.held, ?_, ?_⟩
    · unfold Awaits
      rw [Taking.stream_eq]
      exact hrec
    · intro a ha
      rw [hacklist] at ha
      split_ifs at ha with hb
      · rcases List.mem_append.mp ha with ha | ha
        · obtain ⟨i, hi, hheld, hsn⟩ := h.acks a ha
          exact ⟨i, hi, htake.held i hheld, hsn⟩
        · rw [List.mem_singleton.mp ha]
          exact ⟨j, hj, hjheld (hbelow hb.2), hp.1⟩
      · obtain ⟨i, hi, hheld, hsn⟩ := h.acks a ha
        exact ⟨i, hi, htake.held i hheld, hsn⟩
    · intro hne
      rw [hacklist]
      split_ifs
      · simp
      · exact hne
    · intro k hk _ hkn hle hsn
      obtain rfl : k = j := (ofNat_eq_ofNat_iff (by omega) (by omega)).mp (hsn.symm.trans hp.1)
      rw [hacklist, if_pos ⟨hcmd.trans hc, hacked hk hle⟩]
      exact ⟨hjheld hk, by simp⟩
  · have hne : (onWire seg).cmd ≠ cmdPush := by rwa [hcmd]
    have hside := hother hne
    have hacks : (kcp.inputSegment (onWire seg)).acklist = kcp.acklist := by
      rw [hacklist, if_neg fun hb => hne hb.1]
    refine ⟨R, is, ⟨hconf, hside ▸ h.taking, hside ▸ h.settled, hacks ▸ h.acks⟩, le_rfl,
      fun _ => id, fun hne => hacks ▸ hne, fun k _ hc' => absurd hc' hc⟩

/-- The congestion window is no part of it. -/
theorem growCwnd (h : Owes conv ms n kcp read R is) (una : U32) :
    Owes conv ms n (kcp.growCwnd una) read R is := by
  have hside := kcp.recvSide_growCwnd una
  have hacks := kcp.acklist_growCwnd una
  have hconf : Configured conv (kcp.growCwnd una) := h.configured.of_params
    (Ikcpcb.params_eq (.of_sendSide (kcp.sendSide_growCwnd una)) (congrArg RecvSide.rcvWnd hside))
  exact ⟨hconf, hside ▸ h.taking, hside ▸ h.settled, hacks ▸ h.acks⟩

/-- **A genuine datagram**. -/
theorem input (h : Owes conv ms n kcp read R is) (hn : n < 2 ^ 31) {segs : List Ikcpseg}
    (hsegs : ∀ seg ∈ segs, Genuine conv (streamOf ms) n seg) :
    ∃ R' is', Owes conv ms n (kcp.input (encodeSegs segs)).2 read R' is' ∧ R ≤ R' ∧
      ∀ i, Held R is i → Held R' is' i := by
  have hsend : ∀ seg ∈ segs, Sendable kcp.conv seg := fun seg hseg => by
    rw [h.configured.conv_eq]
    exact (hsegs seg hseg).sendable
  refine Ikcpcb.input_encode_invariant
    (P := fun kcp' => ∃ R' is', Owes conv ms n kcp' read R' is' ∧ R ≤ R' ∧
      ∀ i, Held R is i → Held R' is' i)
    (fun kcp' hP seg hseg => ?_) (fun kcp' una hP => ?_) ⟨R, is, h, le_rfl, fun _ => id⟩ hsend
  · obtain ⟨R₁, is₁, h₁, hle₁, hheld₁⟩ := hP
    obtain ⟨R₂, is₂, h₂, hle₂, hheld₂, -⟩ := h₁.inputSegment hn (hsegs seg hseg)
    exact ⟨R₂, is₂, h₂, hle₁.trans hle₂, fun i hi => hheld₂ i (hheld₁ i hi)⟩
  · obtain ⟨R₁, is₁, h₁, hle₁, hheld₁⟩ := hP
    exact ⟨R₁, is₁, h₁.growCwnd una, hle₁, hheld₁⟩

/-- **A datagram with a piece inside the window**: the piece is held, and something is owed. -/
theorem input_piece (h : Owes conv ms n kcp read R is) (hn : n < 2 ^ 31) {segs : List Ikcpseg}
    (hsegs : ∀ seg ∈ segs, Genuine conv (streamOf ms) n seg) {seg : Ikcpseg} (hmem : seg ∈ segs)
    (hc : seg.cmd = cmdPush) {j : ℕ} (hj : j < R + 128) (hjn : j < n) (hle : n ≤ j + 2 ^ 30)
    (hsn : seg.sn = BitVec.ofNat 32 j) :
    ∃ R' is', Owes conv ms n (kcp.input (encodeSegs segs)).2 read R' is' ∧ R ≤ R' ∧
      (∀ i, Held R is i → Held R' is' i) ∧ Held R' is' j ∧
      (kcp.input (encodeSegs segs)).2.acklist ≠ [] := by
  have hsend : ∀ seg ∈ segs, Sendable kcp.conv seg := fun seg hseg => by
    rw [h.configured.conv_eq]
    exact (hsegs seg hseg).sendable
  refine (Ikcpcb.input_encode_rule
    (P := fun kcp' => ∃ R' is', Owes conv ms n kcp' read R' is' ∧ R ≤ R' ∧
      ∀ i, Held R is i → Held R' is' i)
    (Q := fun kcp' => ∃ R' is', Owes conv ms n kcp' read R' is' ∧ R ≤ R' ∧
      (∀ i, Held R is i → Held R' is' i) ∧ Held R' is' j ∧ kcp'.acklist ≠ [])
    hmem ?_ ?_ ?_ ?_ ⟨R, is, h, le_rfl, fun _ => id⟩ hsend).2
  · rintro kcp' ⟨R₁, is₁, h₁, hle₁, hheld₁⟩ seg hseg
    obtain ⟨R₂, is₂, h₂, hle₂, hheld₂, -⟩ := h₁.inputSegment hn (hsegs seg hseg)
    exact ⟨R₂, is₂, h₂, hle₁.trans hle₂, fun i hi => hheld₂ i (hheld₁ i hi)⟩
  · rintro kcp' ⟨R₁, is₁, h₁, hle₁, hheld₁⟩
    obtain ⟨R₂, is₂, h₂, hle₂, hheld₂, -, hpiece⟩ := h₁.inputSegment hn (hsegs seg hmem)
    obtain ⟨hheldj, hne⟩ := hpiece j (by omega) hc hjn hle hsn
    exact ⟨R₂, is₂, h₂, hle₁.trans hle₂, fun i hi => hheld₂ i (hheld₁ i hi), hheldj, hne⟩
  · rintro kcp' - ⟨R₁, is₁, h₁, hle₁, hheld₁, hheldj, hne⟩ seg hseg
    obtain ⟨R₂, is₂, h₂, hle₂, hheld₂, hne₂, -⟩ := h₁.inputSegment hn (hsegs seg hseg)
    exact ⟨R₂, is₂, h₂, hle₁.trans hle₂, fun i hi => hheld₂ i (hheld₁ i hi), hheld₂ j hheldj,
      hne₂ hne⟩
  · rintro kcp' una ⟨R₁, is₁, h₁, hle₁, hheld₁⟩ ⟨R₂, is₂, h₂, hle₂, hheld₂, hheldj, hne⟩
    exact ⟨⟨R₁, is₁, h₁.growCwnd una, hle₁, hheld₁⟩, R₂, is₂, h₂.growCwnd una, hle₂, hheld₂, hheldj,
      (kcp'.acklist_growCwnd una).symm ▸ hne⟩

/-- **Reading**: it fails because the next message is not complete, or takes this message. -/
theorem recv (h : Owes conv ms n kcp read R is) (hms : ∀ m ∈ ms, Acceptable m) :
    (kcp.lkcpRecv.2 = kcp ∧ kcp.lkcpRecv.1.2 = none ∧
        ∀ m, ms[read]? = some m → R < (streamOf (ms.take read)).length + (cutOf m).length) ∨
      ∃ m R' is', ms[read]? = some m ∧ Owes conv ms n kcp.lkcpRecv.2 (read + 1) R' is' ∧
        (∀ i, Held R is i → Held R' is' i) ∧
        kcp.lkcpRecv.1.2.toList = withoutEmpty [sentBytes m] := by
  have hacks : kcp.lkcpRecv.2.acklist = kcp.acklist := by
    unfold Ikcpcb.lkcpRecv Ikcpcb.recv Ikcpcb.dropMerged Ikcpcb.fastRecover
    dsimp only
    split_ifs <;> rfl
  rcases h.taking.recv h.rcvWnd hms with
    ⟨hneg, hsame, hmiss⟩ | ⟨m, R', is', hm, -, hret, htaking, hset, hheld⟩
  · exact Or.inl ⟨hsame, if_pos hneg.le, hmiss⟩
  · refine Or.inr ⟨m, R', is', hm, ⟨h.configured.of_params (kcp.params_recv _), htaking, hset, ?_⟩,
      hheld, ?_⟩
    · rw [hacks]
      intro a ha
      obtain ⟨i, hi, hheldi, hsn⟩ := h.acks a ha
      exact ⟨i, hi, hheld i hheldi, hsn⟩
    · rw [hret]
      by_cases h0 : sentBytes m = []
      · simp [h0, withoutEmpty]
      · simp [h0, withoutEmpty]

/-- The other end may accept more messages and number more fragments. -/
theorem mono (h : Owes conv ms n kcp read R is) (ms' : List Bytes) {n' : ℕ} (hn : n ≤ n') :
    Owes conv (ms ++ ms') n' kcp read R is :=
  ⟨h.configured, h.taking.mono ms' hn, h.settled, fun a ha => by
    obtain ⟨i, hi, hheld, hsn⟩ := h.acks a ha
    exact ⟨i, hi.trans_le hn, hheld, hsn⟩⟩

/-- Calls that leave the receiving side and the ack list alone. -/
theorem congr (h : Owes conv ms n kcp read R is) {kcp' : Ikcpcb} (hp : kcp'.params = kcp.params)
    (hside : kcp'.recvSide = kcp.recvSide) (hacks : ∀ a ∈ kcp'.acklist, a ∈ kcp.acklist) :
    Owes conv ms n kcp' read R is :=
  ⟨h.configured.of_params hp, hside ▸ h.taking, hside ▸ h.settled,
    fun a ha => h.acks a (hacks a ha)⟩

theorem wndUnused_lt (h : Owes conv ms n kcp read R is) : kcp.wndUnused.toNat < 65536 := by
  have hwnd := h.rcvWnd
  unfold Ikcpcb.wndUnused
  split_ifs with hlt
  · have hque : (BitVec.ofNat 32 kcp.nrcvQue).toNat = kcp.nrcvQue := by
      rw [BitVec.toNat_ofNat, Nat.mod_eq_of_lt (by omega)]
    rw [BitVec.toNat_sub_of_le (BitVec.le_def.mpr (by omega)), hque, hwnd]
    omega
  · decide

/-- **What a flush hands over is true.** -/
theorem told (h : Owes conv ms n kcp read R is) {S : List (Piece UInt8)} {m : ℕ}
    (hs : Sends kcp.sendSide S m) (hfits : Fits kcp.mtu S) {d : Bytes} (hd : d ∈ kcp.flush.2)
    {seg : Ikcpseg} (hseg : seg ∈ decodeSegs d) : Told n (Held R is) seg := by
  have htells := Ikcpcb.tells_of_flush hs hfits h.wndUnused_lt hd hseg
  refine ⟨⟨R, h.taking.bound, fun i hi => Or.inl hi, htells.una.trans h.recv_eq⟩, fun hc => ?_⟩
  obtain ⟨a, ha, hsn⟩ := htells.ack hc
  obtain ⟨i, hi, hheld, ha'⟩ := h.acks a ha
  exact ⟨i, hi, hheld, hsn.trans ha'⟩

end Owes

/-! ## Both ends -/

/-- What `s` sends to `t`, of which `n` pieces are numbered and those in `kept` outstanding: each is
outstanding or held by `t`, and all that `t` tells is true. -/
structure Acks (conv : U32) (s t : Endpoint) (n read R : ℕ) (is kept : List ℕ) : Prop where
  sending : Sending conv s.kcp s.accepted n s.sent
  settings : s.kcp.settings = (configured conv).settings
  outstanding : s.kcp.Outstanding n kept
  owes : Owes conv s.accepted n t.kcp read R is
  received : t.received = withoutEmpty ((s.accepted.take read).map sentBytes)
  covered : ∀ i < n, i ∈ kept ∨ Held R is i
  told : ∀ d ∈ t.sent, ∀ seg ∈ decodeSegs d, Told n (Held R is) seg

/-- The clock of an endpoint and its flush timer, set by `ikcp_update`. -/
def Endpoint.tick (s : Endpoint) (current u ts : U32) : Endpoint :=
  { s with kcp := { s.kcp with current := current, updated := u, tsFlush := ts } }

/-- **An update** sets the clock, and may flush. -/
theorem Endpoint.call_update (s : Endpoint) (current : ℤ) : ∃ u ts,
    s.call (.update current) = (s.tick (BitVec.ofInt 32 current) u ts).call .flush ∨
      s.call (.update current) = s.tick (BitVec.ofInt 32 current) u ts := by
  obtain ⟨u, ts, h⟩ := s.kcp.update_eq (BitVec.ofInt 32 current)
  refine ⟨u, ts, ?_⟩
  unfold call tick
  dsimp only [Ikcpcb.lkcpUpdate]
  rcases h with h | h <;> rw [h]
  · exact Or.inl rfl
  · rw [List.append_nil]
    exact Or.inr rfl

namespace Acks

variable {conv : U32} {s t : Endpoint} {n read R : ℕ} {is kept : List ℕ}

theorem start (conv : U32) :
    Acks conv (endpointMachine conv).init (endpointMachine conv).init 0 0 0 [] [] := by
  have hkcp : (configured conv).acklist = [] ∧ (configured conv).rcvBuf = [] := ⟨rfl, rfl⟩
  refine ⟨.start conv, rfl, ⟨rfl, rfl, .nil, by simp, rfl, Nat.zero_le _⟩,
    ⟨rfl, .start conv [] 0, ?_, ?_⟩, rfl, by simp, by simp [endpointMachine]⟩
  · intro seg hseg
    change seg ∈ (configured conv).rcvBuf.head? at hseg
    rw [hkcp.2] at hseg
    exact absurd hseg (by simp)
  · intro a ha
    change a ∈ (configured conv).acklist at ha
    rw [hkcp.1] at ha
    exact absurd ha List.not_mem_nil

theorem sndWnd (h : Acks conv s t n read R is kept) : s.kcp.sndWnd.toNat = 128 := by
  have hwnd : s.kcp.sndWnd = 128 := congrArg Ikcpcb.Settings.sndWnd h.settings
  rw [hwnd]
  rfl

theorem fits (h : Acks conv s t n read R is kept) : Fits s.kcp.mtu (streamOf s.accepted) :=
  h.sending.fits

/-- The queue holds the pieces that are not numbered. -/
theorem numbered (h : Acks conv s t n read R is kept) :
    n + s.kcp.sndQueue.length = (streamOf s.accepted).length := by
  have hle := h.sending.sends.le
  have hlen := congrArg List.length h.sending.sends.queue
  rw [List.length_map, List.length_drop] at hlen
  change s.kcp.sndQueue.length = _ at hlen
  omega

theorem segments_eq (h : Acks conv s t n read R is kept) : s.segments = n := by
  have := h.numbered
  unfold Endpoint.segments
  omega

/-! ### Calls on the sending end -/

/-- The sending end may pass time. -/
theorem tick_sender (h : Acks conv s t n read R is kept) (current u ts : U32) :
    Acks conv (s.tick current u ts) t n read R is kept :=
  ⟨⟨h.sending.configured, h.sending.sends, h.sending.acceptable, h.sending.genuine⟩, h.settings,
    h.outstanding.congr rfl, h.owes, h.received, h.covered, h.told⟩

/-- **A flush** numbers more pieces, which are outstanding. -/
theorem flush_sender (h : Acks conv s t n read R is kept) (hu : s.kcp.updated ≠ 0) :
    ∃ k ≤ s.kcp.sndQueue.length,
      Acks conv (s.call .flush) t (n + k) read R is (kept ++ List.range' n k) ∧
      (s.kcp.sndQueue ≠ [] → n < kept.headD n + s.kcp.probed.flushCwnd.toNat → 0 < k) := by
  have hwnd := h.sndWnd
  obtain ⟨k, hk, hkept, hque, hpos⟩ := h.outstanding.flush (by omega) hu
  obtain ⟨n', hle, hsend⟩ := h.sending.flush
  -- the two ways of counting the pieces agree
  have hn' : n' = n + k := by
    have hnum := hsend.numbered
    have hnum₀ := h.numbered
    rw [hque, List.length_drop] at hnum
    omega
  subst hn'
  have howes := h.owes.mono [] (Nat.le_add_right n k)
  rw [List.append_nil] at howes
  refine ⟨k, hk, ⟨hsend, (s.kcp.settings_flush).trans h.settings, hkept, howes, h.received,
    fun i hi => ?_, fun d hd seg hseg => ?_⟩, hpos⟩
  · by_cases hin : i < n
    · exact (h.covered i hin).imp_left fun hi => List.mem_append_left _ hi
    · exact Or.inl (List.mem_append_right _ (List.mem_range'_1.mpr ⟨not_lt.mp hin, hi⟩))
  · exact (h.told d hd seg hseg).mono (Nat.le_add_right n k) fun _ => id

/-- A flush before the first update does nothing. -/
theorem call_flush_eq (s : Endpoint) (hu : s.kcp.updated = 0) : s.call .flush = s := by
  unfold Endpoint.call
  dsimp only
  unfold Ikcpcb.flush
  rw [if_pos hu, List.append_nil]

theorem flush_sender' (h : Acks conv s t n read R is kept) :
    ∃ n' kept', n ≤ n' ∧ Acks conv (s.call .flush) t n' read R is kept' := by
  by_cases hu : s.kcp.updated = 0
  · rw [call_flush_eq s hu]
    exact ⟨n, kept, le_rfl, h⟩
  · obtain ⟨k, -, h', -⟩ := h.flush_sender hu
    exact ⟨n + k, _, Nat.le_add_right n k, h'⟩

/-- **A datagram of the other end** tells what may be deleted. -/
theorem input_sender (h : Acks conv s t n read R is kept) (hn : n < 2 ^ 31) {segs : List Ikcpseg}
    (hsend : ∀ seg ∈ segs, Sendable conv seg) (hmem : encodeSegs segs ∈ t.sent) :
    ∃ kept', Acks conv (s.call (.input (encodeSegs segs))) t n read R is kept' ∧
      kept'.Sublist kept ∧
      ∀ seg ∈ segs, ∀ a ≤ n, seg.una = BitVec.ofNat 32 a → ∀ i ∈ kept', a ≤ i := by
  have hsend' : ∀ seg ∈ segs, Sendable s.kcp.conv seg := fun seg hseg => by
    rw [h.sending.configured.conv_eq]
    exact hsend seg hseg
  have htold : ∀ seg ∈ segs, Told n (Held R is) (onWire seg) := fun seg hseg => by
    refine h.told _ hmem (onWire seg) ?_
    rw [decodeSegs_encodeSegs fun seg hseg => (hsend seg hseg).len]
    exact List.mem_map_of_mem hseg
  obtain ⟨kept', hkept, hsub, hcov, huna⟩ := h.outstanding.inputDatagram hn hsend' htold
  refine ⟨kept', ⟨h.sending.input _, (s.kcp.settings_input _).trans h.settings, hkept, h.owes,
    h.received, fun i hi => ?_, h.told⟩, hsub, huna⟩
  rcases h.covered i hi with hi | hheld
  · exact hcov i hi
  · exact Or.inr hheld

theorem call_sender (h : Acks conv s t n read R is kept) {c : EndpointCall}
    (hn : ∀ data, c = .input data → n < 2 ^ 31 ∧ data ∈ t.sent ∧
      ∃ segs, data = encodeSegs segs ∧ ∀ seg ∈ segs, Sendable conv seg) :
    ∃ n' kept', n ≤ n' ∧ Acks conv (s.call c) t n' read R is kept' := by
  cases c with
  | send m =>
    obtain ⟨ms, hms⟩ := s.accepted_call (.send m)
    have howes := h.owes.mono ms (le_refl n)
    rw [hms] at howes
    refine ⟨n, kept, le_rfl, h.sending.send m, (s.kcp.settings_send m _).trans h.settings,
      h.outstanding.congr (s.kcp.outstanding_send m _), howes, ?_, h.covered, h.told⟩
    rw [← hms, List.take_append_of_le_length h.owes.taking.le]
    exact h.received
  | recv =>
    exact ⟨n, kept, le_rfl, h.sending.recv, (s.kcp.settings_recv _).trans h.settings,
      h.outstanding.congr (s.kcp.outstanding_recv _), h.owes, h.received, h.covered, h.told⟩
  | input data =>
    obtain ⟨hlt, hmem, segs, rfl, hsend⟩ := hn data rfl
    obtain ⟨kept', h', -⟩ := h.input_sender hlt hsend hmem
    exact ⟨n, kept', le_rfl, h'⟩
  | update current =>
    obtain ⟨u, ts, he | he⟩ := s.call_update current
    · rw [he]
      exact (h.tick_sender _ u ts).flush_sender'
    · rw [he]
      exact ⟨n, kept, le_rfl, h.tick_sender _ u ts⟩
  | flush => exact h.flush_sender'

/-! ### Calls on the receiving end -/

/-- The receiving end takes in more. -/
theorem of_owes (h : Acks conv s t n read R is kept) {t' : Endpoint} {read' R' : ℕ} {is' : List ℕ}
    (howes : Owes conv s.accepted n t'.kcp read' R' is')
    (hheld : ∀ i, Held R is i → Held R' is' i)
    (hreceived : t'.received = withoutEmpty ((s.accepted.take read').map sentBytes))
    (htold : ∀ d ∈ t'.sent, d ∈ t.sent ∨ ∀ seg ∈ decodeSegs d, Told n (Held R' is') seg) :
    Acks conv s t' n read' R' is' kept := by
  refine ⟨h.sending, h.settings, h.outstanding, howes, hreceived,
    fun i hi => (h.covered i hi).imp_right (hheld i), fun d hd seg hseg => ?_⟩
  rcases htold d hd with hd | hd
  · exact (h.told d hd seg hseg).mono le_rfl hheld
  · exact hd seg hseg

/-- Time may pass at the receiving end. -/
theorem tick_receiver (h : Acks conv s t n read R is kept) (current u ts : U32) :
    Acks conv s (t.tick current u ts) n read R is kept :=
  h.of_owes (h.owes.congr rfl rfl fun _ => id) (fun _ => id) h.received fun _ hd => Or.inl hd

/-- **A flush** tells what is held. -/
theorem flush_receiver (h : Acks conv s t n read R is kept) {m : ℕ}
    (hback : Sending conv t.kcp t.accepted m t.sent) :
    Acks conv s (t.call .flush) n read R is kept := by
  have hacks : ∀ a ∈ (t.call .flush).kcp.acklist, a ∈ t.kcp.acklist := by
    intro a ha
    change a ∈ t.kcp.flush.1.acklist at ha
    by_cases hu : t.kcp.updated = 0
    · unfold Ikcpcb.flush at ha
      rwa [if_pos hu] at ha
    · rw [t.kcp.acklist_flush hu] at ha
      exact absurd ha List.not_mem_nil
  refine h.of_owes (h.owes.congr t.kcp.params_flush t.kcp.recvSide_flush hacks) (fun _ => id)
    h.received fun d hd => ?_
  rcases List.mem_append.mp hd with hd | hd
  · exact Or.inl hd
  · exact Or.inr fun seg hseg => h.owes.told hback.sends hback.fits hd hseg

/-- The segments of a datagram that the sending end has handed over. -/
theorem genuine (h : Acks conv s t n read R is kept) {d : Bytes} (hd : d ∈ s.sent) :
    ∃ segs, d = encodeSegs segs ∧ (∀ seg ∈ segs, Genuine conv (streamOf s.accepted) n seg) ∧
      decodeSegs d = segs.map onWire := by
  obtain ⟨segs, rfl, hsegs⟩ := (h.sending.genuine d hd).2
  exact ⟨segs, rfl, hsegs, decodeSegs_encodeSegs fun seg hseg => (hsegs seg hseg).sendable.len⟩

/-- **Reading** takes the next message, unless this is not complete. -/
theorem recv_receiver (h : Acks conv s t n read R is kept) :
    (t.call .recv = t ∧ ∀ m, s.accepted[read]? = some m →
        R < (streamOf (s.accepted.take read)).length + (cutOf m).length) ∨
      ∃ R' is', Acks conv s (t.call .recv) n (read + 1) R' is' kept ∧
        ∀ i, Held R is i → Held R' is' i := by
  rcases h.owes.recv h.sending.acceptable with
    ⟨hsame, hnone, hmiss⟩ | ⟨msg, R', is', hmsg, howes, hheld, hret⟩
  · refine Or.inl ⟨?_, hmiss⟩
    unfold Endpoint.call
    dsimp only
    rw [hsame, hnone, Option.toList_none, List.append_nil]
  · refine Or.inr ⟨R', is', h.of_owes howes hheld ?_ fun _ hd => Or.inl hd, hheld⟩
    change t.received ++ t.kcp.lkcpRecv.1.2.toList = _
    have htake : s.accepted.take (read + 1) = s.accepted.take read ++ [msg] := by
      rw [List.take_add_one, hmsg]
      rfl
    rw [hret, h.received, htake, List.map_append, withoutEmpty_append]
    rfl

theorem call_receiver (h : Acks conv s t n read R is kept) {c : EndpointCall} {m : ℕ}
    (hback : Sending conv t.kcp t.accepted m t.sent)
    (hn : ∀ data, c = .input data → n < 2 ^ 31 ∧ data ∈ s.sent) :
    ∃ read' R' is', Acks conv s (t.call c) n read' R' is' kept ∧
      ∀ i, Held R is i → Held R' is' i := by
  cases c with
  | send msg =>
    have hacks : (t.kcp.lkcpSend msg).2.acklist = t.kcp.acklist := by
      unfold Ikcpcb.lkcpSend Ikcpcb.send
      split_ifs
      · rfl
      · dsimp only
        split_ifs <;> rfl
    refine ⟨read, R, is, h.of_owes (h.owes.congr (t.kcp.params_send msg _)
      (t.kcp.recvSide_send msg _) fun a ha => ?_) (fun _ => id) h.received
      fun _ hd => Or.inl hd, fun _ => id⟩
    change a ∈ (t.kcp.lkcpSend msg).2.acklist at ha
    rwa [hacks] at ha
  | recv =>
    rcases h.recv_receiver with ⟨hsame, -⟩ | ⟨R', is', h', hheld⟩
    · rw [hsame]
      exact ⟨read, R, is, h, fun _ => id⟩
    · exact ⟨read + 1, R', is', h', hheld⟩
  | input data =>
    obtain ⟨hlt, hmem⟩ := hn data rfl
    obtain ⟨segs, rfl, hsegs, -⟩ := h.genuine hmem
    obtain ⟨R', is', howes, -, hheld⟩ := h.owes.input hlt hsegs
    exact ⟨read, R', is', h.of_owes howes hheld h.received fun _ hd => Or.inl hd, hheld⟩
  | update current =>
    obtain ⟨u, ts, he | he⟩ := t.call_update current
    · rw [he]
      have hback' : Sending conv (t.tick (BitVec.ofInt 32 current) u ts).kcp t.accepted m t.sent :=
        ⟨hback.configured, hback.sends, hback.acceptable, hback.genuine⟩
      exact ⟨read, R, is, (h.tick_receiver _ u ts).flush_receiver hback', fun _ => id⟩
    · rw [he]
      exact ⟨read, R, is, h.tick_receiver _ u ts, fun _ => id⟩
  | flush => exact ⟨read, R, is, h.flush_receiver hback, fun _ => id⟩

end Acks

namespace Duplex

variable {conv : U32} {d d' : Duplex}

/-- The endpoints are fed only while both have sent fewer than `2 ^ 31` segments. -/
def Short (d : Duplex) (e : Side × EndpointCall) : Prop :=
  ∀ data, e.2 = .input data → ∀ x, (d x).segments < 2 ^ 31

/-- In both directions, all that has been numbered is outstanding or held. -/
def Acked (conv : U32) (d : Duplex) : Prop :=
  ∀ x, ∃ n read R is kept, Acks conv (d x) (d x.other) n read R is kept

theorem acked_step {e : Side × EndpointCall} (h : d.Acked conv) (hok : d.Short e)
    (hstep : (duplexMachine conv).step d e = some d') : d'.Acked conv := by
  obtain ⟨x, c⟩ := e
  unfold duplexMachine at hstep
  dsimp only at hstep
  split_ifs at hstep with hfed
  obtain rfl := Option.some.inj hstep
  obtain ⟨n, read, R, is, kept, hx⟩ := h x
  obtain ⟨m, read', R', is', kept', hother⟩ := h x.other
  rw [Side.other_other] at hother
  -- a buffer fed is one of the other end
  have hdata : ∀ data, c = .input data → data ∈ (d x.other).sent := by
    rintro data rfl
    exact of_decide_eq_true hfed
  intro y
  by_cases hy : y = x
  · subst hy
    rw [Function.update_self, Function.update_of_ne y.other_ne]
    obtain ⟨n', kept₂, -, h'⟩ := hx.call_sender fun data hc => by
      have hlt := hok data hc y
      rw [hx.segments_eq] at hlt
      obtain ⟨segs, he, hsegs, -⟩ := hother.genuine (hdata data hc)
      exact ⟨hlt, hdata data hc, segs, he, fun seg hseg => (hsegs seg hseg).sendable⟩
    exact ⟨n', read, R, is, kept₂, h'⟩
  · obtain rfl : y = x.other := by cases x <;> cases y <;> simp_all [Side.other]
    rw [Function.update_of_ne hy, Side.other_other, Function.update_self]
    obtain ⟨read₂, R₂, is₂, h', -⟩ := hother.call_receiver hx.sending fun data hc => by
      have hlt := hok data hc x.other
      rw [hother.segments_eq] at hlt
      exact ⟨hlt, hdata data hc⟩
    exact ⟨m, read₂, R₂, is₂, kept', h'⟩

theorem acked_init (conv : U32) : (duplexMachine conv).init.Acked conv := fun _ =>
  ⟨0, 0, 0, [], [], .start conv⟩

theorem acked_of_reaches (h : (duplexMachine conv).Reaches Short d) : d.Acked conv :=
  h.invariant (acked_init conv) fun _ _ _ hd hok hstep => acked_step hd hok hstep

/-- `short`, decidably. -/
def short (d : Duplex) (e : Side × EndpointCall) : Bool :=
  match e.2 with
  | .input _ => decide ((d .client).segments < 2 ^ 31 ∧ (d .server).segments < 2 ^ 31)
  | _ => true

theorem short_of (d : Duplex) (e : Side × EndpointCall) (h : d.short e = true) : d.Short e := by
  rintro data hdata x
  unfold short at h
  rw [hdata] at h
  obtain ⟨hclient, hserver⟩ := of_decide_eq_true h
  cases x
  · exact hclient
  · exact hserver

end Duplex

/-- **No piece is lost between the ends**: in every run of two endpoints, whatever the network does,
the pieces that an endpoint has accepted and not numbered are in its queue, and each that it has
numbered is still in its `snd_buf`, or is in the `rcv_buf` of the other end, or is one of the first
`R`, which the other end has moved to its queue; what has been read from that queue is what the
other end has received. -/
theorem kept_or_held {conv : U32} {d : Duplex} (h : (duplexMachine conv).Reaches Duplex.Short d)
    (x : Side) (hn : (d x).segments < 2 ^ 31) : ∃ read R, R ≤ (d x).segments ∧
      (d x).kcp.sndQueue.map piece = (streamOf (d x).accepted).drop (d x).segments ∧
      (∀ i < (d x).segments, (∃ seg ∈ (d x).kcp.sndBuf, Placed (streamOf (d x).accepted) i seg) ∨
        (∃ seg ∈ (d x.other).kcp.rcvBuf, Placed (streamOf (d x).accepted) i seg) ∨ i < R) ∧
      (d x.other).kcp.rcvQueue.map piece =
        ((streamOf (d x).accepted).take R).drop (streamOf ((d x).accepted.take read)).length ∧
      (d x.other).received = withoutEmpty (((d x).accepted.take read).map sentBytes) := by
  obtain ⟨n, read, R, is, kept, hx⟩ := Duplex.acked_of_reaches h x
  rw [hx.segments_eq] at hn ⊢
  have haw := hx.owes.taking.awaits
  unfold Awaits at haw
  rw [Taking.stream_eq] at haw
  refine ⟨read, R, hx.owes.taking.bound, hx.sending.sends.queue, fun i hi => ?_, haw.queue,
    hx.received⟩
  rcases hx.covered i hi with hkept | hlt | hmem
  · -- the outstanding segment of this number carries the piece
    have hsn : BitVec.ofNat 32 i ∈ (d x).kcp.sndBuf.map Ikcpseg.sn := by
      rw [hx.outstanding.sns]
      exact List.mem_map_of_mem hkept
    obtain ⟨seg, hseg, hsn⟩ := List.mem_map.mp hsn
    obtain ⟨-, -, j, hj, hp⟩ := hx.sending.sends.buf seg hseg
    obtain rfl : i = j := (ofNat_eq_ofNat_iff (by omega) (by omega)).mp (hsn.symm.trans hp.1)
    exact Or.inl ⟨seg, hseg, hp⟩
  · exact Or.inr (Or.inr hlt)
  · obtain ⟨k, hk, rfl⟩ := List.mem_iff_getElem.mp hmem
    have hk' : k < (d x.other).kcp.rcvBuf.length := by
      have hlen := haw.buf.length_eq
      change is.length = (d x.other).kcp.rcvBuf.length at hlen
      omega
    exact Or.inr (Or.inl ⟨_, List.getElem_mem hk', haw.buf.get hk hk'⟩)

/-- Two messages are sent, and the second overtakes the first. -/
theorem kept_or_held_overtaken : ∃ d : Duplex,
    (duplexMachine 1).Reaches Duplex.Short d ∧ (d .client).segments = 2 ∧
      ∃ read R, R ≤ (d .client).segments ∧
        (d .client).kcp.sndQueue.map piece =
          (streamOf (d .client).accepted).drop (d .client).segments ∧
        (∀ i < (d .client).segments,
          (∃ seg ∈ (d .client).kcp.sndBuf, Placed (streamOf (d .client).accepted) i seg) ∨
            (∃ seg ∈ (d .server).kcp.rcvBuf, Placed (streamOf (d .client).accepted) i seg) ∨
              i < R) ∧
        (d .server).kcp.rcvQueue.map piece = ((streamOf (d .client).accepted).take R).drop
          (streamOf ((d .client).accepted.take read)).length ∧
        (d .server).received =
          withoutEmpty (((d .client).accepted.take read).map sentBytes) := by
  have h : ((duplexMachine 1).run Duplex.short (duplexMachine 1).init
      [(.client, .send [42]), (.client, .update 0), (.client, .send [43]), (.client, .flush),
        (.server, .input (encodeSegs [soleSegment 1 0 1 0 [43]]))]).any
      (fun d => decide ((d .client).segments = 2)) = true := by
    decide +kernel
  obtain ⟨d, hrun, hd⟩ := Option.any_eq_true _ _ |>.mp h
  have hreach := Machine.path_of_run Duplex.short_of _ hrun
  have hseg : (d .client).segments = 2 := of_decide_eq_true hd
  exact ⟨d, hreach, hseg, kept_or_held hreach .client (by omega)⟩

end LuaKcp
