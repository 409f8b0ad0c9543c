import LuaKcp.Ikcp.Sender

/-!
# The stream a control block receives

`Receives side S R D is` says that the receiving side has taken in the first `R` pieces of the
stream `S`, that the application has read the first `D` of them, the others being in `rcv_queue`,
and that `rcv_buf` holds the pieces numbered by `is`, in order and inside the window. A data
segment that carries the piece at its number keeps this (`Receives.inputPush`), whatever the order
and the repetitions, as long as its number is less than `2 ^ 31` away from the one expected.
Reading takes the next whole message of the stream (`Receives.recv`).
-/

namespace LuaKcp.Ikcp

/-- The receiving side holds the pieces of `S` below `R` and those in `is`; those below `D` have
been read. -/
structure Receives (side : RecvSide) (S : List (Piece UInt8)) (R D : ℕ) (is : List ℕ) : Prop where
  le : D ≤ R
  len : R ≤ S.length
  nxt : side.rcvNxt = BitVec.ofNat 32 R
  queue : side.rcvQueue.map piece = (S.take R).drop D
  wnd : R ≤ D + side.rcvWnd.toNat
  buf : List.Forall₂ (Placed S) is side.rcvBuf
  sorted : is.Pairwise (· < ·)
  window : ∀ i ∈ is, R ≤ i ∧ i < R + side.rcvWnd.toNat

/-- Everything that could be moved to `rcv_queue` has been moved. -/
def Settled (side : RecvSide) : Prop :=
  ∀ seg ∈ side.rcvBuf.head?, seg.sn = side.rcvNxt → side.rcvWnd.toNat ≤ side.rcvQueue.length

/-- The pieces that the receiving side holds or has read. -/
def Held (R : ℕ) (is : List ℕ) (i : ℕ) : Prop := i < R ∨ i ∈ is

/-- Numbers whose comparison modulo `2 ^ 32` is the one meant. -/
def Near (R j : ℕ) : Prop := j < R + 2 ^ 31 ∧ R ≤ j + 2 ^ 31

theorem Receives.length_queue {side : RecvSide} {S : List (Piece UInt8)} {R D : ℕ} {is : List ℕ}
    (h : Receives side S R D is) : side.rcvQueue.length = R - D := by
  have := congrArg List.length h.queue
  simpa [Nat.min_eq_left h.len] using this

/-- The stream may grow without the receiving side taking notice. -/
theorem Receives.append {side : RecvSide} {S : List (Piece UInt8)} {R D : ℕ} {is : List ℕ}
    (h : Receives side S R D is) (T : List (Piece UInt8)) : Receives side (S ++ T) R D is := by
  refine { h with len := ?_, queue := ?_, buf := h.buf.imp fun i seg hp => hp.append T }
  · rw [List.length_append]
    exact h.len.trans (Nat.le_add_right _ _)
  · rw [List.take_append_of_le_length h.len, h.queue]

/-! ## The window -/

/-- The window test of `ikcp_input` and `ikcp_parse_data`. -/
theorem inWindow_iff {R j : ℕ} {W : U32} (hn : Near R j) (hW : W.toNat ≤ 2 ^ 30) :
    (itimediff (BitVec.ofNat 32 j) (BitVec.ofNat 32 R + W) < 0 ∧
      itimediff (BitVec.ofNat 32 j) (BitVec.ofNat 32 R) ≥ 0) ↔ R ≤ j ∧ j < R + W.toNat := by
  obtain ⟨h₁, h₂⟩ := hn
  have hadd : BitVec.ofNat 32 R + W = BitVec.ofNat 32 (R + W.toNat) := by
    rw [BitVec.ofNat_add, BitVec.ofNat_toNat, BitVec.setWidth_eq]
  rw [hadd, itimediff, itimediff, serialDiff_eq_bmod, serialDiff_eq_bmod]
  simp only [Int.bmod]
  push_cast
  omega

/-- The comparison of two numbers inside the window. -/
theorem itimediff_pos_iff {R i j W : ℕ} (hW : W ≤ 2 ^ 30) (hi : R ≤ i ∧ i < R + W)
    (hj : R ≤ j ∧ j < R + W) :
    itimediff (BitVec.ofNat 32 j) (BitVec.ofNat 32 i) > 0 ↔ i < j := by
  rw [itimediff, serialDiff_ofNat (by push_cast; omega) (by push_cast; omega)]
  omega

/-! ## Moving segments to the queue -/

/-- The move loop takes in the pieces that follow on. -/
theorem moveLoop_spec {W : U32} (hW : W.toNat ≤ 2 ^ 30) {S : List (Piece UInt8)} {D : ℕ}
    {buf que : List Ikcpseg} {is : List ℕ} {R : ℕ}
    (h : Receives ⟨BitVec.ofNat 32 R, W, que, buf⟩ S R D is) :
    ∃ R' is', R ≤ R' ∧
      Receives ⟨(moveLoop W buf que (BitVec.ofNat 32 R)).2.2, W,
        (moveLoop W buf que (BitVec.ofNat 32 R)).2.1, (moveLoop W buf que (BitVec.ofNat 32 R)).1⟩
        S R' D is' ∧
      Settled ⟨(moveLoop W buf que (BitVec.ofNat 32 R)).2.2, W,
        (moveLoop W buf que (BitVec.ofNat 32 R)).2.1, (moveLoop W buf que (BitVec.ofNat 32 R)).1⟩ ∧
      ∀ i, Held R' is' i ↔ Held R is i := by
  induction buf generalizing que is R with
  | nil => exact ⟨R, is, le_rfl, h, by simp [Settled, moveLoop], fun _ => Iff.rfl⟩
  | cons seg buf ih =>
    obtain ⟨i, is, hp, hbuf, rfl⟩ : ∃ i is₀, Placed S i seg ∧ List.Forall₂ (Placed S) is₀ buf ∧
        is = i :: is₀ := List.forall₂_cons_right_iff.mp h.buf
    have hi := h.window i (by simp)
    have hlen := h.length_queue
    have hsorted := List.pairwise_cons.mp h.sorted
    unfold moveLoop
    split_ifs with hc
    · -- the head is the piece expected next
      obtain ⟨hsn, hq⟩ := hc
      have hiR : i = R := by
        rw [hp.1, ofNat_eq_ofNat_iff (by simp at hi; omega) (by simp at hi; omega)] at hsn
        exact hsn
      subst hiR
      obtain ⟨hlt, hget⟩ := List.getElem?_eq_some_iff.mp hp.2
      have hD := h.le
      have hwin := h.window
      simp only at hlen hq hwin
      have hmoved : Receives ⟨BitVec.ofNat 32 (i + 1), W, que ++ [seg], buf⟩ S (i + 1) D is :=
        { le := by omega
          len := hlt
          nxt := rfl
          queue := by
            rw [List.map_append, h.queue, ← List.take_append_getElem hlt,
              List.drop_append_of_le_length (by rw [List.length_take]; omega), hget]
            rfl
          wnd := by simp only; omega
          buf := hbuf
          sorted := hsorted.2
          window := fun k hk => by
            have := hsorted.1 k hk
            have := hwin k (by simp [hk])
            simp only at this ⊢
            omega }
      obtain ⟨R', is', hR', hrec, hset, hheld⟩ := ih hmoved
      have hnext : BitVec.ofNat 32 i + 1 = BitVec.ofNat 32 (i + 1) := by
        rw [BitVec.ofNat_add]
        rfl
      rw [hnext]
      refine ⟨R', is', by omega, hrec, hset, fun k => (hheld k).trans ?_⟩
      unfold Held
      rw [List.mem_cons, Nat.lt_succ_iff_lt_or_eq, or_assoc]
    · refine ⟨R, i :: is, le_rfl, h, ?_, fun _ => Iff.rfl⟩
      intro seg' hseg' hsn
      obtain rfl : seg = seg' := by simpa using hseg'
      by_contra hlt
      exact hc ⟨hsn, by simpa using hlt⟩

/-- **Moving the available segments** keeps the invariant and settles the receiving side. -/
theorem Receives.moveAvailable {kcp : Ikcpcb} {S : List (Piece UInt8)} {R D : ℕ} {is : List ℕ}
    (h : Receives kcp.recvSide S R D is) (hW : kcp.rcvWnd.toNat ≤ 2 ^ 30) :
    ∃ R' is', R ≤ R' ∧ Receives kcp.moveAvailable.recvSide S R' D is' ∧
      Settled kcp.moveAvailable.recvSide ∧ ∀ i, Held R' is' i ↔ Held R is i := by
  have hnxt : kcp.rcvNxt = BitVec.ofNat 32 R := h.nxt
  have hside : kcp.recvSide = ⟨BitVec.ofNat 32 R, kcp.rcvWnd, kcp.rcvQueue, kcp.rcvBuf⟩ := by
    rw [← hnxt]
    rfl
  rw [hside] at h
  have hmoved : kcp.moveAvailable.recvSide =
      ⟨(moveLoop kcp.rcvWnd kcp.rcvBuf kcp.rcvQueue (BitVec.ofNat 32 R)).2.2, kcp.rcvWnd,
        (moveLoop kcp.rcvWnd kcp.rcvBuf kcp.rcvQueue (BitVec.ofNat 32 R)).2.1,
        (moveLoop kcp.rcvWnd kcp.rcvBuf kcp.rcvQueue (BitVec.ofNat 32 R)).1⟩ := by
    rw [← hnxt]
    rfl
  rw [hmoved]
  exact moveLoop_spec hW h

/-! ## Taking in a data segment -/

/-- The search for the place of a new piece, on the buffer read from its tail. -/
theorem insertLoop_spec {S : List (Piece UInt8)} {R j W : ℕ} (hW : W ≤ 2 ^ 30)
    {newseg : Ikcpseg} (hj : R ≤ j ∧ j < R + W) (hnew : Placed S j newseg)
    {is : List ℕ} {buf : List Ikcpseg} (hbuf : List.Forall₂ (Placed S) is buf)
    (hdec : is.Pairwise (· > ·)) (hwin : ∀ i ∈ is, R ≤ i ∧ i < R + W) :
    (j ∈ is ∧ insertLoop newseg buf = none) ∨
      ∃ is' buf', insertLoop newseg buf = some buf' ∧ List.Forall₂ (Placed S) is' buf' ∧
        is'.Pairwise (· > ·) ∧ ∀ k, k ∈ is' ↔ k = j ∨ k ∈ is := by
  induction hbuf with
  | nil => exact Or.inr ⟨[j], [newseg], rfl, .cons hnew .nil, by simp, by simp⟩
  | @cons i seg is buf hp hbuf ih =>
    obtain ⟨hlt, hdec⟩ := List.pairwise_cons.mp hdec
    have hi := hwin i (by simp)
    unfold insertLoop
    split_ifs with h₁ h₂
    · -- the segment is a repetition
      rw [hp.1, hnew.1, ofNat_eq_ofNat_iff (by omega) (by omega)] at h₁
      exact Or.inl ⟨by simp [h₁], rfl⟩
    · rw [hp.1, hnew.1, itimediff_pos_iff hW hi hj] at h₂
      refine Or.inr ⟨j :: i :: is, _, rfl, .cons hnew (.cons hp hbuf), ?_, by simp⟩
      refine List.pairwise_cons.mpr ⟨fun k hk => ?_, List.pairwise_cons.mpr ⟨hlt, hdec⟩⟩
      rcases List.mem_cons.mp hk with rfl | hk
      · exact h₂
      · have := hlt k hk
        omega
    · rw [hp.1, hnew.1, itimediff_pos_iff hW hi hj] at h₂
      rw [hp.1, hnew.1, ofNat_eq_ofNat_iff (by omega) (by omega)] at h₁
      rcases ih hdec fun k hk => hwin k (by simp [hk]) with
        ⟨hmem, hnone⟩ | ⟨is', buf', hsome, hbuf', hdec', hmem⟩
      · exact Or.inl ⟨by simp [hmem], by rw [hnone]; rfl⟩
      · refine Or.inr ⟨i :: is', seg :: buf', by rw [hsome]; rfl, .cons hp hbuf', ?_, fun k => ?_⟩
        · refine List.pairwise_cons.mpr ⟨fun k hk => ?_, hdec'⟩
          rcases (hmem k).mp hk with rfl | hk
          · omega
          · exact hlt k hk
        · rw [List.mem_cons, hmem, List.mem_cons]
          tauto

/-- **A data segment inside the window** is taken in, whether it is new or a repetition. -/
theorem Receives.parseData {kcp : Ikcpcb} {S : List (Piece UInt8)} {R D j : ℕ} {is : List ℕ}
    {seg : Ikcpseg} (h : Receives kcp.recvSide S R D is) (hW : kcp.rcvWnd.toNat ≤ 2 ^ 30)
    (hp : Placed S j seg) (hn : Near R j) (hj : R ≤ j ∧ j < R + kcp.rcvWnd.toNat) :
    ∃ R' is', R ≤ R' ∧ Receives (kcp.parseData seg).recvSide S R' D is' ∧
      Settled (kcp.parseData seg).recvSide ∧ Held R' is' j ∧ ∀ i, Held R is i → Held R' is' i := by
  have hnxt : kcp.rcvNxt = BitVec.ofNat 32 R := h.nxt
  have hin := (inWindow_iff hn hW).mpr hj
  have hnot : ¬ (itimediff seg.sn (kcp.rcvNxt + kcp.rcvWnd) ≥ 0 ∨
      itimediff seg.sn kcp.rcvNxt < 0) := by
    rw [hp.1, hnxt]
    omega
  have hrev : List.Forall₂ (Placed S) is.reverse kcp.rcvBuf.reverse := List.rel_reverse h.buf
  have hdec : is.reverse.Pairwise (· > ·) := List.pairwise_reverse.mpr h.sorted
  have hwin : ∀ i ∈ is.reverse, R ≤ i ∧ i < R + kcp.rcvWnd.toNat := fun i hi =>
    h.window i (List.mem_reverse.mp hi)
  unfold Ikcpcb.parseData
  rw [if_neg hnot]
  rcases insertLoop_spec hW hj hp hrev hdec hwin with
    ⟨hmem, hnone⟩ | ⟨is', buf', hsome, hbuf', hdec', hmem⟩
  · simp only [hnone]
    obtain ⟨R', is', h₁, h₂, h₃, h₄⟩ := h.moveAvailable hW
    exact ⟨R', is', h₁, h₂, h₃, (h₄ j).mpr (Or.inr (List.mem_reverse.mp hmem)),
      fun i => (h₄ i).mpr⟩
  · simp only [hsome]
    have hmem' (k : ℕ) : k ∈ is'.reverse ↔ k = j ∨ k ∈ is := by
      rw [List.mem_reverse, hmem, List.mem_reverse]
    have hins :
        Receives ({ kcp with rcvBuf := buf'.reverse } : Ikcpcb).recvSide S R D is'.reverse :=
      { h with
        buf := List.rel_reverse hbuf'
        sorted := List.pairwise_reverse.mpr hdec'
        window := fun k hk => by
          rcases (hmem' k).mp hk with rfl | hk
          · exact hj
          · exact h.window k hk }
    obtain ⟨R', is'', h₁, h₂, h₃, h₄⟩ := hins.moveAvailable hW
    refine ⟨R', is'', h₁, h₂, h₃, (h₄ j).mpr (Or.inr ((hmem' j).mpr (Or.inl rfl))),
      fun i hi => (h₄ i).mpr ?_⟩
    exact hi.imp_right fun hi => (hmem' i).mpr (Or.inr hi)

/-- What one segment does to the receiving side: the pieces held stay held, and a data segment
inside the window is held after it. -/
structure TakesIn (side side' : RecvSide) (S : List (Piece UInt8)) (R D : ℕ) (is : List ℕ)
    (R' : ℕ) (is' : List ℕ) : Prop where
  le : R ≤ R'
  receives : Receives side' S R' D is'
  wnd : side'.rcvWnd = side.rcvWnd
  settled : Settled side → Settled side'
  held : ∀ i, Held R is i → Held R' is' i

theorem TakesIn.refl {side : RecvSide} {S : List (Piece UInt8)} {R D : ℕ} {is : List ℕ}
    (h : Receives side S R D is) : TakesIn side side S R D is R is :=
  ⟨le_rfl, h, rfl, id, fun _ => id⟩

theorem TakesIn.trans {side side' side'' : RecvSide} {S : List (Piece UInt8)} {R D R' R'' : ℕ}
    {is is' is'' : List ℕ} (h : TakesIn side side' S R D is R' is')
    (h' : TakesIn side' side'' S R' D is' R'' is'') : TakesIn side side'' S R D is R'' is'' :=
  ⟨h.le.trans h'.le, h'.receives, h'.wnd.trans h.wnd, fun hs => h'.settled (h.settled hs),
    fun i hi => h'.held i (h.held i hi)⟩

/-- **One segment of a datagram**, which carries a piece of the stream if it carries data. -/
theorem Receives.inputSegment {kcp : Ikcpcb} {S : List (Piece UInt8)} {R D : ℕ} {is : List ℕ}
    (h : Receives kcp.recvSide S R D is) (hW : kcp.rcvWnd.toNat ≤ 2 ^ 30) (seg : Ikcpseg) :
    (seg.cmd ≠ cmdPush → (kcp.inputSegment seg).recvSide = kcp.recvSide) ∧
    (seg.cmd = cmdPush → ∀ j, Placed S j seg → Near R j →
      ∃ R' is', TakesIn kcp.recvSide (kcp.inputSegment seg).recvSide S R D is R' is' ∧
        (R ≤ j → j < R + kcp.rcvWnd.toNat → Held R' is' j)) := by
  set kcp₁ := (({ kcp with rmtWnd := seg.wnd } : Ikcpcb).parseUna seg.una).shrinkBuf with hkcp₁
  have hside : kcp₁.recvSide = kcp.recvSide := rfl
  refine ⟨fun hne => ?_, fun hpush j hp hn => ?_⟩
  · unfold Ikcpcb.inputSegment
    rw [← hkcp₁]
    dsimp only
    rw [if_neg hne]
    split_ifs
    · rw [Ikcpcb.recvSide_inputAck, hside]
    · exact hside
    · exact hside
  · have hack : cmdPush ≠ cmdAck := by decide
    have hin := inWindow_iff hn hW
    have hnxt : kcp₁.rcvNxt = BitVec.ofNat 32 R := h.nxt
    unfold Ikcpcb.inputSegment
    rw [← hkcp₁]
    dsimp only
    rw [hpush, if_neg hack, if_pos rfl]
    unfold Ikcpcb.inputPush
    dsimp only
    split_ifs with h₁ h₂
    · rw [hp.1, hnxt] at h₁
      have h₂' : itimediff (BitVec.ofNat 32 j) (BitVec.ofNat 32 R) ≥ 0 := by
        rw [← hnxt, ← hp.1]
        exact h₂
      have hack : Receives (kcp₁.ackPush seg.sn seg.ts).recvSide S R D is := h
      obtain ⟨R', is', hle, hrec, hset, hj, hheld⟩ := hack.parseData hW hp hn (hin.mp ⟨h₁, h₂'⟩)
      exact ⟨R', is', ⟨hle, hrec, Ikcpcb.rcvWnd_parseData _ _, fun _ => hset, hheld⟩, fun _ _ => hj⟩
    · refine ⟨R, is, .refl h, fun hj₁ hj₂ => absurd (hin.mpr ⟨hj₁, hj₂⟩).2 ?_⟩
      rw [← hnxt, ← hp.1]
      exact h₂
    · refine ⟨R, is, .refl h, fun hj₁ hj₂ => absurd (hin.mpr ⟨hj₁, hj₂⟩).1 ?_⟩
      rw [← hnxt, ← hp.1]
      exact h₁

/-! ## Taking in a datagram -/

theorem piece_onWire {seg : Ikcpseg} (h : seg.frg.toNat < 256) :
    piece (onWire seg) = piece seg := by
  simp [piece, onWire, Nat.mod_eq_of_lt h]

/-- The segments of a datagram one after the other; `idx` tells the piece that a data segment
carries. -/
theorem Receives.inputSegments {S : List (Piece UInt8)} {D : ℕ} {W : U32} (hW : W.toNat ≤ 2 ^ 30)
    (idx : Ikcpseg → ℕ) {segs : List Ikcpseg} {kcp : Ikcpcb} {R : ℕ} {is : List ℕ}
    (h : Receives kcp.recvSide S R D is) (hwnd : kcp.rcvWnd = W)
    (hseg : ∀ seg ∈ segs, IsCmd seg.cmd ∧ (seg.cmd = cmdPush → seg.frg.toNat < 256 ∧
      Placed S (idx seg) seg ∧
        ∀ R', R ≤ R' → R' ≤ S.length → R' ≤ D + W.toNat → Near R' (idx seg))) :
    ∃ R' is', TakesIn kcp.recvSide
        (segs.foldl (fun kcp seg => kcp.inputSegment (onWire seg)) kcp).recvSide S R D is R' is' ∧
      ∀ seg ∈ segs, seg.cmd = cmdPush → idx seg < R + W.toNat → Held R' is' (idx seg) := by
  induction segs generalizing kcp R is with
  | nil => exact ⟨R, is, .refl h, by simp⟩
  | cons seg segs ih =>
    obtain ⟨hcmd, hpush⟩ := hseg seg (by simp)
    have hcmd' := hcmd.onWire
    have hR : R ≤ D + W.toNat := by
      rw [← hwnd]
      exact h.wnd
    -- the first segment, and what it leaves for the others
    have hfirst : ∃ R₁ is₁,
        TakesIn kcp.recvSide (kcp.inputSegment (onWire seg)).recvSide S R D is R₁ is₁ ∧
          (seg.cmd = cmdPush → idx seg < R + W.toNat → Held R₁ is₁ (idx seg)) := by
      obtain ⟨hother, hdata⟩ := h.inputSegment (by rw [hwnd]; exact hW) (onWire seg)
      by_cases hc : seg.cmd = cmdPush
      · obtain ⟨hfrg, hp, hn⟩ := hpush hc
        have hp' : Placed S (idx seg) (onWire seg) := ⟨hp.1, by rw [piece_onWire hfrg, hp.2]⟩
        obtain ⟨R₁, is₁, htake, hheld⟩ := hdata (by rw [hcmd', hc]) _ hp' (hn R le_rfl h.len hR)
        refine ⟨R₁, is₁, htake, fun _ hlt => ?_⟩
        by_cases hle : R ≤ idx seg
        · exact hheld hle (by rw [hwnd]; exact hlt)
        · exact htake.held _ (Or.inl (by omega))
      · refine ⟨R, is, ?_, fun hc' => absurd hc' hc⟩
        rw [hother (by rw [hcmd']; exact hc)]
        exact .refl h
    obtain ⟨R₁, is₁, htake, hheld⟩ := hfirst
    have hwnd₁ : (kcp.inputSegment (onWire seg)).rcvWnd = W := by
      rw [← hwnd]
      exact htake.wnd
    obtain ⟨R', is', htake', hheld'⟩ := ih htake.receives hwnd₁ fun s hs => by
      obtain ⟨h₁, h₂⟩ := hseg s (by simp [hs])
      refine ⟨h₁, fun hc => ?_⟩
      obtain ⟨hfrg, hp, hn⟩ := h₂ hc
      exact ⟨hfrg, hp, fun R' hR' => hn R' (htake.le.trans hR')⟩
    refine ⟨R', is', htake.trans htake', fun s hs hc hlt => ?_⟩
    rcases List.mem_cons.mp hs with rfl | hs
    · exact htake'.held _ (hheld hc hlt)
    · exact hheld' s hs hc (by have := htake.le; omega)

/-- **Input of a datagram** made of encoded segments whose data segments carry pieces of the
stream: it is accepted, what was held stays held, and the pieces inside the window are held. -/
theorem Receives.input {kcp : Ikcpcb} {S : List (Piece UInt8)} {R D : ℕ} {is : List ℕ}
    (h : Receives kcp.recvSide S R D is) (hW : kcp.rcvWnd.toNat ≤ 2 ^ 30) (idx : Ikcpseg → ℕ)
    {segs : List Ikcpseg} (hsend : ∀ seg ∈ segs, Sendable kcp.conv seg)
    (hpush : ∀ seg ∈ segs, seg.cmd = cmdPush → seg.frg.toNat < 256 ∧ Placed S (idx seg) seg ∧
      ∀ R', R ≤ R' → R' ≤ S.length → R' ≤ D + kcp.rcvWnd.toNat → Near R' (idx seg)) :
    ∃ R' is', TakesIn kcp.recvSide (kcp.input (encodeSegs segs)).2.recvSide S R D is R' is' ∧
      ∀ seg ∈ segs, seg.cmd = cmdPush → idx seg < R + kcp.rcvWnd.toNat → Held R' is' (idx seg) := by
  cases segs with
  | nil => exact ⟨R, is, .refl h, by simp⟩
  | cons seg segs =>
    have hlen : ¬ (encodeSegs (seg :: segs)).length < 24 := by
      simp only [encodeSegs_cons, List.length_append, length_encodeSeg, overhead]
      omega
    unfold Ikcpcb.input
    dsimp only
    rw [if_neg hlen, kcp.inputLoop_encode _ hsend, if_neg (by simp)]
    simp only [Ikcpcb.recvSide_growCwnd]
    exact h.inputSegments hW idx rfl fun s hs => ⟨(hsend s hs).cmd, hpush s hs⟩

/-- **Nothing held is kept back**: what a settled receiving side holds without a gap has been moved
to the queue, as far as the queue has room. -/
theorem Receives.le_of_held {side : RecvSide} {S : List (Piece UInt8)} {R D T : ℕ} {is : List ℕ}
    (h : Receives side S R D is) (hs : Settled side) (hT : T ≤ D + side.rcvWnd.toNat)
    (hheld : ∀ i < T, Held R is i) : T ≤ R := by
  by_contra hlt
  have hmem : R ∈ is := by
    rcases hheld R (by omega) with hR | hR
    · exact absurd hR (lt_irrefl R)
    · exact hR
  have hbuf := h.buf
  have hsorted := h.sorted
  have hwin := h.window
  cases is with
  | nil => exact absurd hmem (List.not_mem_nil)
  | cons i is =>
    -- the buffer starts with the piece expected next
    obtain ⟨seg, buf, hp, -, hb⟩ := List.forall₂_cons_left_iff.mp hbuf
    have hi : i = R := by
      rcases List.mem_cons.mp hmem with rfl | hmem
      · rfl
      · have h₁ := (List.pairwise_cons.mp hsorted).1 R hmem
        have h₂ := (hwin i (by simp)).1
        omega
    have hfull := hs seg (by simp [hb]) (by rw [hp.1, h.nxt, hi])
    have hlen := h.length_queue
    have hle := h.le
    omega

/-! ## The part of the stream that has been numbered -/

theorem Receives.take {side : RecvSide} {S : List (Piece UInt8)} {R D n : ℕ} {is : List ℕ}
    (h : Receives side S R D is) (hR : R ≤ n) (his : ∀ i ∈ is, i < n) :
    Receives side (S.take n) R D is := by
  refine { h with len := ?_, queue := ?_, buf := ?_ }
  · rw [List.length_take]
    exact le_min hR h.len
  · rw [List.take_take, min_eq_left hR, h.queue]
  · have hbuf := h.buf
    refine (List.forall₂_iff_get.mpr ⟨hbuf.length_eq, fun i h₁ h₂ => ?_⟩)
    have hp := hbuf.get h₁ h₂
    refine ⟨hp.1, ?_⟩
    rw [List.getElem?_take_of_lt (his _ (List.get_mem _ _))]
    exact hp.2

theorem Receives.of_take {side : RecvSide} {S : List (Piece UInt8)} {R D n : ℕ} {is : List ℕ}
    (h : Receives side (S.take n) R D is) :
    Receives side S R D is ∧ R ≤ n ∧ ∀ i ∈ is, i < n := by
  have hlen := h.len
  rw [List.length_take] at hlen
  have hR : R ≤ n := hlen.trans (min_le_left _ _)
  have hplaced {i : ℕ} {seg : Ikcpseg} (hp : Placed (S.take n) i seg) : i < n ∧ Placed S i seg := by
    have hi := (List.getElem?_eq_some_iff.mp hp.2).1
    rw [List.length_take] at hi
    have hin : i < n := lt_of_lt_of_le hi (min_le_left _ _)
    exact ⟨hin, hp.1, by rw [← List.getElem?_take_of_lt hin]; exact hp.2⟩
  refine ⟨{ h with len := hlen.trans (min_le_right _ _), queue := ?_, buf := ?_ }, hR, ?_⟩
  · rw [h.queue, List.take_take, min_eq_left hR]
  · exact h.buf.imp fun i seg hp => (hplaced hp).2
  · intro i hi
    obtain ⟨k, hk, rfl⟩ := List.mem_iff_getElem.mp hi
    have hk' : k < side.rcvBuf.length := by rw [← h.buf.length_eq]; exact hk
    exact (hplaced (h.buf.get hk hk')).1

/-! ## Reading a message -/

theorem peekLoop_eq (que : List Ikcpseg) : peekLoop que = (mergeLoop que).1.length := by
  induction que with
  | nil => rfl
  | cons seg p ih =>
    unfold peekLoop mergeLoop
    split_ifs <;> simp [ih]

/-- A message that is there has the size that `ikcp_peeksize` tells. -/
theorem length_mergeLoop {kcp : Ikcpcb} (h : 0 ≤ kcp.peeksize) :
    ((mergeLoop kcp.rcvQueue).1.length : ℤ) = kcp.peeksize := by
  unfold Ikcpcb.peeksize at h ⊢
  cases hq : kcp.rcvQueue with
  | nil =>
    rw [hq] at h
    exact absurd h (show ¬ (0 : ℤ) ≤ -1 by decide)
  | cons seg que =>
    rw [hq] at h
    dsimp only at h ⊢
    split_ifs at h ⊢ with hfrg hn
    · simp [mergeLoop, hfrg]
    · exact absurd h (by decide)
    · rw [peekLoop_eq]

/-- **What `ikcp_recv` does**: it fails and changes nothing, when no message is complete or the
buffer is too small for it, or returns the message whose size `ikcp_peeksize` tells. -/
theorem recv_cases (kcp : Ikcpcb) {len : ℤ} (hlen : 0 ≤ len) :
    ((kcp.recv len).1 < 0 ∧ (kcp.recv len).2.2 = kcp ∧ (kcp.peeksize < 0 ∨ len < kcp.peeksize)) ∨
      (0 ≤ kcp.peeksize ∧ kcp.peeksize ≤ len ∧ (kcp.recv len).1 = kcp.peeksize ∧
        ((kcp.recv len).2.1.length : ℤ) = kcp.peeksize) := by
  have hempty : kcp.rcvQueue = [] → kcp.peeksize < 0 := by
    intro h
    simp [Ikcpcb.peeksize, h]
  have habs : |len| = len := abs_of_nonneg hlen
  unfold Ikcpcb.recv
  split_ifs with h₁ h₂ h₃
  · exact Or.inl ⟨neg_one_lt_zero, rfl, Or.inl (hempty h₁)⟩
  · exact Or.inl ⟨by simp, rfl, Or.inl h₂⟩
  · rw [habs] at h₃
    exact Or.inl ⟨by simp, rfl, Or.inr h₃⟩
  · rw [habs] at h₃
    have hsize := length_mergeLoop (not_lt.mp h₂)
    exact Or.inr ⟨by omega, by omega, hsize, hsize⟩

theorem peeksize_congr {kcp kcp' : Ikcpcb} (h : kcp'.recvSide = kcp.recvSide) :
    kcp'.peeksize = kcp.peeksize := by
  have hque : kcp'.rcvQueue = kcp.rcvQueue := congrArg RecvSide.rcvQueue h
  unfold Ikcpcb.peeksize Ikcpcb.nrcvQue
  rw [hque]

/-- Reading depends on the receiving side only. -/
theorem recvSide_recv_congr {kcp kcp' : Ikcpcb} (h : kcp'.recvSide = kcp.recvSide) (len : ℤ) :
    (kcp'.recv len).2.2.recvSide = (kcp.recv len).2.2.recvSide := by
  have hpeek := peeksize_congr h
  simp only [Ikcpcb.recvSide, RecvSide.mk.injEq] at h
  obtain ⟨hnxt, hwnd, hque, hbuf⟩ := h
  unfold Ikcpcb.recv
  rw [hque, hpeek]
  split_ifs
  · simp only [Ikcpcb.recvSide, hnxt, hwnd, hque, hbuf]
  · simp only [Ikcpcb.recvSide, hnxt, hwnd, hque, hbuf]
  · simp only [Ikcpcb.recvSide, hnxt, hwnd, hque, hbuf]
  · simp only [Ikcpcb.recvSide_fastRecover]
    unfold Ikcpcb.dropMerged
    split_ifs <;> simp only [Ikcpcb.moveAvailable, Ikcpcb.recvSide, hnxt, hwnd, hque, hbuf]

/-- The merge loop on segments is the merge of the pieces they carry. -/
theorem mergeLoop_eq (que : List Ikcpseg) :
    (mergeLoop que).1 = (Piece.merge (que.map piece)).1 ∧
      (mergeLoop que).2.map piece = (Piece.merge (que.map piece)).2 := by
  induction que with
  | nil => exact ⟨rfl, rfl⟩
  | cons seg p ih =>
    have hfrg : seg.frg = 0 ↔ (piece seg).number = 0 := by
      rw [← BitVec.toNat_inj]
      rfl
    unfold mergeLoop
    simp only [List.map_cons, Piece.merge, ← hfrg]
    split_ifs
    · exact ⟨rfl, rfl⟩
    · exact ⟨congrArg (seg.data ++ ·) ih.1, ih.2⟩

/-- The receiving side between two reads: the messages `done` have been read, `rest` follow. -/
abbrev Awaits (side : RecvSide) (done rest : List (List (Piece UInt8))) (R : ℕ) (is : List ℕ) :
    Prop :=
  Receives side (Piece.stream (done ++ rest)) R (Piece.stream done).length is

variable {kcp : Ikcpcb} {done rest : List (List (Piece UInt8))} {R : ℕ} {is : List ℕ}

/-- The queue of a receiving side that holds the whole next message. -/
theorem Awaits.queue_eq {c : List (Piece UInt8)} (h : Awaits kcp.recvSide done (c :: rest) R is)
    (hR : (Piece.stream done).length + c.length ≤ R) :
    kcp.rcvQueue.map piece =
      c ++ (Piece.stream rest).take (R - (Piece.stream done).length - c.length) := by
  have hq := h.queue
  rw [Piece.stream_append, List.take_append, List.drop_append, List.length_take,
    List.take_of_length_le (by omega), List.drop_of_length_le le_rfl] at hq
  have hcons : Piece.stream (c :: rest) = c ++ Piece.stream rest := rfl
  rw [min_eq_right (by omega), Nat.sub_self, List.drop_zero, List.nil_append, hcons,
    List.take_append, List.take_of_length_le (by omega)] at hq
  exact hq

/-- **What `ikcp_peeksize` tells**: the size of the next message when all its pieces have been
taken in, and a negative number as long as one is missing. -/
theorem Awaits.peeksize (h : Awaits kcp.recvSide done rest R is) (hcut : ∀ c ∈ rest, Piece.IsCut c)
    (hnum : ∀ c ∈ rest, ∀ p ∈ c, p.number < 256) :
    (kcp.peeksize < 0 ∧ ∀ c rest', rest = c :: rest' → R < (Piece.stream done).length + c.length) ∨
      ∃ c rest', rest = c :: rest' ∧ (Piece.stream done).length + c.length ≤ R ∧
        kcp.rcvQueue ≠ [] ∧ kcp.peeksize = (Piece.body c).length := by
  have hqlen := h.length_queue
  have hle := h.le
  have hlen := h.len
  change kcp.rcvQueue.length = _ at hqlen
  cases hq : kcp.rcvQueue with
  | nil =>
    rw [hq, List.length_nil] at hqlen
    refine Or.inl ⟨by simp [Ikcpcb.peeksize, hq], fun c rest' hc => ?_⟩
    have := List.length_pos_iff.mpr (hcut c (by simp [hc])).ne_nil
    omega
  | cons seg que =>
    rw [hq, List.length_cons] at hqlen
    cases rest with
    | nil =>
      rw [List.append_nil] at hlen
      omega
    | cons c rest' =>
      have hc := hcut c (by simp)
      obtain ⟨p, ps, rfl⟩ := List.exists_cons_of_ne_nil hc.ne_nil
      -- the piece at the head of the queue is the first of the message
      have hhead : piece seg = p := by
        have := congrArg List.head? h.queue
        change (kcp.rcvQueue.map piece).head? = _ at this
        rw [hq, List.head?_drop, List.getElem?_take_of_lt (by omega), Piece.stream_append,
          List.getElem?_append_right le_rfl] at this
        simpa [Piece.stream] using this
      have hn : seg.frg.toNat = ps.length := by
        rw [← hc.head_number, ← hhead]
        rfl
      have hn' : (seg.frg + 1).toNat = ps.length + 1 := by
        have : p.number < 256 := hnum (p :: ps) (by simp) p (by simp)
        rw [← hhead] at this
        change seg.frg.toNat < 256 at this
        rw [BitVec.toNat_add]
        simp
        omega
      by_cases hR : (Piece.stream done).length + (p :: ps).length ≤ R
      · refine Or.inr ⟨p :: ps, rest', rfl, hR, by simp, ?_⟩
        have hmerge : (mergeLoop kcp.rcvQueue).1 = Piece.body (p :: ps) := by
          rw [(mergeLoop_eq _).1, h.queue_eq hR, Piece.merge_append hc]
        rw [List.length_cons] at hR
        unfold Ikcpcb.peeksize Ikcpcb.nrcvQue
        rw [← hmerge, ← peekLoop_eq, hq]
        dsimp only
        rw [hn', List.length_cons, if_neg (show ¬ que.length + 1 < ps.length + 1 by omega)]
        split_ifs with hfrg
        · simp [peekLoop, hfrg]
        · rfl
      · have hfrg : seg.frg ≠ 0 := by
          intro h0
          rw [h0] at hn
          rw [List.length_cons, ← hn] at hR
          simp at hR
          omega
        refine Or.inl ⟨?_, fun c rest hc => ?_⟩
        · rw [List.length_cons] at hR
          unfold Ikcpcb.peeksize Ikcpcb.nrcvQue
          rw [hq]
          dsimp only
          rw [if_neg hfrg, hn', List.length_cons, if_pos (by omega)]
          decide
        · obtain ⟨rfl, rfl⟩ := List.cons.inj hc
          omega

/-- **Reading** fails and changes nothing, or takes the next message of the stream. -/
theorem Awaits.recv (h : Awaits kcp.recvSide done rest R is) (hW : kcp.rcvWnd.toNat ≤ 2 ^ 30)
    (hcut : ∀ c ∈ rest, Piece.IsCut c) (hnum : ∀ c ∈ rest, ∀ p ∈ c, p.number < 256)
    (len : ℤ) (hlen : 0 ≤ len) :
    ((kcp.recv len).1 < 0 ∧ (kcp.recv len).2.2 = kcp ∧
      ∀ c rest', rest = c :: rest' → (Piece.body c).length ≤ len →
        R < (Piece.stream done).length + c.length) ∨
      ∃ c rest' R' is', rest = c :: rest' ∧ (Piece.stream done).length + c.length ≤ R ∧
        (Piece.body c).length ≤ len ∧ (kcp.recv len).1 = (Piece.body c).length ∧
        (kcp.recv len).2.1 = Piece.body c ∧ R ≤ R' ∧
        Awaits (kcp.recv len).2.2.recvSide (done ++ [c]) rest' R' is' ∧
        Settled (kcp.recv len).2.2.recvSide ∧ (kcp.recv len).2.2.rcvWnd = kcp.rcvWnd ∧
        ∀ i, Held R' is' i ↔ Held R is i := by
  have hlen' : ¬ len < 0 := by omega
  unfold Ikcpcb.recv
  rcases h.peeksize hcut hnum with ⟨hneg, hmiss⟩ | ⟨c, rest', rfl, hR, hne, hsize⟩
  · refine Or.inl ?_
    split_ifs
    · exact ⟨neg_one_lt_zero, rfl, fun c rest' hc _ => hmiss c rest' hc⟩
    · exact ⟨by simp, rfl, fun c rest' hc _ => hmiss c rest' hc⟩
  · by_cases hbig : kcp.peeksize > |len|
    · refine Or.inl ?_
      rw [if_neg hne, if_neg (by omega), if_pos hbig]
      refine ⟨by simp, rfl, fun c' rest'' hc hle => ?_⟩
      obtain ⟨rfl, rfl⟩ := List.cons.inj hc
      rw [hsize, abs_of_nonneg hlen] at hbig
      omega
    · refine Or.inr ?_
      rw [if_neg hne, if_neg (by omega), if_neg hbig]
      have hmerge := mergeLoop_eq kcp.rcvQueue
      rw [h.queue_eq hR, Piece.merge_append (hcut c (by simp))] at hmerge
      -- the queue without the message, before more is moved to it
      have hdrop : kcp.dropMerged (decide (len < 0)) =
          { kcp with rcvQueue := (mergeLoop kcp.rcvQueue).2 } := by
        simp [Ikcpcb.dropMerged, hlen']
      have hstream : Piece.stream (done ++ [c] ++ rest') = Piece.stream (done ++ c :: rest') := by
        simp
      have hdone : (Piece.stream (done ++ [c])).length = (Piece.stream done).length + c.length := by
        simp [Piece.stream]
      have hread :
          Awaits (kcp.dropMerged (decide (len < 0))).recvSide (done ++ [c]) rest' R is := by
        rw [hdrop]
        refine { h with le := by omega, len := ?_, queue := ?_, wnd := ?_, buf := ?_ }
        · rw [hstream]
          exact h.len
        · have hq := h.queue
          change kcp.rcvQueue.map piece = _ at hq
          rw [h.queue_eq hR] at hq
          change (mergeLoop kcp.rcvQueue).2.map piece = _
          rw [hmerge.2, hstream, hdone, ← List.drop_drop, ← hq, List.drop_left]
        · have := h.wnd
          change R ≤ _ + kcp.rcvWnd.toNat at this ⊢
          omega
        · rw [hstream]
          exact h.buf
      have hwnd : (kcp.dropMerged (decide (len < 0))).rcvWnd = kcp.rcvWnd := by rw [hdrop]
      obtain ⟨R', is', hle, hrec, hset, hheld⟩ := hread.moveAvailable (by rw [hwnd]; exact hW)
      refine ⟨c, rest', R', is', rfl, hR, ?_, by simp only [hmerge.1], hmerge.1, hle, ?_, ?_, ?_,
        hheld⟩
      · rw [abs_of_nonneg hlen] at hbig
        omega
      · rw [Ikcpcb.recvSide_fastRecover]
        exact hrec
      · rw [Ikcpcb.recvSide_fastRecover]
        exact hset
      · have := congrArg RecvSide.rcvWnd (Ikcpcb.recvSide_fastRecover
          (kcp.dropMerged (decide (len < 0))).moveAvailable
          (decide (kcp.nrcvQue ≥ kcp.rcvWnd.toNat)))
        exact this.trans hwnd

end LuaKcp.Ikcp
