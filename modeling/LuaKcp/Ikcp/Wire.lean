import LuaKcp.Ikcp.Sides

/-!
# Segments on the wire

What the loop of `ikcp_input` reads from the bytes that `ikcp_encode_seg` wrote: the same segment,
its command, fragment number and window cut to their width on the wire (`onWire`). Hence the loop
run on a datagram made of encoded segments applies these segments in order (`inputLoop_encode`).
-/

namespace LuaKcp.Ikcp

/-- A segment as the other end decodes it: the narrow fields cut to their width, the fields that
are not sent at their default. -/
def onWire (seg : Ikcpseg) : Ikcpseg where
  conv := seg.conv
  cmd := BitVec.ofNat 32 (seg.cmd.toNat % 256)
  frg := BitVec.ofNat 32 (seg.frg.toNat % 256)
  wnd := BitVec.ofNat 32 (seg.wnd.toNat % 65536)
  ts := seg.ts
  sn := seg.sn
  una := seg.una
  data := seg.data

/-- The datagram made of the encodings of some segments. -/
def encodeSegs (segs : List Ikcpseg) : Bytes := segs.flatMap encodeSeg

@[simp] theorem encodeSegs_nil : encodeSegs [] = [] := rfl

@[simp] theorem encodeSegs_cons (seg : Ikcpseg) (segs : List Ikcpseg) :
    encodeSegs (seg :: segs) = encodeSeg seg ++ encodeSegs segs := rfl

theorem encodeSegs_append (segs segs' : List Ikcpseg) :
    encodeSegs (segs ++ segs') = encodeSegs segs ++ encodeSegs segs' := by
  simp [encodeSegs]

@[simp] theorem length_encodeSeg (seg : Ikcpseg) :
    (encodeSeg seg).length = overhead + seg.data.length := by
  simp only [encodeSeg, List.length_append, length_leBytes, overhead]
  omega

theorem decode32u_leBytes (n : ℕ) (p : Bytes) :
    decode32u (leBytes 4 n ++ p) = (BitVec.ofNat 32 n, p) := by
  have h : BitVec.ofNat 32 (n % 256 ^ 4) = BitVec.ofNat 32 n := by
    apply BitVec.eq_of_toNat_eq
    simp
  simp only [decode32u, take_leBytes_append, drop_leBytes_append, leValue_leBytes, h]

theorem decode8u_leBytes (n : ℕ) (p : Bytes) :
    decode8u (leBytes 1 n ++ p) = (BitVec.ofNat 32 (n % 256), p) := by
  simp [decode8u]

theorem decode16u_leBytes (n : ℕ) (p : Bytes) :
    decode16u (leBytes 2 n ++ p) = (BitVec.ofNat 32 (n % 65536), p) := by
  simp [decode16u]

/-- **The header read back** from an encoded segment that other bytes follow. -/
theorem decodeHeader_encodeSeg (seg : Ikcpseg) (rest : Bytes) :
    decodeHeader (encodeSeg seg ++ rest) =
      ({ onWire seg with data := [] }, BitVec.ofNat 32 seg.data.length, seg.data ++ rest) := by
  simp only [decodeHeader, encodeSeg, List.append_assoc, decode32u_leBytes, decode8u_leBytes,
    decode16u_leBytes, onWire, BitVec.ofNat_toNat, BitVec.setWidth_eq]

/-- The commands the loop of `ikcp_input` accepts. -/
def IsCmd (cmd : U32) : Prop := cmd = cmdPush ∨ cmd = cmdAck ∨ cmd = cmdWask ∨ cmd = cmdWins

instance (cmd : U32) : Decidable (IsCmd cmd) := inferInstanceAs (Decidable (_ ∨ _))

/-- The segments of a datagram that the loop of `ikcp_input` applies: those before the first one
that it refuses. -/
def appliedSegs (conv : U32) (data : Bytes) : List Ikcpseg :=
  if data.length < overhead then []
  else
    let hd := decodeHeader data
    let len := hd.2.1.toNat
    if hd.1.conv ≠ conv ∨ hd.2.2.length < len ∨ ¬ IsCmd hd.1.cmd then []
    else { hd.1 with data := hd.2.2.take len } :: appliedSegs conv (hd.2.2.drop len)
termination_by data.length
decreasing_by
  simp only [decodeHeader, decode32u, decode16u, decode8u, List.length_drop, overhead] at *
  omega

/-- A segment that the other end of `conv` decodes: the length of its data fits its field. -/
structure Sendable (conv : U32) (seg : Ikcpseg) : Prop where
  conv_eq : seg.conv = conv
  cmd : IsCmd seg.cmd
  len : seg.data.length < 2 ^ 32

theorem IsCmd.onWire {seg : Ikcpseg} (h : IsCmd seg.cmd) : (onWire seg).cmd = seg.cmd := by
  rcases h with h | h | h | h <;> simp only [Ikcp.onWire, h] <;> rfl

namespace Ikcpcb

@[simp] theorem conv_inputSegment (kcp : Ikcpcb) (seg : Ikcpseg) :
    (kcp.inputSegment seg).conv = kcp.conv :=
  congrArg SendSide.conv (keeps_inputSegment kcp seg).1

/-- **The loop of `ikcp_input`** applies segments in order. -/
theorem inputLoop_eq (kcp : Ikcpcb) (data : Bytes) :
    (kcp.inputLoop data).2 = (appliedSegs kcp.conv data).foldl inputSegment kcp := by
  fun_induction inputLoop kcp data with
  | case1 kcp data hshort =>
    rw [appliedSegs, if_pos hshort]
    rfl
  | case2 kcp data hshort hd hconv =>
    rw [appliedSegs, if_neg hshort, if_pos (Or.inl hconv)]
    rfl
  | case3 kcp data hshort hd len hconv hlen =>
    rw [appliedSegs, if_neg hshort, if_pos (Or.inr (Or.inl hlen))]
    rfl
  | case4 kcp data hshort hd len hconv hlen hcmd =>
    have hnot : ¬ IsCmd hd.1.cmd := by
      rintro (h | h | h | h)
      exacts [hcmd.1 h, hcmd.2.1 h, hcmd.2.2.1 h, hcmd.2.2.2 h]
    rw [appliedSegs, if_neg hshort, if_pos (Or.inr (Or.inr hnot))]
    rfl
  | case5 kcp data hshort hd len hconv hlen hcmd ih =>
    have hok : ¬ (hd.1.conv ≠ kcp.conv ∨ hd.2.2.length < len ∨ ¬ IsCmd hd.1.cmd) := by
      rintro (h | h | h)
      · exact hconv h
      · exact hlen h
      · refine hcmd ⟨?_, ?_, ?_, ?_⟩ <;> intro heq <;> simp [IsCmd, heq] at h
    rw [ih, conv_inputSegment]
    conv_rhs => rw [appliedSegs, if_neg hshort]
    dsimp only
    rw [if_neg hok]
    rfl

/-- One round of the loop of `ikcp_input` on an encoded segment. -/
theorem inputLoop_encodeSeg (kcp : Ikcpcb) {seg : Ikcpseg} (h : Sendable kcp.conv seg)
    (rest : Bytes) :
    kcp.inputLoop (encodeSeg seg ++ rest) = (kcp.inputSegment (onWire seg)).inputLoop rest := by
  have hlen : (BitVec.ofNat 32 seg.data.length).toNat = seg.data.length := by
    simpa using Nat.mod_eq_of_lt h.len
  have hcmd : IsCmd (onWire seg).cmd := by rw [h.cmd.onWire]; exact h.cmd
  rw [inputLoop]
  simp only [decodeHeader_encodeSeg, hlen, List.length_append, length_encodeSeg,
    List.take_left, List.drop_left]
  rw [if_neg (by omega), if_neg (by simpa [onWire] using h.conv_eq), if_neg (by omega), if_neg ?_]
  · rfl
  · rintro ⟨h₁, h₂, h₃, h₄⟩
    rcases hcmd with h | h | h | h
    exacts [h₁ h, h₂ h, h₃ h, h₄ h]

/-- **Input of encoded segments**: the loop applies them in order and accepts the datagram. -/
theorem inputLoop_encode (segs : List Ikcpseg) (kcp : Ikcpcb)
    (h : ∀ seg ∈ segs, Sendable kcp.conv seg) :
    kcp.inputLoop (encodeSegs segs) =
      (0, segs.foldl (fun kcp seg => kcp.inputSegment (onWire seg)) kcp) := by
  induction segs generalizing kcp with
  | nil =>
    rw [inputLoop, if_pos (by simp [overhead])]
    rfl
  | cons seg segs ih =>
    rw [encodeSegs_cons, inputLoop_encodeSeg kcp (h seg (by simp)), ih]
    · rfl
    · intro seg' hseg'
      rw [conv_inputSegment]
      exact h seg' (by simp [hseg'])

end Ikcpcb

/-- A data segment that carries a whole message, sent by an endpoint with its window open. -/
def soleSegment (conv ts sn una : U32) (data : Bytes) : Ikcpseg where
  conv := conv
  cmd := cmdPush
  frg := 0
  wnd := 128
  ts := ts
  sn := sn
  una := una
  data := data

end LuaKcp.Ikcp
