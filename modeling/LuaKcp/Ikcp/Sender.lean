import LuaKcp.Ikcp.Wire
import LuaKcp.Foundations.Cut

/-!
# The stream a control block sends

The messages accepted by `ikcp_send` form one stream of pieces (`Piece.stream`). `Sends S n` says
that the sending side holds this stream: its first `n` pieces have been numbered, the others wait
in `snd_queue`, and every segment of `snd_buf` carries the piece at its number. Input only deletes
segments, a send extends the stream, and a flush numbers more of it and emits datagrams of
segments that carry the pieces at their numbers (`Sends.flush`).
-/

namespace LuaKcp.Ikcp

/-- The piece of a message that a segment carries. -/
def piece (seg : Ikcpseg) : Piece UInt8 := ⟨seg.frg.toNat, seg.data⟩

/-- The segment carries piece `i` of the stream. -/
def Placed (S : List (Piece UInt8)) (i : ℕ) (seg : Ikcpseg) : Prop :=
  seg.sn = BitVec.ofNat 32 i ∧ S[i]? = some (piece seg)

theorem Placed.append {S : List (Piece UInt8)} {i : ℕ} {seg : Ikcpseg} (h : Placed S i seg)
    (T : List (Piece UInt8)) : Placed (S ++ T) i seg := by
  obtain ⟨hlt, -⟩ := List.getElem?_eq_some_iff.mp h.2
  exact ⟨h.1, by rw [List.getElem?_append_left hlt, h.2]⟩

theorem Placed.congr {S : List (Piece UInt8)} {i : ℕ} {seg seg' : Ikcpseg} (h : Placed S i seg)
    (e : content seg' = content seg) : Placed S i seg' := by
  simp only [content, Ikcpseg.mk.injEq] at e
  simpa only [Placed, piece, e] using h

/-! ## The fragments of a message -/

theorem length_fragments (mss count : ℕ) (buffer : Bytes) (len : ℕ) :
    (fragments mss count buffer len).length = count := by
  induction count generalizing buffer len with
  | zero => rfl
  | succ count ih => simp [fragments, ih]

theorem number_lt_of_mem_fragments {mss count : ℕ} (hc : count ≤ 2 ^ 32) {buffer : Bytes}
    {len : ℕ} {p : Piece UInt8} (h : p ∈ (fragments mss count buffer len).map piece) :
    p.number < count := by
  induction count generalizing buffer len with
  | zero => simp [fragments] at h
  | succ count ih =>
    simp only [fragments, List.map_cons, List.mem_cons] at h
    rcases h with rfl | h
    · have : count % 2 ^ 32 = count := Nat.mod_eq_of_lt (by omega)
      simp only [piece, BitVec.toNat_ofNat, this]
      omega
    · have := ih (by omega) h
      omega

theorem length_data_of_mem_fragments {mss count : ℕ} {buffer : Bytes} {len : ℕ}
    {p : Piece UInt8} (h : p ∈ (fragments mss count buffer len).map piece) :
    p.data.length ≤ mss := by
  induction count generalizing buffer len with
  | zero => simp [fragments] at h
  | succ count ih =>
    simp only [fragments, List.map_cons, List.mem_cons] at h
    rcases h with rfl | h
    · simp only [piece, List.length_take]
      split_ifs <;> omega
    · exact ih h

/-- The fragments are numbered downwards to `0`. -/
theorem isCut_fragments {mss count : ℕ} (h₁ : 1 ≤ count) (hc : count ≤ 2 ^ 32) (buffer : Bytes)
    (len : ℕ) : Piece.IsCut ((fragments mss count buffer len).map piece) := by
  induction count generalizing buffer len with
  | zero => omega
  | succ count ih =>
    cases count with
    | zero => exact .last _ rfl
    | succ count =>
      have hmod : (count + 1) % 2 ^ 32 = count % 2 ^ 32 + 1 := by
        rw [Nat.mod_eq_of_lt (by omega), Nat.mod_eq_of_lt (by omega)]
      simp only [fragments, List.map_cons]
      exact .cons _ _ _ (by simpa [piece] using hmod) (ih (by omega) (by omega) _ _)

/-- The fragments hold the bytes of the message. -/
theorem body_fragments {mss count : ℕ} {buffer : Bytes} {len : ℕ} (hlen : len ≤ buffer.length)
    (h : len ≤ count * mss) :
    Piece.body ((fragments mss count buffer len).map piece) = buffer.take len := by
  induction count generalizing buffer len with
  | zero => simp [fragments, show len = 0 by omega]
  | succ count ih =>
    simp only [fragments, List.map_cons, Piece.body_cons, piece]
    have hrest : len ≤ count * mss + mss := by rwa [Nat.succ_mul] at h
    split_ifs with hm
    · rw [ih (by rw [List.length_drop]; omega) (by omega), ← List.take_add]
      congr 1
      omega
    · rw [ih (by rw [List.length_drop]; omega) (by omega), ← List.take_add]
      congr 1
      omega

/-- The pieces that `ikcp_send` appends to the stream. -/
def sendPieces (kcp : Ikcpcb) (buffer : Bytes) (len : ℕ) : List (Piece UInt8) :=
  (fragments kcp.mss.toNat (kcp.sendCount len) buffer len).map piece

theorem one_le_sendCount (kcp : Ikcpcb) (len : ℕ) : 1 ≤ kcp.sendCount len := by
  unfold Ikcpcb.sendCount
  dsimp only
  split_ifs with h₁ h₂ h₂
  exacts [le_rfl, le_rfl, le_rfl, Nat.one_le_iff_ne_zero.mpr h₂]

/-- Enough fragments for the whole message. -/
theorem le_sendCount_mul (kcp : Ikcpcb) {len : ℕ} (hm : 0 < kcp.mss.toNat)
    (hlen : len + kcp.mss.toNat ≤ 2 ^ 32) : len ≤ kcp.sendCount len * kcp.mss.toNat := by
  unfold Ikcpcb.sendCount
  dsimp only
  split_ifs with h₁ h₂ h₂
  · omega
  · omega
  · rw [Nat.mod_eq_of_lt (by omega), Nat.div_eq_zero_iff] at h₂
    omega
  · rw [Nat.mod_eq_of_lt (by omega)]
    have := Nat.lt_div_mul_add (a := len + kcp.mss.toNat - 1) hm
    omega

/-! ## The invariant -/

/-- The pieces fit the fields of a segment, and their segments a datagram. -/
def Fits (mtu : U32) (S : List (Piece UInt8)) : Prop :=
  ∀ p ∈ S, p.number < 256 ∧ overhead + p.data.length ≤ mtu.toNat

/-- The sending side holds the stream `S`, `n` pieces of which have been numbered. -/
structure Sends (side : SendSide) (S : List (Piece UInt8)) (n : ℕ) : Prop where
  le : n ≤ S.length
  nxt : side.sndNxt = BitVec.ofNat 32 n
  queue : side.sndQueue.map piece = S.drop n
  buf : ∀ seg ∈ side.sndBuf, seg.conv = side.conv ∧ seg.cmd = cmdPush ∧ ∃ i < n, Placed S i seg

/-- A segment that this end may have sent: a data segment carries the piece at its number. -/
structure Genuine (conv : U32) (S : List (Piece UInt8)) (n : ℕ) (seg : Ikcpseg) : Prop where
  sendable : Sendable conv seg
  placed : seg.cmd = cmdPush → seg.frg.toNat < 256 ∧ ∃ i < n, Placed S i seg

/-- A datagram of at most `mtu` bytes, made of segments with a property. -/
def Carries (mtu : U32) (P : Ikcpseg → Prop) (d : Bytes) : Prop :=
  d.length ≤ mtu.toNat ∧ ∃ segs, d = encodeSegs segs ∧ ∀ seg ∈ segs, P seg

theorem Carries.mono {mtu : U32} {P Q : Ikcpseg → Prop} (h : ∀ seg, P seg → Q seg) {d : Bytes}
    (hd : Carries mtu P d) : Carries mtu Q d := by
  obtain ⟨hlen, segs, hd, hs⟩ := hd
  exact ⟨hlen, segs, hd, fun seg hseg => h seg (hs seg hseg)⟩

theorem Genuine.mono {conv : U32} {S : List (Piece UInt8)} {n n' : ℕ} (hn : n ≤ n')
    (T : List (Piece UInt8)) {seg : Ikcpseg} (h : Genuine conv S n seg) :
    Genuine conv (S ++ T) n' seg := by
  refine ⟨h.sendable, fun hc => ?_⟩
  obtain ⟨hf, i, hi, hp⟩ := h.placed hc
  exact ⟨hf, i, by omega, hp.append T⟩

/-- Input keeps the invariant. -/
theorem Sends.keeps {kcp kcp' : Ikcpcb} {S : List (Piece UInt8)} {n : ℕ}
    (h : Sends kcp.sendSide S n) (hk : kcp.Keeps kcp') : Sends kcp'.sendSide S n := by
  obtain ⟨hside, hsub⟩ := hk
  rw [hside]
  refine ⟨h.le, h.nxt, h.queue, fun seg hseg => ?_⟩
  obtain ⟨seg₀, hmem, he⟩ := List.mem_map.mp (hsub.subset (List.mem_map_of_mem hseg))
  obtain ⟨hconv, hcmd, i, hi, hp⟩ := h.buf seg₀ hmem
  have he' := he
  simp only [content, Ikcpseg.mk.injEq] at he'
  exact ⟨he'.1 ▸ hconv, he'.2.1 ▸ hcmd, i, hi, hp.congr he.symm⟩

/-- **An accepted send** extends the stream by the pieces of the message. -/
theorem Sends.send {kcp : Ikcpcb} {S : List (Piece UInt8)} {n : ℕ} (h : Sends kcp.sendSide S n)
    (buffer : Bytes) {len : ℕ} (hacc : 0 ≤ (kcp.send buffer len).1) :
    Sends (kcp.send buffer len).2.sendSide (S ++ sendPieces kcp buffer len) n := by
  have hle := h.le
  by_cases hc : kcp.sendCount len > 255
  · rw [Ikcpcb.send, if_neg (by omega)] at hacc
    simp [hc] at hacc
  have hsend : (kcp.send buffer len).2.sendSide = { kcp.sendSide with
      sndQueue := kcp.sndQueue ++ fragments kcp.mss.toNat (kcp.sendCount len) buffer len } := by
    rw [Ikcpcb.send, if_neg (by omega)]
    simp only [Int.toNat_natCast, hc, if_false]
    rfl
  rw [hsend]
  refine ⟨by rw [List.length_append]; omega, h.nxt, ?_, fun seg hseg => ?_⟩
  · rw [List.drop_append_of_le_length hle, ← h.queue]
    exact List.map_append
  · obtain ⟨hconv, hcmd, i, hi, hp⟩ := h.buf seg hseg
    exact ⟨hconv, hcmd, i, hi, hp.append _⟩

/-! ## Flush -/

/-- The buffer of a flush and the datagrams handed over hold segments with the property `P`. -/
def FlushBuf.Holds (mtu : U32) (P : Ikcpseg → Prop) (b : FlushBuf) : Prop :=
  Carries mtu P b.buf ∧ ∀ d ∈ b.out, Carries mtu P d

namespace FlushBuf.Holds

variable {mtu : U32} {P : Ikcpseg → Prop} {b : FlushBuf}

theorem empty (mtu : U32) (P : Ikcpseg → Prop) : Holds mtu P ⟨[], []⟩ :=
  ⟨⟨by simp, [], rfl, by simp⟩, by simp⟩

theorem output (h : Holds mtu P b) : ∀ d ∈ b.output, Carries mtu P d := by
  intro d hd
  unfold FlushBuf.output at hd
  split_ifs at hd
  · exact h.2 d hd
  · rcases List.mem_append.mp hd with hd | hd
    · exact h.2 d hd
    · obtain rfl := List.mem_singleton.mp hd
      exact h.1

theorem put (h : Holds mtu P b) {seg : Ikcpseg} (hseg : P seg)
    (hlen : overhead + seg.data.length ≤ mtu.toNat) :
    Holds mtu P (b.put mtu (overhead + seg.data.length) (encodeSeg seg)) := by
  unfold FlushBuf.put
  split_ifs with hfull
  · exact ⟨⟨by simpa using hlen, [seg], by simp, by simpa using hseg⟩, h.output⟩
  · obtain ⟨-, segs, hb, hs⟩ := h.1
    refine ⟨⟨?_, segs ++ [seg], by simp [encodeSegs_append, hb], fun s hs' => ?_⟩, h.2⟩
    · rw [List.length_append, length_encodeSeg]
      omega
    · rcases List.mem_append.mp hs' with hs' | hs'
      · exact hs s hs'
      · obtain rfl := List.mem_singleton.mp hs'
        exact hseg

theorem flushAcks (acks : List (U32 × U32)) (seg : Ikcpseg) (hmtu : overhead ≤ mtu.toNat)
    (hdata : seg.data = []) (h : Holds mtu P b)
    (hseg : ∀ sn ts, P { seg with sn := sn, ts := ts }) :
    Holds mtu P (flushAcks mtu acks seg b).2 ∧
      ∃ sn ts, (Ikcp.flushAcks mtu acks seg b).1 = { seg with sn := sn, ts := ts } := by
  induction acks generalizing seg b with
  | nil => exact ⟨h, seg.sn, seg.ts, rfl⟩
  | cons a acks ih =>
    obtain ⟨sn, ts⟩ := a
    have hput := h.put (hseg sn ts) (by simpa [hdata] using hmtu)
    simp only [hdata, List.length_nil, Nat.add_zero] at hput
    obtain ⟨hh, sn', ts', he⟩ := ih { seg with sn := sn, ts := ts } hdata hput
      fun sn' ts' => hseg sn' ts'
    unfold Ikcp.flushAcks
    simp only [hdata] at hh he ⊢
    exact ⟨hh, sn', ts', he⟩

theorem flushProbes {kcp : Ikcpcb} {seg : Ikcpseg} (hmtu : overhead ≤ kcp.mtu.toNat)
    (hdata : seg.data = []) (h : Holds kcp.mtu P b)
    (hask : P { seg with cmd := cmdWask }) (htell : P { seg with cmd := cmdWins }) :
    Holds kcp.mtu P (kcp.flushProbes seg b) := by
  have hput {b : FlushBuf} (h : Holds kcp.mtu P b) (cmd : U32) (hP : P { seg with cmd := cmd }) :
      Holds kcp.mtu P (b.put kcp.mtu overhead (encodeSeg { seg with cmd := cmd })) := by
    simpa [hdata] using h.put hP (by simpa [hdata] using hmtu)
  unfold Ikcpcb.flushProbes
  dsimp only
  split_ifs
  · exact hput (hput h _ hask) _ htell
  · exact hput h _ htell
  · exact hput h _ hask
  · exact h

end FlushBuf.Holds

theorem content_resendSegment {kcp : Ikcpcb} {resent rtomin : U32} {seg seg' : Ikcpseg}
    (h : resendSegment kcp resent rtomin seg = some seg') : content seg' = content seg := by
  unfold resendSegment at h
  split_ifs at h <;> obtain rfl := Option.some.inj h <;> rfl

theorem content_flushSegment (kcp : Ikcpcb) (wnd resent rtomin : U32) (seg : Ikcpseg)
    (acc : FlushAcc) : content (flushSegment kcp wnd resent rtomin seg acc).1 = content seg := by
  unfold flushSegment
  cases h : resendSegment kcp resent rtomin seg with
  | none => rfl
  | some seg' => exact (content_resendSegment h : content seg' = content seg)

/-- The loop over `snd_buf` keeps the contents of the segments and sends segments of these
contents. -/
theorem flushData_spec {kcp : Ikcpcb} (wnd resent rtomin : U32) {P : Ikcpseg → Prop}
    {segs : List Ikcpseg} (hP : ∀ seg ∈ segs, ∀ seg', content seg' = content seg →
      P seg' ∧ overhead + seg'.data.length ≤ kcp.mtu.toNat)
    {acc : FlushAcc} (h : acc.buf.Holds kcp.mtu P) :
    (flushData kcp wnd resent rtomin segs acc).1.map content = segs.map content ∧
      (flushData kcp wnd resent rtomin segs acc).2.buf.Holds kcp.mtu P := by
  induction segs generalizing acc with
  | nil => exact ⟨rfl, h⟩
  | cons seg segs ih =>
    have hcont := content_flushSegment kcp wnd resent rtomin seg acc
    have hstep : (flushSegment kcp wnd resent rtomin seg acc).2.buf.Holds kcp.mtu P := by
      unfold flushSegment at hcont ⊢
      cases hr : resendSegment kcp resent rtomin seg with
      | none => exact h
      | some seg' =>
        simp only [hr] at hcont
        obtain ⟨hseg, hlen⟩ := hP seg (by simp) _ hcont
        exact h.put hseg hlen
    obtain ⟨h₁, h₂⟩ := ih (fun s hs => hP s (by simp [hs])) hstep
    exact ⟨by simp only [flushData, List.map_cons, h₁, hcont], h₂⟩

/-- The move from `snd_queue` to `snd_buf` numbers the next pieces of the stream. -/
theorem moveToBuf_spec (kcp : Ikcpcb) (wnd cwnd : U32) {S : List (Piece UInt8)}
    {que buf : List Ikcpseg} {nxt : U32} {n : ℕ} (hn : n ≤ S.length)
    (hnxt : nxt = BitVec.ofNat 32 n) (hque : que.map piece = S.drop n)
    (hbuf : ∀ seg ∈ buf, seg.conv = kcp.conv ∧ seg.cmd = cmdPush ∧ ∃ i < n, Placed S i seg) :
    ∃ n', n ≤ n' ∧ n' ≤ S.length ∧
      (moveToBuf kcp wnd cwnd que buf nxt).2.2 = BitVec.ofNat 32 n' ∧
      (moveToBuf kcp wnd cwnd que buf nxt).1.map piece = S.drop n' ∧
      ∀ seg ∈ (moveToBuf kcp wnd cwnd que buf nxt).2.1,
        seg.conv = kcp.conv ∧ seg.cmd = cmdPush ∧ ∃ i < n', Placed S i seg := by
  induction que generalizing buf nxt n with
  | nil => exact ⟨n, le_rfl, hn, hnxt, hque, hbuf⟩
  | cons newseg que ih =>
    unfold moveToBuf
    split_ifs
    · have hlt : n < S.length := by
        by_contra hge
        rw [List.drop_of_length_le (by omega)] at hque
        simp at hque
      rw [List.drop_eq_getElem_cons hlt, List.map_cons, List.cons.injEq] at hque
      have hp : S[n]? = some (piece newseg) := by rw [List.getElem?_eq_getElem hlt, hque.1]
      have hnxt' : nxt + 1 = BitVec.ofNat 32 (n + 1) := by
        rw [hnxt, BitVec.ofNat_add]
        rfl
      have hbuf' : ∀ seg ∈ buf ++ [{ newseg with
          conv := kcp.conv, cmd := cmdPush, wnd := wnd, ts := kcp.current, sn := nxt,
          una := kcp.rcvNxt, resendts := kcp.current, rto := kcp.rxRto, fastack := 0, xmit := 0 }],
          seg.conv = kcp.conv ∧ seg.cmd = cmdPush ∧ ∃ i < n + 1, Placed S i seg := by
        intro seg hseg
        rcases List.mem_append.mp hseg with hseg | hseg
        · obtain ⟨hc, hcmd, i, hi, hpl⟩ := hbuf seg hseg
          exact ⟨hc, hcmd, i, by omega, hpl⟩
        · obtain rfl := List.mem_singleton.mp hseg
          exact ⟨rfl, rfl, n, by omega, hnxt, hp⟩
      obtain ⟨n', h₁, h₂⟩ := ih hlt hnxt' hque.2 hbuf'
      exact ⟨n', by omega, h₂⟩
    · exact ⟨n, le_rfl, hn, hnxt, hque, hbuf⟩

theorem Genuine.of_cmd_ne {conv : U32} {S : List (Piece UInt8)} {n : ℕ} {seg : Ikcpseg}
    (h : Sendable conv seg) (hne : seg.cmd ≠ cmdPush) : Genuine conv S n seg :=
  ⟨h, fun hc => absurd hc hne⟩

/-- **Flush** numbers more pieces of the stream and emits datagrams of genuine segments. -/
theorem Sends.flush {kcp : Ikcpcb} {S : List (Piece UInt8)} {n : ℕ} (h : Sends kcp.sendSide S n)
    (hmtu : overhead ≤ kcp.mtu.toNat) (hfits : Fits kcp.mtu S) :
    ∃ n', n ≤ n' ∧ Sends kcp.flush.1.sendSide S n' ∧
      ∀ d ∈ kcp.flush.2, Carries kcp.mtu (Genuine kcp.conv S n') d := by
  by_cases hu : kcp.updated = 0
  · refine ⟨n, le_rfl, ?_, ?_⟩ <;> simp only [Ikcpcb.flush, hu, if_true]
    · exact h
    · simp
  -- the control block in which the segments are moved and sent
  set kcp₁ : Ikcpcb := ({ kcp with acklist := [] } : Ikcpcb).probeWindow with hkcp₁
  set kcp₂ : Ikcpcb := { kcp₁ with probe := 0 } with hkcp₂
  have hside : kcp₂.sendSide = kcp.sendSide :=
    Ikcpcb.sendSide_probeWindow { kcp with acklist := [] }
  have h₂ : Sends kcp₂.sendSide S n := hside ▸ h
  have hconv : kcp₂.conv = kcp.conv := congrArg SendSide.conv hside
  have hmtu₁ : kcp₁.mtu = kcp.mtu := congrArg SendSide.mtu hside
  have hmtu₂ : kcp₂.mtu = kcp.mtu := hmtu₁
  obtain ⟨n', hnn', hle', hnxt, hque, hbuf⟩ := moveToBuf_spec kcp₂ kcp.wndUnused
    kcp₂.flushCwnd h₂.le h₂.nxt h₂.queue h₂.buf
  set moved := moveToBuf kcp₂ kcp.wndUnused kcp₂.flushCwnd kcp₂.sndQueue kcp₂.sndBuf kcp₂.sndNxt
  have hgen : ∀ seg ∈ moved.2.1, ∀ seg', content seg' = content seg →
      Genuine kcp.conv S n' seg' ∧ overhead + seg'.data.length ≤ kcp.mtu.toNat := by
    intro seg hseg seg' he
    obtain ⟨hc, hcmd, i, hi, hp⟩ := hbuf seg hseg
    have hp' := hp.congr he
    obtain ⟨hfrg, hlen⟩ : seg'.frg.toNat < 256 ∧ overhead + seg'.data.length ≤ kcp.mtu.toNat :=
      hfits _ (List.mem_of_getElem? hp'.2)
    have hmtu' := kcp.mtu.isLt
    simp only [content, Ikcpseg.mk.injEq] at he
    exact ⟨⟨⟨by rw [he.1, hc, hconv], Or.inl (he.2.1.trans hcmd), by omega⟩,
      fun _ => ⟨hfrg, i, hi, hp'⟩⟩, hlen⟩
  have hack (cmd : U32) (hc : IsCmd cmd) (hne : cmd ≠ cmdPush) (sn ts : U32) :
      Genuine kcp.conv S n' { kcp.ackSegment with cmd := cmd, sn := sn, ts := ts } :=
    .of_cmd_ne ⟨rfl, hc, by simp [Ikcpcb.ackSegment]⟩ hne
  obtain ⟨hacks, sn, ts, hseg⟩ :=
    (FlushBuf.Holds.empty kcp.mtu (Genuine kcp.conv S n')).flushAcks
      kcp.acklist kcp.ackSegment hmtu rfl (hack cmdAck (Or.inr (Or.inl rfl)) (by decide))
  set probes := kcp₁.flushProbes (flushAcks kcp.mtu kcp.acklist kcp.ackSegment ⟨[], []⟩).1
    (flushAcks kcp.mtu kcp.acklist kcp.ackSegment ⟨[], []⟩).2 with hprobes_def
  have hprobes : probes.Holds kcp.mtu (Genuine kcp.conv S n') := by
    rw [← hmtu₁] at hacks hmtu hseg
    rw [hprobes_def, ← hmtu₁]
    apply hacks.flushProbes hmtu <;> rw [hseg]
    · rfl
    · exact hack cmdWask (Or.inr (Or.inr (Or.inl rfl))) (by decide) sn ts
    · exact hack cmdWins (Or.inr (Or.inr (Or.inr rfl))) (by decide) sn ts
  set kcp₃ : Ikcpcb :=
    { kcp₂ with sndQueue := moved.1, sndBuf := moved.2.1, sndNxt := moved.2.2 } with hkcp₃
  have h₃ : Sends kcp₃.sendSide S n' := ⟨hle', hnxt, hque, hbuf⟩
  have hmtu₃ : kcp₃.mtu = kcp.mtu := hmtu₁
  rw [← hmtu₃] at hgen hprobes ⊢
  have hacc : (FlushAcc.mk probes kcp₃.xmit kcp₃.state 0 false).buf.Holds kcp₃.mtu
      (Genuine kcp.conv S n') := hprobes
  have hdata (resent rtomin : U32) := flushData_spec kcp.wndUnused resent rtomin hgen hacc
  refine ⟨n', hnn', ?_, ?_⟩
  · simp only [Ikcpcb.flush, hu, if_false, Ikcpcb.sendSide_minCwnd, Ikcpcb.sendSide_onLost,
      Ikcpcb.sendSide_onChange]
    exact h₃.keeps ⟨rfl, by rw [(hdata _ _).1]⟩
  · simp only [Ikcpcb.flush, hu, if_false]
    exact (hdata _ _).2.output

/-- **Update** numbers more pieces of the stream and emits datagrams of genuine segments. -/
theorem Sends.update {kcp : Ikcpcb} {S : List (Piece UInt8)} {n : ℕ} (h : Sends kcp.sendSide S n)
    (hmtu : overhead ≤ kcp.mtu.toNat) (hfits : Fits kcp.mtu S) (current : U32) :
    ∃ n', n ≤ n' ∧ Sends (kcp.update current).1.sendSide S n' ∧
      ∀ d ∈ (kcp.update current).2, Carries kcp.mtu (Genuine kcp.conv S n') d := by
  obtain ⟨u, ts, he | he⟩ := kcp.update_eq current
  · rw [he]
    have h' : Sends ({ kcp with current, updated := u, tsFlush := ts } : Ikcpcb).sendSide S n := h
    exact h'.flush hmtu hfits
  · rw [he]
    exact ⟨n, le_rfl, h, by simp⟩

end LuaKcp.Ikcp
