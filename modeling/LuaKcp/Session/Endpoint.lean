import LuaKcp.Binding.Lkcp
import LuaKcp.Ikcp.Receiver

/-!
# The endpoints of a connection

Both ends of a connection use a kcp object made by `getKcp`, with the same parameters. `Sending`
says that an endpoint sends the messages it has accepted, as one stream of fragments, in datagrams
that carry these fragments; `Taking` says that the other endpoint has taken in part of this stream
and that its reads have returned the first messages of it. Every call of the binding keeps both,
whatever the order of the calls.
-/

namespace LuaKcp

open Ikcp

/-! ## Messages and their fragments -/

/-- The part of a message that `ikcp_send` is given the length of. -/
def sentBytes (m : Bytes) : Bytes := m.take (toInt32 m.length).toNat

/-- The fragments that an endpoint cuts a message into. -/
def cutOf (m : Bytes) : List (Piece UInt8) :=
  sendPieces (configured 0) m (toInt32 m.length).toNat

/-- The fragments of a sequence of messages. -/
def streamOf (ms : List Bytes) : List (Piece UInt8) := Piece.stream (ms.map cutOf)

@[simp] theorem streamOf_append (ms ms' : List Bytes) :
    streamOf (ms ++ ms') = streamOf ms ++ streamOf ms' := by
  simp [streamOf]

@[simp] theorem streamOf_singleton (m : Bytes) : streamOf [m] = cutOf m := by
  simp [streamOf, Piece.stream]

/-- The message is one that `lkcp_send` accepts: its length is not negative as an `int`, and it
has at most 255 fragments. -/
structure Acceptable (m : Bytes) : Prop where
  len : 0 ≤ toInt32 m.length
  count : (configured 0).sendCount (toInt32 m.length).toNat ≤ 255

theorem sentBytes_of_lt {m : Bytes} (h : m.length < 2 ^ 31) : sentBytes m = m := by
  rw [sentBytes, toInt32_of_lt h]
  simp

/-- An endpoint with the parameters of `getKcp`. -/
def Configured (conv : U32) (kcp : Ikcpcb) : Prop := kcp.params = ⟨conv, 1400, 1376, 128⟩

namespace Configured

variable {conv : U32} {kcp : Ikcpcb}

theorem conv_eq (h : Configured conv kcp) : kcp.conv = conv := congrArg Ikcpcb.Params.conv h

theorem mtu_eq (h : Configured conv kcp) : kcp.mtu = 1400 := congrArg Ikcpcb.Params.mtu h

theorem mss_eq (h : Configured conv kcp) : kcp.mss = 1376 := congrArg Ikcpcb.Params.mss h

theorem rcvWnd_eq (h : Configured conv kcp) : kcp.rcvWnd = 128 := congrArg Ikcpcb.Params.rcvWnd h

theorem of_params {kcp' : Ikcpcb} (h : Configured conv kcp) (hp : kcp'.params = kcp.params) :
    Configured conv kcp' := hp.trans h

end Configured

theorem configured_configured (conv : U32) : Configured conv (configured conv) := rfl

theorem sendCount_eq {conv : U32} {kcp : Ikcpcb} (h : Configured conv kcp) (len : ℕ) :
    kcp.sendCount len = (configured 0).sendCount len := by
  simp only [Ikcpcb.sendCount, h.mss_eq, (configured_configured 0).mss_eq]

theorem sendPieces_eq {conv : U32} {kcp : Ikcpcb} (h : Configured conv kcp) (m : Bytes) :
    sendPieces kcp m (toInt32 m.length).toNat = cutOf m := by
  simp only [cutOf, sendPieces, sendCount_eq h, h.mss_eq, (configured_configured 0).mss_eq]

/-- What `lkcp_send` accepts, and what it returns otherwise leaves the endpoint unchanged. -/
theorem lkcpSend_cases {conv : U32} {kcp : Ikcpcb} (h : Configured conv kcp) (m : Bytes) :
    ((kcp.lkcpSend m).1 = 0 ∧ Acceptable m) ∨
      ((kcp.lkcpSend m).1 < 0 ∧ (kcp.lkcpSend m).2 = kcp ∧ ¬ Acceptable m) := by
  unfold Ikcpcb.lkcpSend Ikcpcb.send
  dsimp only
  rw [sendCount_eq h]
  split_ifs with h₁ h₂
  · exact Or.inr ⟨neg_one_lt_zero, rfl, fun ha => absurd ha.len (by omega)⟩
  · exact Or.inr ⟨by simp, rfl, fun ha => absurd ha.count (by omega)⟩
  · exact Or.inl ⟨rfl, by omega, by omega⟩

theorem lkcpSend_nonneg_iff {conv : U32} {kcp : Ikcpcb} (h : Configured conv kcp) (m : Bytes) :
    0 ≤ (kcp.lkcpSend m).1 ↔ Acceptable m := by
  rcases lkcpSend_cases h m with ⟨h₁, h₂⟩ | ⟨h₁, -, h₂⟩
  · simp [h₁, h₂]
  · exact iff_of_false (by omega) h₂

/-- The number of fragments of a message. -/
theorem sendCount_configured (len : ℕ) (h : len < 2 ^ 31) :
    (configured 0).sendCount len = if len ≤ 1376 then 1 else (len + 1375) / 1376 := by
  have hmss : (configured 0).mss.toNat = 1376 := rfl
  unfold Ikcpcb.sendCount
  dsimp only
  rw [hmss]
  split_ifs with h₁ h₂ h₂
  · omega
  · rfl
  · omega
  · rw [Nat.mod_eq_of_lt (by omega)]
    rfl

namespace Acceptable

variable {m : Bytes}

theorem toNat_lt : (toInt32 m.length).toNat < 2 ^ 31 := by
  have : toInt32 m.length < 2 ^ 31 := BitVec.toInt_lt
  omega

theorem toNat_le (h : Acceptable m) : (toInt32 m.length).toNat ≤ m.length := by
  have hlt := BitVec.isLt (BitVec.ofInt 32 (m.length : ℤ))
  have hle : toInt32 m.length ≤ m.length := by
    have h0 := h.len
    rw [toInt32, BitVec.ofInt_natCast, BitVec.toInt_eq_toNat_bmod] at h0 ⊢
    simp only [BitVec.toNat_ofNat] at h0 ⊢
    have := Nat.mod_le m.length (2 ^ 32)
    simp only [Int.bmod] at h0 ⊢
    omega
  omega

theorem isCut (h : Acceptable m) : Piece.IsCut (cutOf m) := by
  have := h.count
  exact isCut_fragments (one_le_sendCount _ _) (by omega) _ _

theorem fits (h : Acceptable m) : Fits 1400 (cutOf m) := by
  intro p hp
  have hc := h.count
  have hnum := number_lt_of_mem_fragments (by omega) hp
  have hlen := length_data_of_mem_fragments hp
  have hmss : (configured 0).mss.toNat = 1376 := rfl
  have hmtu : (1400 : U32).toNat = 1400 := rfl
  rw [hmss] at hlen
  exact ⟨by omega, by rw [hmtu, overhead]; omega⟩

/-- **The fragments hold the bytes of the message.** -/
theorem body (h : Acceptable m) : Piece.body (cutOf m) = sentBytes m := by
  have hmss : (configured 0).mss.toNat = 1376 := rfl
  have hlt := toNat_lt (m := m)
  exact body_fragments h.toNat_le (le_sendCount_mul _ (by rw [hmss]; omega) (by rw [hmss]; omega))

theorem length_cutOf : (cutOf m).length = (configured 0).sendCount (toInt32 m.length).toNat := by
  simp only [cutOf, sendPieces, List.length_map, length_fragments]

end Acceptable

/-- A message that `lkcp_send` takes in one segment. -/
theorem acceptable_of_length_le {m : Bytes} (h : m.length ≤ 1376) : Acceptable m := by
  have hint := toInt32_of_lt (n := m.length) (by omega)
  refine ⟨by omega, ?_⟩
  rw [hint, Int.toNat_natCast, sendCount_configured _ (by omega), if_pos h]
  norm_num

theorem length_streamOf_singleton {m : Bytes} (h : m.length ≤ 1376) :
    (streamOf [m]).length = 1 := by
  rw [streamOf_singleton, Acceptable.length_cutOf, toInt32_of_lt (by omega), Int.toNat_natCast,
    sendCount_configured _ (by omega), if_pos h]

theorem fits_streamOf {ms : List Bytes} (h : ∀ m ∈ ms, Acceptable m) : Fits 1400 (streamOf ms) := by
  intro p hp
  obtain ⟨c, hc, hp⟩ := List.mem_flatten.mp hp
  obtain ⟨m, hm, rfl⟩ := List.mem_map.mp hc
  exact (h m hm).fits p hp

/-! ## Sending -/

/-- The endpoint sends the messages `accepted`; `n` of their fragments have been numbered, and the
buffers `sent` that it has handed over carry them. -/
structure Sending (conv : U32) (kcp : Ikcpcb) (accepted : List Bytes) (n : ℕ)
    (sent : List Bytes) : Prop where
  configured : Configured conv kcp
  sends : Sends kcp.sendSide (streamOf accepted) n
  acceptable : ∀ m ∈ accepted, Acceptable m
  genuine : ∀ d ∈ sent, Carries 1400 (Genuine conv (streamOf accepted) n) d

namespace Sending

variable {conv : U32} {kcp : Ikcpcb} {accepted sent : List Bytes} {n : ℕ}

theorem start (conv : U32) : Sending conv (LuaKcp.configured conv) [] 0 [] :=
  ⟨rfl, ⟨le_rfl, rfl, rfl, by simp [LuaKcp.configured, Ikcpcb.setNodelay, Ikcpcb.wndsize, create,
    Ikcpcb.sendSide]⟩, by simp, by simp⟩

/-- How many fragments have been numbered can be told from the queue. -/
theorem numbered (h : Sending conv kcp accepted n sent) :
    n = (streamOf accepted).length - kcp.sndQueue.length := by
  have hlen := congrArg List.length h.sends.queue
  have hle := h.sends.le
  rw [List.length_map, List.length_drop] at hlen
  change kcp.sndQueue.length = _ at hlen
  omega

/-- **A message accepted** is added to what the endpoint sends. -/
theorem send (h : Sending conv kcp accepted n sent) (m : Bytes) :
    Sending conv (kcp.lkcpSend m).2
      (if 0 ≤ (kcp.lkcpSend m).1 then accepted ++ [m] else accepted) n sent := by
  rcases lkcpSend_cases h.configured m with ⟨h₁, ha⟩ | ⟨h₁, h₂, -⟩
  · have hlen : toInt32 m.length = ((toInt32 m.length).toNat : ℕ) := by
      have := ha.len
      omega
    have hs : Sends (kcp.lkcpSend m).2.sendSide (streamOf (accepted ++ [m])) n := by
      rw [streamOf_append, streamOf_singleton, ← sendPieces_eq h.configured]
      have hacc : 0 ≤ (kcp.send m (toInt32 m.length).toNat).1 := by
        rw [← hlen]
        exact h₁.ge
      have := h.sends.send m hacc
      rwa [← hlen] at this
    rw [if_pos (by omega)]
    refine ⟨h.configured.of_params (kcp.params_send m _), hs, fun x hx => ?_, fun d hd => ?_⟩
    · rcases List.mem_append.mp hx with hx | hx
      · exact h.acceptable x hx
      · rw [List.mem_singleton.mp hx]
        exact ha
    · rw [streamOf_append]
      exact (h.genuine d hd).mono fun seg hseg => hseg.mono le_rfl _
  · rw [if_neg (by omega), h₂]
    exact h

theorem of_emits {kcp' : Ikcpcb} {out : List Bytes} (h : Sending conv kcp accepted n sent)
    (hp : kcp'.params = kcp.params)
    (hs : ∃ n', n ≤ n' ∧ Sends kcp'.sendSide (streamOf accepted) n' ∧
      ∀ d ∈ out, Carries kcp.mtu (Genuine kcp.conv (streamOf accepted) n') d) :
    ∃ n', n ≤ n' ∧ Sending conv kcp' accepted n' (sent ++ out) := by
  obtain ⟨n', hn, hs, hout⟩ := hs
  refine ⟨n', hn, h.configured.of_params hp, hs, h.acceptable, fun d hd => ?_⟩
  rcases List.mem_append.mp hd with hd | hd
  · refine (h.genuine d hd).mono fun seg hseg => ?_
    have := hseg.mono hn []
    rwa [List.append_nil] at this
  · have := hout d hd
    rwa [h.configured.mtu_eq, h.configured.conv_eq] at this

theorem overhead_le (h : Sending conv kcp accepted n sent) : overhead ≤ kcp.mtu.toNat := by
  rw [h.configured.mtu_eq]
  decide

theorem fits (h : Sending conv kcp accepted n sent) : Fits kcp.mtu (streamOf accepted) := by
  rw [h.configured.mtu_eq]
  exact fits_streamOf h.acceptable

theorem flush (h : Sending conv kcp accepted n sent) :
    ∃ n', n ≤ n' ∧ Sending conv kcp.flush.1 accepted n' (sent ++ kcp.flush.2) :=
  h.of_emits kcp.params_flush (h.sends.flush h.overhead_le h.fits)

theorem update (h : Sending conv kcp accepted n sent) (current : ℤ) :
    ∃ n', n ≤ n' ∧
      Sending conv (kcp.lkcpUpdate current).1 accepted n' (sent ++ (kcp.lkcpUpdate current).2) :=
  h.of_emits (kcp.params_update _) (h.sends.update h.overhead_le h.fits _)

theorem input (h : Sending conv kcp accepted n sent) (data : Bytes) :
    Sending conv (kcp.input data).2 accepted n sent :=
  ⟨h.configured.of_params (kcp.params_input data), h.sends.keeps (kcp.keeps_input data),
    h.acceptable, h.genuine⟩

theorem recv (h : Sending conv kcp accepted n sent) :
    Sending conv kcp.lkcpRecv.2 accepted n sent :=
  ⟨h.configured.of_params (kcp.params_recv _),
    h.sends.keeps (.of_sendSide (kcp.sendSide_recv _)), h.acceptable, h.genuine⟩

/-- **What an endpoint hands over fits a package.** -/
theorem length_lt (h : Sending conv kcp accepted n sent) {d : Bytes} (hd : d ∈ sent) :
    d.length < 2 ^ 16 := by
  have hmtu : (1400 : U32).toNat = 1400 := rfl
  have := (h.genuine d hd).1
  omega

end Sending

/-! ## Taking in and reading -/

/-- The endpoint takes in the fragments of the messages `ms`, `n` of which have been numbered: it
has taken in the first `R` and those in `is`, and has read the first `read` messages. -/
structure Taking (ms : List Bytes) (n : ℕ) (side : RecvSide) (read R : ℕ) (is : List ℕ) :
    Prop where
  awaits : Awaits side ((ms.take read).map cutOf) ((ms.drop read).map cutOf) R is
  le : read ≤ ms.length
  bound : R ≤ n
  bounds : ∀ i ∈ is, i < n

namespace Taking

variable {ms : List Bytes} {n read R : ℕ} {is : List ℕ}

theorem start (conv : U32) (ms : List Bytes) (n : ℕ) :
    Taking ms n (configured conv).recvSide 0 0 [] := by
  refine ⟨⟨le_rfl, Nat.zero_le _, rfl, rfl, ?_, .nil, .nil, by simp⟩, Nat.zero_le _, Nat.zero_le _,
    by simp⟩
  exact Nat.zero_le _

theorem stream_eq (ms : List Bytes) (read : ℕ) :
    Piece.stream ((ms.take read).map cutOf ++ (ms.drop read).map cutOf) = streamOf ms := by
  rw [← List.map_append, List.take_append_drop, streamOf]

/-- The other endpoint may accept more messages and number more fragments. -/
theorem mono {side : RecvSide} (h : Taking ms n side read R is) (ms' : List Bytes) {n' : ℕ}
    (hn : n ≤ n') : Taking (ms ++ ms') n' side read R is := by
  refine ⟨?_, ?_, h.bound.trans hn, fun i hi => (h.bounds i hi).trans_le hn⟩
  · have := Receives.append h.awaits (streamOf ms')
    rw [stream_eq, ← streamOf_append, ← stream_eq _ read] at this
    rwa [List.take_append_of_le_length h.le, List.drop_append_of_le_length h.le] at this ⊢
  · rw [List.length_append]
    exact h.le.trans (Nat.le_add_right _ _)

/-- **A datagram of the other endpoint** is taken in, in whatever order it comes. -/
theorem input {conv : U32} {kcp : Ikcpcb} (h : Taking ms n kcp.recvSide read R is)
    (hc : Configured conv kcp) (hn : n < 2 ^ 31) {d : Bytes}
    (hd : Carries 1400 (Genuine conv (streamOf ms) n) d) :
    ∃ R' is', Taking ms n (kcp.input d).2.recvSide read R' is' := by
  obtain ⟨-, segs, rfl, hsegs⟩ := hd
  have hwnd : kcp.rcvWnd.toNat = 128 := by
    rw [hc.rcvWnd_eq]
    rfl
  have haw := h.awaits
  unfold Awaits at haw
  rw [stream_eq] at haw
  -- the number of the piece that each data segment carries
  have hidx : ∀ seg : Ikcpseg, ∃ i, seg ∈ segs → seg.cmd = cmdPush →
      seg.frg.toNat < 256 ∧ i < n ∧ Placed (streamOf ms) i seg := by
    intro seg
    by_cases hs : seg ∈ segs ∧ seg.cmd = cmdPush
    · obtain ⟨hf, i, hi, hp⟩ := (hsegs seg hs.1).placed hs.2
      exact ⟨i, fun _ _ => ⟨hf, hi, hp⟩⟩
    · exact ⟨0, fun h₁ h₂ => absurd ⟨h₁, h₂⟩ hs⟩
  choose idx hidx using hidx
  obtain ⟨R', is', htake, -⟩ := (haw.take h.bound h.bounds).input (by omega) idx
    (fun seg hseg => by rw [hc.conv_eq]; exact (hsegs seg hseg).sendable)
    fun seg hseg hpush => by
      obtain ⟨hf, hi, hp⟩ := hidx seg hseg hpush
      refine ⟨hf, ⟨hp.1, by rw [List.getElem?_take_of_lt hi, hp.2]⟩, fun R' _ hR' _ => ?_⟩
      rw [List.length_take] at hR'
      have : R' ≤ n := hR'.trans (min_le_left _ _)
      exact ⟨by omega, by omega⟩
  obtain ⟨hrec, hR, his⟩ := Receives.of_take htake.receives
  refine ⟨R', is', ?_, h.le, hR, his⟩
  unfold Awaits
  rw [stream_eq]
  exact hrec

/-- **Reading**: `lkcp_recv` fails and changes nothing, or returns the next message. -/
theorem recv {kcp : Ikcpcb} (h : Taking ms n kcp.recvSide read R is)
    (hwnd : kcp.rcvWnd.toNat = 128) (hms : ∀ m ∈ ms, Acceptable m) :
    (kcp.lkcpRecv.1.1 < 0 ∧ kcp.lkcpRecv.2 = kcp ∧
        ∀ m, ms[read]? = some m → R < (streamOf (ms.take read)).length + (cutOf m).length) ∨
      ∃ m R' is', ms[read]? = some m ∧
        (streamOf (ms.take read)).length + (cutOf m).length ≤ R ∧
        kcp.lkcpRecv.1 = (((sentBytes m).length : ℤ),
          if sentBytes m = [] then none else some (sentBytes m)) ∧
        Taking ms n kcp.lkcpRecv.2.recvSide (read + 1) R' is' ∧
        Settled kcp.lkcpRecv.2.recvSide ∧ ∀ i, Held R is i → Held R' is' i := by
  have hmem {m : Bytes} (hm : m ∈ ms.drop read) : Acceptable m := hms m (List.mem_of_mem_drop hm)
  have hcut : ∀ c ∈ (ms.drop read).map cutOf, Piece.IsCut c := by
    intro c hc
    obtain ⟨m, hm, rfl⟩ := List.mem_map.mp hc
    exact (hmem hm).isCut
  have hnum : ∀ c ∈ (ms.drop read).map cutOf, ∀ p ∈ c, p.number < 256 := by
    intro c hc p hp
    obtain ⟨m, hm, rfl⟩ := List.mem_map.mp hc
    exact ((hmem hm).fits p hp).1
  have hbig {m : Bytes} (hm : Acceptable m) : (sentBytes m).length ≤ 350880 := by
    have hc := hm.count
    rw [sendCount_configured _ Acceptable.toNat_lt] at hc
    rw [sentBytes, List.length_take]
    split_ifs at hc <;> omega
  have hrest {m : Bytes} {ms' : List Bytes} (hd : ms.drop read = m :: ms') :
      ms[read]? = some m ∧ ms.drop (read + 1) = ms' ∧ ms.take (read + 1) = ms.take read ++ [m] := by
    have hlt : read < ms.length := by
      by_contra hge
      rw [List.drop_of_length_le (by omega)] at hd
      exact absurd hd (by simp)
    rw [List.drop_eq_getElem_cons hlt] at hd
    obtain ⟨h₁, h₂⟩ := List.cons.inj hd
    exact ⟨by rw [List.getElem?_eq_getElem hlt, h₁], h₂, by rw [← h₁, List.take_append_getElem]⟩
  have hstream : (streamOf (ms.take read)).length =
      (Piece.stream ((ms.take read).map cutOf)).length := rfl
  rw [hstream]
  rcases h.awaits.recv (by omega) hcut hnum recvBufferLen (by decide) with
    ⟨hneg, hsame, hmiss⟩ | ⟨c, rest', R', is', hc, hle, -, hlen, hbody, -, haw, hset, -, hheld⟩
  · refine Or.inl ⟨hneg, hsame, fun m hm => ?_⟩
    obtain ⟨hlt, rfl⟩ := List.getElem?_eq_some_iff.mp hm
    have hm := hms _ (List.getElem_mem hlt)
    refine hmiss _ ((ms.drop (read + 1)).map cutOf) ?_ ?_
    · rw [List.drop_eq_getElem_cons hlt, List.map_cons]
    · rw [hm.body]
      have := hbig hm
      unfold recvBufferLen
      omega
  · obtain ⟨m, ms', hd, rfl, rfl⟩ := List.map_eq_cons_iff.mp hc
    obtain ⟨hm, hdrop, htake⟩ := hrest hd
    have hacc : Acceptable m := hms m (List.mem_of_getElem? hm)
    rw [hacc.body] at hlen hbody
    -- nothing is held that was not held before
    have hn : ∀ i, Held R' is' i → i < n := fun i hi => by
      rcases (hheld i).mp hi with hi | hi
      · exact hi.trans_le h.bound
      · exact h.bounds i hi
    refine Or.inr ⟨m, R', is', hm, hle, ?_, ?_, hset, fun i => (hheld i).mpr⟩
    · unfold Ikcpcb.lkcpRecv
      simp only [hlen, hbody]
      congr 1
      by_cases h0 : sentBytes m = []
      · simp [h0]
      · have := List.length_pos_iff.mpr h0
        rw [if_neg (by omega), if_neg h0]
    · refine ⟨?_, ?_, ?_, ?_⟩
      · rw [htake, hdrop, List.map_append, List.map_singleton]
        exact haw
      · exact (List.getElem?_eq_some_iff.mp hm).1
      · by_contra hR
        exact absurd (hn n (Or.inl (by omega))) (lt_irrefl n)
      · exact fun i hi => hn i (Or.inr hi)

end Taking

end LuaKcp
