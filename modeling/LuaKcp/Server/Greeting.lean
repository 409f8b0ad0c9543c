import LuaKcp.Server.Changes

/-!
# A handshake and its answer

What the two texts say to the side that reads them: a handshake its uid and its time, an answer the
connection id. And what a new object of the server makes of one datagram: nothing, or the whole
handshake when the datagram is one of a client that has sent no other message.
-/

namespace LuaKcp

open Ikcp

/-! ## The texts -/

theorem beBytes_two_of_lt {n : ℕ} (h : n < 64) : beBytes 2 n = [0, UInt8.ofNat n] := by
  have h0 : n / 256 = 0 := by omega
  simp [beBytes, leBytes, h0]

/-- The fields of a package whose text starts with `B@`. -/
theorem split_pack (rest : Bytes) (h : rest.length < 62) :
    ∃ head, split 64 (pack 0 (literal "B@" ++ rest)) = head :: split 64 rest := by
  have hlen : (literal "B@" ++ rest).length < 64 := by
    rw [List.length_append]
    change 2 + rest.length < 64
    omega
  refine ⟨beBytes 4 0 ++ [0, UInt8.ofNat (literal "B@" ++ rest).length, 66], ?_⟩
  have hpack : pack 0 (literal "B@" ++ rest) =
      (beBytes 4 0 ++ [0, UInt8.ofNat (literal "B@" ++ rest).length, 66]) ++ 64 :: rest := by
    unfold pack
    rw [beBytes_two_of_lt hlen]
    simp [literal]
  rw [hpack]
  refine split_append_cons ?_ rest
  -- the length of the text is no `@` either
  have hne : (64 : UInt8) ≠ UInt8.ofNat (literal "B@" ++ rest).length := by
    intro heq
    have := congrArg UInt8.toNat heq
    rw [UInt8.toNat_ofNat'] at this
    have h64 : (64 : UInt8).toNat = 64 := rfl
    omega
  have hzero : beBytes 4 0 = [0, 0, 0, 0] := rfl
  rw [hzero]
  simpa only [List.cons_append, List.nil_append, List.mem_cons, List.not_mem_nil, or_false,
    not_or] using ⟨by decide, by decide, by decide, by decide, by decide, hne, by decide⟩

theorem split_natDigits (n : ℕ) (rest : Bytes) :
    split 64 (natDigits n ++ 64 :: rest) = natDigits n :: split 64 rest :=
  split_append_cons (not_mem_natDigits rfl) rest

/-- The fields of a handshake, the header of the package being part of the first. -/
theorem split_handshakePackage {uid time : ℕ} (hu : uid < 2 ^ 63) (ht : time < 2 ^ 63) :
    ∃ head, split 64 (handshakePackage uid time) =
      [head, natDigits uid, natDigits time, literal "E"] := by
  have hlu := length_natDigits_lt hu
  have hlt := length_natDigits_lt ht
  obtain ⟨head, hsplit⟩ :=
    split_pack (natDigits uid ++ 64 :: (natDigits time ++ 64 :: [69])) (by
      simp only [List.length_append, List.length_cons, List.length_nil]
      omega)
  have htext : handshakePackage uid time =
      pack 0 (literal "B@" ++ (natDigits uid ++ 64 :: (natDigits time ++ 64 :: [69]))) := by
    unfold handshakePackage
    congr 1
    simp [literal]
  refine ⟨head, ?_⟩
  rw [htext, hsplit, split_natDigits, split_natDigits]
  rfl

/-- The fields of an answer. -/
theorem split_replyPackage {subid time : ℕ} (hs : subid < 2 ^ 32) (ht : time < 2 ^ 63) :
    ∃ head, split 64 (replyPackage subid (natDigits time)) =
      [head, natDigits subid, natDigits time, literal "OKK", literal "E"] := by
  have hls := length_natDigits_le (k := 10) (by norm_num) (hs.trans (by norm_num))
  have hlt := length_natDigits_lt ht
  obtain ⟨head, hsplit⟩ :=
    split_pack (natDigits subid ++ 64 :: (natDigits time ++ 64 :: literal "OKK@E")) (by
      have hlit : (literal "OKK@E").length = 5 := rfl
      simp only [List.length_append, List.length_cons, hlit]
      omega)
  have htext : replyPackage subid (natDigits time) =
      pack 0 (literal "B@" ++ (natDigits subid ++ 64 :: (natDigits time ++ 64 ::
        literal "OKK@E"))) := by
    unfold replyPackage
    congr 1
    simp [literal]
  refine ⟨head, ?_⟩
  rw [htext, hsplit, split_natDigits, split_natDigits]
  rfl

/-- **A handshake** is read as its uid and its time. -/
theorem handshakeFields_handshakePackage {uid time : ℕ} (hu : uid < 2 ^ 63) (ht : time < 2 ^ 63) :
    handshakeFields (handshakePackage uid time) = (some (.ofInt uid), some (.ofInt time)) := by
  obtain ⟨head, hsplit⟩ := split_handshakePackage hu ht
  unfold handshakeFields
  dsimp only
  rw [hsplit]
  simp [tonumber_natDigits hu, tonumber_natDigits ht]

/-- **An answer** is read as the connection id, by a client that asked at its time. -/
theorem answer_replyPackage {subid time : ℕ} (hs : 0 < subid ∧ subid < 2 ^ 32)
    (ht : time < 2 ^ 63) :
    Client.answer time (replyPackage subid (natDigits time)) = some (.ofInt subid) := by
  obtain ⟨head, hsplit⟩ := split_replyPackage hs.2 ht
  have hpos : LuaNumber.lt (.ofInt 0) (.ofInt subid) = true := by
    simpa [LuaNumber.ofInt, LuaNumber.lt] using hs.1
  have hs63 : subid < 2 ^ 63 := hs.2.trans (by norm_num)
  unfold Client.answer
  dsimp only
  rw [hsplit]
  simp [tonumber_natDigits hs63, tonumber_natDigits ht, hpos]

/-! ## Short messages -/

theorem length_handshakePackage_le {uid time : ℕ} (hu : uid < 2 ^ 63) (ht : time < 2 ^ 63) :
    (handshakePackage uid time).length ≤ 1376 := by
  have hlu := length_natDigits_lt hu
  have hlt := length_natDigits_lt ht
  have h₁ : (literal "B@").length = 2 := rfl
  have h₂ : (literal "@").length = 1 := rfl
  have h₃ : (literal "@E").length = 2 := rfl
  simp only [handshakePackage, pack, List.length_append, length_beBytes, h₁, h₂, h₃]
  omega

theorem length_replyPackage_le {subid time : ℕ} (hs : subid < 2 ^ 32) (ht : time < 2 ^ 63) :
    (replyPackage subid (natDigits time)).length ≤ 1376 := by
  have hls := length_natDigits_le (k := 10) (by norm_num) (hs.trans (by norm_num))
  have hlt := length_natDigits_lt ht
  have h₁ : (literal "B@").length = 2 := rfl
  have h₂ : (literal "@").length = 1 := rfl
  have h₃ : (literal "@OKK@E").length = 6 := rfl
  simp only [replyPackage, pack, List.length_append, length_beBytes, h₁, h₂, h₃]
  omega

/-! ## The new object of a datagram -/

theorem Kcp.output_congr {k k' : Kcp} (haddr : k'.address = k.address)
    (hconv : k'.cb.conv = k.cb.conv) (bufs : List Bytes) : k'.output bufs = k.output bufs := by
  unfold output
  rw [haddr, hconv]

theorem Sending.nil_numbered {conv : U32} {kcp : Ikcpcb} {n : ℕ} {sent : List Bytes}
    (h : Sending conv kcp [] n sent) : n = 0 := Nat.le_zero.mp h.sends.le

/-- The object that has read a datagram has sent no message, and answers where it came from. -/
theorem hello_sends (fromAddr str : Bytes) (wall wall' : ℕ) :
    ∃ bufs, (hello fromAddr str wall wall').2.2 = (hello fromAddr str wall wall').2.1.output bufs ∧
      Sending 0 (hello fromAddr str wall wall').2.1.cb [] 0 bufs ∧
      (hello fromAddr str wall wall').2.1.address = fromAddr := by
  set k₀ : Kcp := ⟨configured 0, fromAddr⟩
  set k₁ := k₀.lkcpUpdate (getms wall)
  set k₂ := (k₁.1.lkcpInput str fromAddr).2
  set k₃ := k₂.lkcpUpdate (getms wall')
  have hhello : hello fromAddr str wall wall' =
      (k₃.1.lkcpRecv.1, k₃.1.lkcpRecv.2, k₁.2 ++ k₃.2) := by
    unfold hello
    rw [getKcp_eq]
    rfl
  have hinput : k₂.cb = (k₁.1.cb.input str).2 := Kcp.cb_lkcpInput k₁.1 str fromAddr
  have haddr : k₂.address = fromAddr := by
    change (k₁.1.lkcpInput str fromAddr).2.address = fromAddr
    rw [Kcp.address_lkcpInput]
    split_ifs <;> rfl
  obtain ⟨n₁, -, h₁⟩ := (Sending.start 0).update (getms wall)
  have h₂ : Sending 0 k₂.cb [] n₁ ([] ++ (k₀.cb.lkcpUpdate (getms wall)).2) := by
    rw [hinput]
    exact h₁.input str
  obtain ⟨n₃, -, h₃⟩ := h₂.update (getms wall')
  obtain rfl := h₃.nil_numbered
  rw [hhello]
  refine ⟨_, ?_, h₃.recv, haddr⟩
  have hconv : k₃.1.lkcpRecv.2.cb.conv = 0 := h₃.recv.configured.conv_eq
  have hk₀ (bufs : List Bytes) : k₀.output bufs = k₃.1.lkcpRecv.2.output bufs :=
    Kcp.output_congr haddr.symm hconv.symm bufs
  have hk₂ (bufs : List Bytes) : k₂.output bufs = k₃.1.lkcpRecv.2.output bufs :=
    Kcp.output_congr (show k₂.address = k₃.1.lkcpRecv.2.address from rfl)
      (h₂.configured.conv_eq.trans hconv.symm) bufs
  change k₀.output _ ++ k₂.output _ = _
  rw [hk₀, hk₂]
  exact List.map_append.symm

/-- A message that fits one segment is its only fragment. -/
theorem cutOf_of_length_le {m : Bytes} (h : m.length ≤ 1376) : cutOf m = [⟨0, m⟩] := by
  have hacc := acceptable_of_length_le h
  have hlen := length_streamOf_singleton h
  rw [streamOf_singleton] at hlen
  obtain ⟨p, hp⟩ := List.length_eq_one_iff.mp hlen
  have hcut := hacc.isCut
  have hbody := hacc.body
  rw [hp] at hcut hbody
  rw [sentBytes_of_lt (by omega), Piece.body_cons, Piece.body_nil, List.append_nil] at hbody
  have hnumber : p.number = 0 := hcut.head_number
  rw [hp, ← hbody, ← hnumber]

/-- What a new object reads, from its control block. -/
theorem hello_fst (fromAddr str : Bytes) (wall wall' : ℕ) : (hello fromAddr str wall wall').1 =
    ((((configured 0).lkcpUpdate (getms wall)).1.input str).2.lkcpUpdate
      (getms wall')).1.lkcpRecv.1 := by
  unfold hello
  rw [getKcp_eq]
  change (((⟨((configured 0).lkcpUpdate (getms wall)).1, fromAddr⟩ : Kcp).lkcpInput str
    fromAddr).2.cb.lkcpUpdate (getms wall')).1.lkcpRecv.1 = _
  rw [Kcp.cb_lkcpInput]

/-- **The object reads nothing or the handshake** from a datagram of a client whose only message is
the handshake. -/
theorem hello_reads {fromAddr str m : Bytes} {n : ℕ} (hlen : m.length ≤ 1376)
    (hstr : Carries 1400 (Genuine 0 (streamOf [m]) n) str) (hn : n ≤ 1) {wall wall' : ℕ}
    (hpos : 0 < (hello fromAddr str wall wall').1.1) :
    (hello fromAddr str wall wall').1.2 = some m := by
  set k₁ := ((configured 0).lkcpUpdate (getms wall)).1
  set k₃ := ((k₁.input str).2.lkcpUpdate (getms wall')).1
  have hhello : (hello fromAddr str wall wall').1 = k₃.lkcpRecv.1 := hello_fst _ _ _ _
  have hc₁ : Configured 0 k₁ := (configured_configured 0).of_params (Ikcpcb.params_update _ _)
  have h₁ : Taking [m] n k₁.recvSide 0 0 [] := by
    have := Taking.start 0 [m] n
    rwa [← Ikcpcb.recvSide_update] at this
  obtain ⟨R, is, h₂⟩ := h₁.input hc₁ (by omega) hstr
  have h₃ : Taking [m] n k₃.recvSide 0 R is := by
    rwa [← Ikcpcb.recvSide_update] at h₂
  have hc₃ : Configured 0 k₃ :=
    (hc₁.of_params (Ikcpcb.params_input _ _)).of_params (Ikcpcb.params_update _ _)
  have hwnd : k₃.rcvWnd.toNat = 128 := by
    rw [hc₃.rcvWnd_eq]
    rfl
  have hall : ∀ x ∈ [m], Acceptable x :=
    List.forall_mem_singleton.mpr (acceptable_of_length_le hlen)
  rw [hhello] at hpos ⊢
  rcases h₃.recv hwnd hall with ⟨hneg, -⟩ | ⟨x, R', is', hx, -, hret, -⟩
  · omega
  · obtain rfl : m = x := Option.some.inj hx
    have hsent : sentBytes m = m := sentBytes_of_lt (by omega)
    rw [hret, hsent] at hpos ⊢
    have hne : m ≠ [] := List.length_pos_iff.mp (by simpa using hpos)
    exact if_neg hne

/-- An object that has received nothing takes in the only segment of a message. -/
theorem awaits_soleSegment {kcp : Ikcpcb} (hside : kcp.recvSide = (configured 0).recvSide)
    (hconv : kcp.conv = 0) {m : Bytes} (hlen : m.length ≤ 1376) :
    ∃ R is, 1 ≤ R ∧
      Awaits (kcp.input (encodeSegs [soleSegment 0 0 0 0 m])).2.recvSide [] [cutOf m] R is ∧
      (kcp.input (encodeSegs [soleSegment 0 0 0 0 m])).2.rcvWnd = kcp.rcvWnd := by
  have hstart : Awaits kcp.recvSide [] [cutOf m] 0 [] := by
    rw [hside]
    exact (Taking.start 0 [m] 1).awaits
  have hwnd : kcp.rcvWnd.toNat = 128 := congrArg (fun side => side.rcvWnd.toNat) hside
  have hstream : Piece.stream ([] ++ [cutOf m]) = [⟨0, m⟩] := by
    rw [cutOf_of_length_le hlen]
    rfl
  have hsend : ∀ seg ∈ [soleSegment 0 0 0 0 m], Sendable kcp.conv seg := by
    refine List.forall_mem_singleton.mpr ⟨hconv.symm, Or.inl rfl, ?_⟩
    change m.length < 2 ^ 32
    omega
  obtain ⟨R, is, htake, hheld⟩ := hstart.input (by omega) (fun _ => 0) hsend
    (List.forall_mem_singleton.mpr fun _ => ⟨by change (0 : U32).toNat < 256; decide,
      ⟨rfl, by rw [hstream]; rfl⟩,
      fun R' _ hR' _ => ⟨by omega, by rw [hstream, List.length_singleton] at hR'; omega⟩⟩)
  -- the piece is in the queue
  have hsettled : Settled kcp.recvSide := by
    rw [hside]
    intro seg hseg
    exact absurd hseg (Option.not_mem_none seg)
  have hheld' := hheld _ List.mem_cons_self rfl (by omega)
  refine ⟨R, is, htake.receives.le_of_held (htake.settled hsettled) ?_ fun i hi => ?_,
    htake.receives, htake.wnd⟩
  · rw [htake.wnd, hside]
    decide
  · obtain rfl : i = 0 := by omega
    exact hheld'

/-- A message of one segment is read when its segment is there. -/
theorem lkcpRecv_of_awaits {kcp : Ikcpcb} {m : Bytes} {R : ℕ} {is : List ℕ}
    (h : Awaits kcp.recvSide [] [cutOf m] R is) (hR : 1 ≤ R) (hwnd : kcp.rcvWnd.toNat ≤ 2 ^ 30)
    (hpos : 0 < m.length) (hlen : m.length ≤ 1376) :
    kcp.lkcpRecv.1 = ((m.length : ℤ), some m) := by
  have hacc := acceptable_of_length_le hlen
  have hcut := cutOf_of_length_le hlen
  have hbody : Piece.body (cutOf m) = m := hacc.body.trans (sentBytes_of_lt (by omega))
  have hnumber : ∀ c ∈ [cutOf m], ∀ p ∈ c, p.number < 256 := by
    rw [hcut]
    simp
  have hfits : (m.length : ℤ) ≤ recvBufferLen := by
    unfold recvBufferLen
    omega
  rcases h.recv hwnd (List.forall_mem_singleton.mpr hacc.isCut) hnumber recvBufferLen (by decide)
    with ⟨-, -, hmiss⟩ | ⟨c, rest, R', is', hc, -, -, hret, hdata, -⟩
  · have hlt := hmiss (cutOf m) [] rfl (by rw [hbody]; exact hfits)
    rw [hcut] at hlt
    change R < 0 + 1 at hlt
    omega
  · obtain ⟨rfl, -⟩ := List.cons.inj hc
    rw [hbody] at hret hdata
    unfold Ikcpcb.lkcpRecv
    dsimp only
    rw [hret, hdata, if_neg (by omega)]

/-- The object reads the message whose only segment is in the datagram. -/
theorem hello_soleSegment {fromAddr m : Bytes} (hpos : 0 < m.length) (hlen : m.length ≤ 1376)
    (wall wall' : ℕ) :
    (hello fromAddr (encodeSegs [soleSegment 0 0 0 0 m]) wall wall').1 =
      ((m.length : ℤ), some m) := by
  set k₁ := ((configured 0).lkcpUpdate (getms wall)).1
  set k₂ := (k₁.input (encodeSegs [soleSegment 0 0 0 0 m])).2
  set k₃ := (k₂.lkcpUpdate (getms wall')).1
  have hhello : (hello fromAddr (encodeSegs [soleSegment 0 0 0 0 m]) wall wall').1 =
      k₃.lkcpRecv.1 := hello_fst _ _ _ _
  have hside : k₁.recvSide = (configured 0).recvSide := Ikcpcb.recvSide_update _ _
  have hconv : k₁.conv = 0 :=
    ((configured_configured 0).of_params (Ikcpcb.params_update _ _)).conv_eq
  obtain ⟨R, is, hR, h₂, hwnd₂⟩ := awaits_soleSegment hside hconv hlen
  have h₃ : Awaits k₃.recvSide [] [cutOf m] R is := by rwa [← Ikcpcb.recvSide_update] at h₂
  have hwnd₃ : k₃.rcvWnd = k₁.rcvWnd :=
    (congrArg RecvSide.rcvWnd (Ikcpcb.recvSide_update _ _)).trans hwnd₂
  have hwnd₁ : k₁.rcvWnd.toNat = 128 := congrArg (fun side => side.rcvWnd.toNat) hside
  rw [hhello]
  exact lkcpRecv_of_awaits h₃ hR (by rw [hwnd₃, hwnd₁]; norm_num) hpos hlen

/-- **A first handshake of a uid** is accepted. -/
theorem Server.accepted_helloDatagram {s : Server} {fromAddr : Bytes} {uid time : ℕ}
    (hu : 0 < uid ∧ uid < 2 ^ 63) (ht : 0 < time ∧ time < 2 ^ 63)
    (h : s.handshakeMap.get (.ofInt uid) = none) (wall wall' wall'' : ℕ) :
    ∃ kcp, s.accepted (.datagram fromAddr (helloDatagram uid time) wall wall' wall'') =
      some ⟨fromAddr, .ofInt uid, .ofInt time, kcp, wall''⟩ := by
  have hle := length_handshakePackage_le hu.2 ht.2
  set str := encodeSegs [soleSegment 0 0 0 0 (handshakePackage uid time)]
  have hmsg : unpackPackage (helloDatagram uid time) = some (0, str) := by
    refine unpackPackage_pack (by norm_num) ?_
    rw [encodeSegs_cons, List.length_append, length_encodeSeg]
    change overhead + (handshakePackage uid time).length + 0 < 2 ^ 16
    unfold overhead
    omega
  have hpos : 0 < (handshakePackage uid time).length := by
    simp only [handshakePackage, pack, List.length_append, length_beBytes]
    omega
  have hread : (hello fromAddr str wall wall').1 = _ := hello_soleSegment hpos hle wall wall'
  have hfields := handshakeFields_handshakePackage hu.2 ht.2
  have hlt {n : ℕ} (hn : 0 < n) : LuaNumber.lt (.ofInt 0) (.ofInt n) = true := by
    refine decide_eq_true ?_
    exact_mod_cast hn
  have hadmits : s.admits (.ofInt uid) (.ofInt time) = true := by
    have hof : s.handshakeOf (.ofInt uid) = none := by
      unfold handshakeOf
      rw [h]
      rfl
    unfold admits
    rw [hof, hlt hu.1, hlt ht.1]
    exact hlt ht.1
  refine ⟨(hello fromAddr str wall wall').2.1, ?_⟩
  unfold accepted
  simp only [hmsg, hread, Option.getD_some, hfields, hadmits, Int.natCast_pos, hpos, and_self,
    if_true]

/-- **The answer is the only message** of the object that has read the handshake. -/
theorem Server.answered_sends {s : Server} {a : Accepted} {bufs : List Bytes}
    (h : Sending 0 a.kcp.cb [] 0 bufs) (haddr : a.kcp.address = a.fromAddr) {text : Bytes}
    (htext : formatD a.time = some text) :
    ∃ n bufs', (s.answered a text).2 = (s.answered a text).1.output bufs' ∧
      Sending 0 (s.answered a text).1.cb [replyPackage (nextSubid s.subid) text] n
        (bufs ++ bufs') ∧
      (s.answered a text).1.address = a.fromAddr := by
  set m := replyPackage (nextSubid s.subid) text
  set k := (a.kcp.lkcpSend m a.fromAddr).2
  have hcb : k.cb = (a.kcp.cb.lkcpSend m).2 := Kcp.cb_lkcpSend a.kcp m a.fromAddr
  have hk : Sending 0 k.cb [m] 0 bufs := by
    have hsend := h.send m
    rw [if_pos ((lkcpSend_nonneg_iff h.configured m).mpr (acceptable_replyPackage s.subid htext))]
      at hsend
    rw [hcb]
    exact hsend
  have hkaddr : k.address = a.fromAddr := by
    change (a.kcp.lkcpSend m a.fromAddr).2.address = a.fromAddr
    rw [Kcp.address_lkcpSend, haddr, ite_self]
  obtain ⟨n, -, hflush⟩ := hk.flush
  refine ⟨n, k.cb.flush.2, ?_, hflush, hkaddr⟩
  change k.output k.cb.flush.2 = k.lkcpFlush.1.output k.cb.flush.2
  exact Kcp.output_congr (show k.address = k.lkcpFlush.1.address from rfl)
    (hk.configured.conv_eq.trans hflush.configured.conv_eq.symm) _

end LuaKcp
