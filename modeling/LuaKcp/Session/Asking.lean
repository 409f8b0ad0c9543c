import LuaKcp.Session.Delivery

/-!
# A client that asks for a connection

The first object of a client sends one message, its handshake, and reads the answers. Whatever its
loop does, the packages for connection 0 that it sends carry this message only, and the connection
id that it takes over is that of an answer it was sent (`Client.Asks.step`).
-/

namespace LuaKcp

open Ikcp

/-! ## Objects for handshakes -/

/-- The buffers carry the messages `ms`, of which `n` fragments have been numbered, under the
connection id 0. -/
def Conveys (ms : List Bytes) (n : ℕ) (bufs : List Bytes) : Prop :=
  ∀ d ∈ bufs, Carries 1400 (Genuine 0 (streamOf ms) n) d

namespace Conveys

variable {ms bufs bufs' : List Bytes} {n : ℕ}

theorem nil (ms : List Bytes) (n : ℕ) : Conveys ms n [] := fun _ hd => absurd hd List.not_mem_nil

theorem append (h : Conveys ms n bufs) (h' : Conveys ms n bufs') :
    Conveys ms n (bufs ++ bufs') := by
  intro d hd
  rcases List.mem_append.mp hd with hd | hd
  · exact h d hd
  · exact h' d hd

/-- More messages may be accepted, and more fragments numbered. -/
theorem mono (h : Conveys ms n bufs) (ms' : List Bytes) {n' : ℕ} (hn : n ≤ n') :
    Conveys (ms ++ ms') n' bufs := by
  intro d hd
  rw [streamOf_append]
  exact (h d hd).mono fun seg hseg => hseg.mono hn _

theorem mono_right (h : Conveys ms n bufs) {n' : ℕ} (hn : n ≤ n') : Conveys ms n' bufs := by
  have := h.mono [] hn
  rwa [List.append_nil] at this

end Conveys

/-- What is carried fits a package. -/
theorem payloads_pack_of_conveys {ms bufs : List Bytes} {n : ℕ} (h : Conveys ms n bufs) :
    payloads 0 (bufs.map (pack 0)) = bufs := by
  refine payloads_pack (by norm_num) fun buf hbuf => ?_
  have hlen : (1400 : U32).toNat < 2 ^ 16 := by decide
  exact lt_of_le_of_lt (h buf hbuf).1 hlen

/-- An object under the connection id 0 that sends the messages `ms`, `n` of whose fragments have
been numbered, and takes in the messages `answers`, `m` of whose fragments have been numbered. -/
structure Asking (ms answers : List Bytes) (n m : ℕ) (k : Ikcpcb) : Prop where
  sending : Sending 0 k ms n []
  taking : ∃ read R is, Taking answers m k.recvSide read R is

namespace Asking

variable {ms answers : List Bytes} {n m : ℕ} {k : Ikcpcb}

theorem start (answers : List Bytes) (m : ℕ) : Asking [] answers 0 m (configured 0) :=
  ⟨.start 0, 0, 0, [], .start 0 answers m⟩

/-- The other end may accept more messages and number more fragments. -/
theorem mono (h : Asking ms answers n m k) (more : List Bytes) {m' : ℕ} (hm : m ≤ m') :
    Asking ms (answers ++ more) n m' k := by
  obtain ⟨read, R, is, htake⟩ := h.taking
  exact ⟨h.sending, read, R, is, htake.mono more hm⟩

theorem update (h : Asking ms answers n m k) (current : ℤ) :
    ∃ n', n ≤ n' ∧ Asking ms answers n' m (k.lkcpUpdate current).1 ∧
      Conveys ms n' (k.lkcpUpdate current).2 := by
  obtain ⟨n', hn, hs⟩ := h.sending.update current
  refine ⟨n', hn, ⟨⟨hs.configured, hs.sends, hs.acceptable, by simp⟩, ?_⟩, hs.genuine⟩
  have hside : (k.lkcpUpdate current).1.recvSide = k.recvSide := k.recvSide_update _
  rw [hside]
  exact h.taking

theorem flush (h : Asking ms answers n m k) :
    ∃ n', n ≤ n' ∧ Asking ms answers n' m k.flush.1 ∧ Conveys ms n' k.flush.2 := by
  obtain ⟨n', hn, hs⟩ := h.sending.flush
  refine ⟨n', hn, ⟨⟨hs.configured, hs.sends, hs.acceptable, by simp⟩, ?_⟩, hs.genuine⟩
  rw [k.recvSide_flush]
  exact h.taking

theorem send (h : Asking ms answers n m k) {x : Bytes} (hx : Acceptable x) :
    Asking (ms ++ [x]) answers n m (k.lkcpSend x).2 := by
  have hs := h.sending.send x
  rw [if_pos ((lkcpSend_nonneg_iff h.sending.configured x).mpr hx)] at hs
  refine ⟨hs, ?_⟩
  have hside : (k.lkcpSend x).2.recvSide = k.recvSide := k.recvSide_send x _
  rw [hside]
  exact h.taking

theorem input (h : Asking ms answers n m k) (hm : m < 2 ^ 31) {str : Bytes}
    (hstr : Carries 1400 (Genuine 0 (streamOf answers) m) str) :
    Asking ms answers n m (k.input str).2 := by
  obtain ⟨read, R, is, htake⟩ := h.taking
  obtain ⟨R', is', htake'⟩ := htake.input h.sending.configured hm hstr
  exact ⟨h.sending.input str, read, R', is', htake'⟩

/-- **Reading** returns an answer, or nothing. -/
theorem recv (h : Asking ms answers n m k) (hacc : ∀ a ∈ answers, Acceptable a) :
    Asking ms answers n m k.lkcpRecv.2 ∧
      (0 < k.lkcpRecv.1.1 → ∃ a ∈ answers, k.lkcpRecv.1.2 = some (sentBytes a)) := by
  obtain ⟨read, R, is, htake⟩ := h.taking
  have hwnd : k.rcvWnd.toNat = 128 := by
    rw [h.sending.configured.rcvWnd_eq]
    rfl
  rcases htake.recv hwnd hacc with ⟨hneg, hsame, -⟩ | ⟨a, R', is', ha, -, hret, htake', -⟩
  · refine ⟨by rwa [hsame], fun hpos => ?_⟩
    omega
  · refine ⟨⟨h.sending.recv, read + 1, R', is', htake'⟩,
      fun hpos => ⟨a, List.mem_of_getElem? ha, ?_⟩⟩
    rw [hret] at hpos ⊢
    have hne : sentBytes a ≠ [] := List.length_pos_iff.mp (by simpa using hpos)
    exact if_neg hne

end Asking

/-! ## The steps of the client -/

namespace Client

/-- The client has sent its handshake, `n` fragments of which have been numbered; `up` are the
datagrams it has sent, and it takes in the messages `answers`. -/
structure Asks (uid : ℕ) (answers : List Bytes) (n m : ℕ) (c : Client) (up : List Bytes) :
    Prop where
  phase : c.phase ≠ .start
  subid : 0 ≤ c.subid
  le : n ≤ (streamOf [handshakePackage uid c.handshaketime]).length
  kcp1 : ∀ k, c.kcp1 = some k → Asking [handshakePackage uid c.handshaketime] answers n m k
  kcp2 : ∀ k, c.kcp2 = some k → 0 < c.subid ∧ c.subid < 2 ^ 32
  conveys : Conveys [handshakePackage uid c.handshaketime] n (payloads 0 up)

/-- The client from `c` to `t` keeps its id and its time. -/
def Holds (c t : Client) : Prop := t.handshaketime = c.handshaketime ∧ t.subid = c.subid

namespace Asks

variable {uid n m : ℕ} {answers up : List Bytes} {c t : Client}

/-- The other end may accept more messages and number more fragments. -/
theorem mono (h : c.Asks uid answers n m up) (more : List Bytes) {m' : ℕ} (hm : m ≤ m') :
    c.Asks uid (answers ++ more) n m' up :=
  ⟨h.phase, h.subid, h.le, fun k hk => (h.kcp1 k hk).mono more hm, h.kcp2, h.conveys⟩

/-- The loop moves on. -/
theorem congr (h : c.Asks uid answers n m up) (ht : c.Holds t) (hphase : t.phase ≠ .start)
    (h₁ : t.kcp1 = c.kcp1) (h₂ : t.kcp2 = c.kcp2) : t.Asks uid answers n m up := by
  obtain ⟨htime, hsubid⟩ := ht
  refine ⟨hphase, hsubid ▸ h.subid, htime ▸ h.le, ?_, ?_, htime ▸ h.conveys⟩
  · rw [h₁, htime]
    exact h.kcp1
  · rw [h₂, hsubid]
    exact h.kcp2

theorem moved (h : c.Asks uid answers n m up) (phase : Phase) (hphase : phase ≠ .start) :
    c.Holds { c with phase := phase } ∧
      ({ c with phase := phase } : Client).Asks uid answers n m up :=
  ⟨⟨rfl, rfl⟩, h.congr ⟨rfl, rfl⟩ hphase rfl rfl⟩

/-- The first object is changed by a call that hands over nothing. -/
theorem setKcp1 (h : c.Asks uid answers n m up) {k : Option Ikcpcb}
    (hk : ∀ k', k = some k' → Asking [handshakePackage uid c.handshaketime] answers n m k') :
    ({ c with kcp1 := k } : Client).Asks uid answers n m up :=
  ⟨h.phase, h.subid, h.le, hk, h.kcp2, h.conveys⟩

theorem update1 (h : c.Asks uid answers n m up) (ms : ℤ) :
    c.Holds (c.update1 ms).1 ∧
      ∃ n', (c.update1 ms).1.Asks uid answers n' m (up ++ (c.update1 ms).2) := by
  unfold Client.update1
  split
  · refine ⟨⟨rfl, rfl⟩, n, ?_⟩
    rw [List.append_nil]
    exact h
  · rename_i k hk
    obtain ⟨n', hn, hasking, hout⟩ := (h.kcp1 k hk).update ms
    refine ⟨⟨rfl, rfl⟩, n', h.phase, h.subid, hasking.sending.sends.le, ?_, h.kcp2, ?_⟩
    · intro k' hk'
      obtain rfl := Option.some.inj hk'
      exact hasking
    · rw [payloads_append, payloads_pack_of_conveys hout]
      exact (h.conveys.mono_right hn).append hout

/-- The second object is not under the connection id 0. -/
theorem kcp2_out (h : c.Asks uid answers n m up) {k : Ikcpcb} (hk : c.kcp2 = some k)
    (bufs : List Bytes) : c.Asks uid answers n m (up ++ bufs.map (pack c.subid.toNat)) := by
  obtain ⟨hpos, hlt⟩ := h.kcp2 k hk
  refine ⟨h.phase, h.subid, h.le, h.kcp1, h.kcp2, ?_⟩
  rw [payloads_append, payloads_pack_of_ne (by omega) (by omega), List.append_nil]
  exact h.conveys

/-- The second object is changed. -/
theorem setKcp2 (h : c.Asks uid answers n m up) {k : Ikcpcb} (hk : c.kcp2 = some k) (k' : Ikcpcb) :
    ({ c with kcp2 := some k' } : Client).Asks uid answers n m up :=
  ⟨h.phase, h.subid, h.le, h.kcp1, fun _ _ => h.kcp2 k hk, h.conveys⟩

theorem update2 (h : c.Asks uid answers n m up) (ms : ℤ) :
    c.Holds (c.update2 ms).1 ∧
      (c.update2 ms).1.Asks uid answers n m (up ++ (c.update2 ms).2) := by
  unfold Client.update2
  split
  · rw [List.append_nil]
    exact ⟨⟨rfl, rfl⟩, h⟩
  · rename_i k hk
    exact ⟨⟨rfl, rfl⟩, (h.kcp2_out hk _).setKcp2 hk _⟩

theorem flush (h : c.Asks uid answers n m up) :
    c.Holds c.flush.1 ∧ c.flush.1.Asks uid answers n m (up ++ c.flush.2) := by
  unfold Client.flush
  split
  · rw [List.append_nil]
    exact ⟨⟨rfl, rfl⟩, h⟩
  · rename_i k hk
    exact ⟨⟨rfl, rfl⟩, (h.kcp2_out hk _).setKcp2 hk _⟩

theorem send (h : c.Asks uid answers n m up) (package : Bytes) :
    c.Holds (c.send package) ∧ (c.send package).Asks uid answers n m up := by
  unfold Client.send
  split
  · exact ⟨⟨rfl, rfl⟩, h⟩
  · rename_i k hk
    exact ⟨⟨rfl, rfl⟩, (h.setKcp2 hk (k.lkcpSend package).2).congr ⟨rfl, rfl⟩ h.phase rfl rfl⟩

theorem read (h : c.Asks uid answers n m up) :
    c.Holds c.read ∧ c.read.Asks uid answers n m up := by
  unfold Client.read
  split
  · exact ⟨⟨rfl, rfl⟩, h⟩
  · rename_i k hk
    have hread := h.setKcp2 hk k.lkcpRecv.2
    dsimp only
    split_ifs
    · exact ⟨⟨rfl, rfl⟩, hread.congr ⟨rfl, rfl⟩ h.phase rfl rfl⟩
    · exact ⟨⟨rfl, rfl⟩, hread.congr ⟨rfl, rfl⟩ (by simp) rfl rfl⟩

theorem top (h : c.Asks uid answers n m up) (wall : ℕ) :
    c.Holds (c.top wall) ∧ (c.top wall).Asks uid answers n m up := by
  unfold Client.top
  rw [if_neg (not_lt.mpr h.subid)]
  split_ifs
  · exact ⟨⟨rfl, rfl⟩, h.congr ⟨rfl, rfl⟩ (by simp) rfl rfl⟩
  · exact ⟨⟨rfl, rfl⟩, h.congr ⟨rfl, rfl⟩ (by simp) rfl rfl⟩

theorem command (h : c.Asks uid answers n m up) (package : Option Bytes) (wall : ℕ) :
    c.Holds (c.command package wall).1 ∧
      (c.command package wall).1.Asks uid answers n m (up ++ (c.command package wall).2) := by
  cases package with
  | none =>
    have htop := h.top wall
    rw [← List.append_nil up] at htop
    exact htop
  | some package =>
    obtain ⟨⟨ht₁, hs₁⟩, h₁⟩ := h.send package
    obtain ⟨⟨ht₂, hs₂⟩, h₂⟩ := h₁.flush
    obtain ⟨⟨ht₃, hs₃⟩, h₃⟩ := h₂.top wall
    exact ⟨⟨ht₃.trans (ht₂.trans ht₁), hs₃.trans (hs₂.trans hs₁)⟩, h₃⟩

/-- A payload for connection 0 is fed to the first object. -/
theorem inputKcp1 (h : c.Asks uid answers n m up) (hm : m < 2 ^ 31) {str : Bytes}
    (hstr : Carries 1400 (Genuine 0 (streamOf answers) m) str) :
    ({ c with kcp1 := c.kcp1.map fun (k : Ikcpcb) => (k.input str).2 } : Client).Asks uid answers
      n m up := by
  refine h.setKcp1 fun k' hk' => ?_
  obtain ⟨k, hk, rfl⟩ := Option.map_eq_some_iff.mp hk'
  exact (h.kcp1 k hk).input hm hstr

theorem handshakeReceive (h : c.Asks uid answers n m up) (hm : m < 2 ^ 31) {d : Bytes}
    (hd : Conveys answers m (payloads 0 [d])) :
    c.Holds (c.handshakeReceive d) ∧ (c.handshakeReceive d).Asks uid answers n m up := by
  unfold Client.handshakeReceive
  split
  · rename_i str hstr
    exact ⟨⟨rfl, rfl⟩, h.inputKcp1 hm (hd str (mem_payloads List.mem_cons_self hstr))⟩
  · exact ⟨⟨rfl, rfl⟩, h⟩

theorem receive (h : c.Asks uid answers n m up) (hm : m < 2 ^ 31) {d : Bytes}
    (hd : Conveys answers m (payloads 0 [d])) :
    c.Holds (c.receive d).1 ∧
      ∃ n', (c.receive d).1.Asks uid answers n' m (up ++ (c.receive d).2) := by
  unfold Client.receive
  split
  · refine ⟨⟨rfl, rfl⟩, n, ?_⟩
    rw [List.append_nil]
    exact h
  · rename_i id str hstr
    split_ifs with hid hzero
    · -- the first object is given up
      refine ⟨⟨rfl, rfl⟩, n, h.phase, h.subid, h.le, by simp, fun k hk => ?_, ?_⟩
      · obtain ⟨k₂, hk₂, -⟩ := Option.map_eq_some_iff.mp hk
        exact h.kcp2 k₂ hk₂
      · rw [List.append_nil]
        exact h.conveys
    · subst hzero
      exact (h.inputKcp1 hm (hd str (mem_payloads List.mem_cons_self hstr))).update1 c.ms
    · refine ⟨⟨rfl, rfl⟩, n, ?_⟩
      rw [List.append_nil]
      exact h

theorem handshakeWait (h : c.Asks uid answers n m up) (wall : ℕ) :
    c.Holds (c.handshakeWait wall).1 ∧
      ∃ n', (c.handshakeWait wall).1.Asks uid answers n' m (up ++ (c.handshakeWait wall).2) :=
  (h.congr (t := { c with ms := getms wall, phase := .command }) ⟨rfl, rfl⟩ (by simp) rfl
    rfl).update1 (getms wall)

theorem wait (h : c.Asks uid answers n m up) (wall : ℕ) :
    c.Holds (c.wait wall).1 ∧
      ∃ n', (c.wait wall).1.Asks uid answers n' m (up ++ (c.wait wall).2) := by
  have hphase : ({ c with ms := getms wall, phase := .command } : Client).Asks uid answers n m up :=
    h.congr ⟨rfl, rfl⟩ (by simp) rfl rfl
  obtain ⟨⟨ht₁, hs₁⟩, h₁⟩ := hphase.update2 (getms wall)
  obtain ⟨⟨ht₂, hs₂⟩, n', h₂⟩ := h₁.update1 (getms wall)
  refine ⟨⟨ht₂.trans ht₁, hs₂.trans hs₁⟩, n', ?_⟩
  rw [List.append_assoc] at h₂
  exact h₂

end Asks

/-- **The client asks**: the handshake is the only message of its first object. -/
theorem asks_begin (uid wall : ℕ) {time : ℕ} (hlen : (handshakePackage uid time).length ≤ 1376)
    (answers : List Bytes) (m : ℕ) :
    ((ctor uid).begin wall time).1.handshaketime = time ∧
      ∃ n, ((ctor uid).begin wall time).1.Asks uid answers n m
        ((ctor uid).begin wall time).2 := by
  obtain ⟨n₁, -, h₁, hout₁⟩ := (Asking.start answers m).update (getms wall)
  have h₂ := h₁.send (acceptable_of_length_le hlen)
  obtain ⟨n₃, hn, h₃, hout₃⟩ := h₂.flush
  refine ⟨rfl, n₃, by simp [begin], le_rfl, h₃.sending.sends.le, ?_, by simp [begin, ctor], ?_⟩
  · intro k hk
    obtain rfl := Option.some.inj hk
    exact h₃
  · have hout : ((ctor uid).begin wall time).2 =
        ((configured 0).lkcpUpdate (getms wall)).2.map (pack 0) ++
          ((((configured 0).lkcpUpdate (getms wall)).1.lkcpSend
            (handshakePackage uid time)).2.flush.2).map (pack 0) := rfl
    rw [hout, payloads_append, payloads_pack_of_conveys hout₁, payloads_pack_of_conveys hout₃]
    exact (hout₁.mono [handshakePackage uid time] hn).append hout₃

/-- The client reads an answer that tells it the connection id `id`. -/
theorem handshakeRead_of_answer {c : Client} {k : Ikcpcb} {wall id : ℕ} {v : LuaNumber}
    (hk : c.kcp1 = some k) (hpos : 0 < k.lkcpRecv.1.1)
    (hanswer : answer c.handshaketime (k.lkcpRecv.1.2.getD []) = some v)
    (hint : v.toInteger = some (id : ℤ)) (hlt : (id : ℤ) < 2 ^ 32) :
    c.handshakeRead wall = some ({ c with
      kcp1 := some k.lkcpRecv.2, subid := id, kcp2 := some (getKcp id wall).1, ms := getms wall,
      phase := .handshakeWait }, (getKcp id wall).2) := by
  unfold Client.handshakeRead
  rw [hk]
  dsimp only
  rw [if_pos hpos, hanswer]
  dsimp only
  rw [hint]
  dsimp only
  rw [if_pos hlt, Int.toNat_natCast]

/-- The answers are read whole, and each tells a client that has asked at this time a connection
id. -/
def Tell (time : ℕ) (answers : List Bytes) : Prop :=
  ∀ a ∈ answers, Acceptable a ∧ sentBytes a = a ∧
    ∃ id : ℕ, 0 < id ∧ id < 2 ^ 32 ∧ answer time a = some (.ofInt id)

namespace Asks

variable {uid n m : ℕ} {answers up : List Bytes} {c t : Client}

/-- **Reading the answer**: the client takes over the id of an answer, or goes on waiting. -/
theorem handshakeRead (h : c.Asks uid answers n m up) (htell : Tell c.handshaketime answers)
    {wall : ℕ} {out : List Bytes} (hstep : c.handshakeRead wall = some (t, out)) :
    t.handshaketime = c.handshaketime ∧
      (t.subid = c.subid ∨ ∃ a ∈ answers, answer c.handshaketime a = some (.ofInt t.subid)) ∧
        t.Asks uid answers n m (up ++ out) := by
  cases hk : c.kcp1 with
  | none =>
    simp [Client.handshakeRead, hk] at hstep
  | some k =>
    obtain ⟨hasking, hread⟩ := (h.kcp1 k hk).recv fun a ha => (htell a ha).1
    have hc : ({ c with kcp1 := some k.lkcpRecv.2 } : Client).Asks uid answers n m up := by
      refine h.setKcp1 fun k' hk' => ?_
      obtain rfl := Option.some.inj hk'
      exact hasking
    by_cases hpos : 0 < k.lkcpRecv.1.1
    · obtain ⟨a, ha, hret⟩ := hread hpos
      obtain ⟨-, hwhole, id, hid, hlt, hanswer⟩ := htell a ha
      rw [hwhole] at hret
      have hid' : 0 < (id : ℤ) := by exact_mod_cast hid
      have hlt' : (id : ℤ) < 2 ^ 32 := by exact_mod_cast hlt
      have hint : (LuaNumber.ofInt (id : ℤ)).toInteger = some (id : ℤ) :=
        LuaNumber.toInteger_ofInt ⟨by omega, hlt'.trans (by norm_num)⟩
      rw [handshakeRead_of_answer hk hpos (by rw [hret]; exact hanswer) hint hlt'] at hstep
      obtain ⟨rfl, rfl⟩ := eq_of_some hstep
      refine ⟨rfl, Or.inr ⟨a, ha, hanswer⟩, by simp, Int.natCast_nonneg id, h.le, hc.kcp1,
        fun _ _ => ⟨hid', hlt'⟩, ?_⟩
      rw [payloads_append]
      unfold Client.getKcp
      rw [payloads_pack_of_ne hlt (by omega), List.append_nil]
      exact h.conveys
    · unfold Client.handshakeRead at hstep
      rw [hk] at hstep
      dsimp only at hstep
      rw [if_neg hpos] at hstep
      obtain ⟨rfl, rfl⟩ := eq_of_some hstep
      refine ⟨rfl, Or.inl rfl, ?_⟩
      rw [List.append_nil]
      exact hc.congr ⟨rfl, rfl⟩ (by simp) rfl rfl

/-- **A step of the client**: it takes over the id of an answer, or keeps its own. -/
theorem step (h : c.Asks uid answers n m up) (hm : m < 2 ^ 31)
    (htell : Tell c.handshaketime answers) {e : ClientEvent}
    (he : ∀ d, e = .receive d → Conveys answers m (payloads 0 [d]))
    {out : List Bytes} (hstep : c.step e = some (t, out)) :
    t.handshaketime = c.handshaketime ∧
      (t.subid = c.subid ∨ ∃ a ∈ answers, answer c.handshaketime a = some (.ofInt t.subid)) ∧
        ∃ n', t.Asks uid answers n' m (up ++ out) := by
  -- all steps but one keep the id
  have hholds {n' : ℕ} (ht : c.Holds t) (h' : t.Asks uid answers n' m (up ++ out)) :
      t.handshaketime = c.handshaketime ∧
        (t.subid = c.subid ∨ ∃ a ∈ answers, answer c.handshaketime a = some (.ofInt t.subid)) ∧
          ∃ n', t.Asks uid answers n' m (up ++ out) := ⟨ht.1, Or.inl ht.2, n', h'⟩
  have hsilent {t' : Client} (ht : c.Holds t' ∧ t'.Asks uid answers n m up) :
      c.Holds t' ∧ t'.Asks uid answers n m (up ++ []) := by
    rwa [List.append_nil]
  cases e with
  | begin wall time =>
    simp only [Client.step, if_neg h.phase] at hstep
    simp at hstep
  | receive d =>
    have hd := he d rfl
    simp only [Client.step] at hstep
    split at hstep
    · obtain ⟨rfl, rfl⟩ := eq_of_some hstep
      obtain ⟨ht, h'⟩ := hsilent (h.handshakeReceive hm hd)
      exact hholds ht h'
    · obtain ⟨rfl, rfl⟩ := eq_of_some hstep
      obtain ⟨ht, n', h'⟩ := h.receive hm hd
      exact hholds ht h'
    · simp at hstep
  | drained =>
    simp only [Client.step] at hstep
    split at hstep
    · obtain ⟨rfl, rfl⟩ := eq_of_some hstep
      obtain ⟨ht, h'⟩ := hsilent (h.moved .handshakeRead (by simp))
      exact hholds ht h'
    · obtain ⟨rfl, rfl⟩ := eq_of_some hstep
      obtain ⟨ht, h'⟩ := hsilent (h.moved .read (by simp))
      exact hholds ht h'
    · simp at hstep
  | read wall =>
    simp only [Client.step] at hstep
    split at hstep
    · obtain ⟨htime, hsubid, h'⟩ := h.handshakeRead htell hstep
      exact ⟨htime, hsubid, n, h'⟩
    · obtain ⟨rfl, rfl⟩ := eq_of_some hstep
      obtain ⟨ht, h'⟩ := hsilent h.read
      exact hholds ht h'
    · simp at hstep
  | wait wall =>
    simp only [Client.step] at hstep
    split at hstep
    · obtain ⟨rfl, rfl⟩ := eq_of_some hstep
      obtain ⟨ht, n', h'⟩ := h.handshakeWait wall
      exact hholds ht h'
    · obtain ⟨rfl, rfl⟩ := eq_of_some hstep
      obtain ⟨ht, n', h'⟩ := h.wait wall
      exact hholds ht h'
    · simp at hstep
  | command package wall =>
    simp only [Client.step] at hstep
    split_ifs at hstep
    obtain ⟨rfl, rfl⟩ := eq_of_some hstep
    obtain ⟨ht, h'⟩ := h.command package wall
    exact hholds ht h'
  | send package =>
    obtain ⟨rfl, rfl⟩ := eq_of_some hstep
    obtain ⟨ht, h'⟩ := hsilent (h.send package)
    exact hholds ht h'
  | flush =>
    obtain ⟨rfl, rfl⟩ := eq_of_some hstep
    obtain ⟨ht, h'⟩ := h.flush
    exact hholds ht h'
  | update wall =>
    obtain ⟨rfl, rfl⟩ := eq_of_some hstep
    obtain ⟨ht, h'⟩ := h.update2 (getms wall)
    exact hholds ht h'

end Asks

end Client

end LuaKcp
