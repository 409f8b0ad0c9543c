import LuaKcp.Memory.Refinement

/-!
# Whole runs on pointers

From `ikcp_create` on, whatever is called and in whatever order, `ikcp.c` never follows a `NULL`
pointer, touches a freed segment, reads or writes beyond a block or fails one of its assertions, its
loops end, and it answers what the functions on lists answer, provided that the program does what it
owes (`Ikcpcb.Allows`). The segments allocated are those on the queues, and `ikcp_release` frees
them all.
-/

namespace LuaKcp.Ikcp

namespace Ikcpcb

/-- What a program owes. The bytes to send are there; the block of `ikcp_recv` has the size that is
passed, which can be negated, and the message that waits fits an `int`; so do a datagram, and the
index of a word of the ack list; the output callback is set when something may be handed over; a
unit set by `ikcp_setmtu` gives a buffer that holds the segments waiting. -/
def Allows (kcp : Ikcpcb) (output : Bool) (block : Option ℕ) : Call → Prop
  | .send buffer len => len ≤ buffer.length
  | .recv len => -(2 ^ 31) < len ∧ (∀ size ∈ block, |len| ≤ size) ∧ kcp.peeksize < 2 ^ 31
  | .peeksize => kcp.peeksize < 2 ^ 31
  | .input data => data.length < 2 ^ 31 ∧ (kcp.input data).2.acklist.length ≤ 2 ^ 30
  | .update _ | .flush => output = true
  | .setmtu mtu => mtu < 50 ∨ (3 * (mtu + overhead) < 2 ^ 32 ∧
    kcp.Carries fun data => (overhead + data.length : ℤ) ≤ 3 * (mtu + overhead))
  | _ => True

/-- Every call is made on a control block that allows it. -/
def AllowsAll : Ikcpcb → (output : Bool) → List Use → Prop
  | _, _, [] => True
  | kcp, _, .setOutput callback :: us => AllowsAll kcp callback us
  | kcp, output, .call c block :: us =>
    kcp.Allows output block c ∧ AllowsAll (kcp.call c).2 output us

instance (kcp : Ikcpcb) (output : Bool) (block : Option ℕ) :
    (c : Call) → Decidable (kcp.Allows output block c)
  | .send buffer len => inferInstanceAs (Decidable (len ≤ buffer.length))
  | .recv len => inferInstanceAs (Decidable (-(2 ^ 31) < len ∧ (∀ size ∈ block, |len| ≤ size) ∧
    kcp.peeksize < 2 ^ 31))
  | .peeksize => inferInstanceAs (Decidable (kcp.peeksize < 2 ^ 31))
  | .input data => inferInstanceAs (Decidable (data.length < 2 ^ 31 ∧
    (kcp.input data).2.acklist.length ≤ 2 ^ 30))
  | .update _ | .flush => inferInstanceAs (Decidable (output = true))
  | .setmtu mtu => inferInstanceAs (Decidable (mtu < 50 ∨ (3 * (mtu + overhead) < 2 ^ 32 ∧
    ∀ seg ∈ kcp.sndQueue ++ kcp.sndBuf, (overhead + seg.data.length : ℤ) ≤ 3 * (mtu + overhead))))
  | .check _ | .interval _ | .nodelay _ _ _ _ | .wndsize _ _ | .waitsnd => isTrue trivial

instance decidableAllowsAll :
    (kcp : Ikcpcb) → (output : Bool) → (us : List Use) → Decidable (kcp.AllowsAll output us)
  | _, _, [] => isTrue trivial
  | kcp, _, .setOutput callback :: us => decidableAllowsAll kcp callback us
  | _, output, .call _ _ :: us => @instDecidableAnd _ _ _ (decidableAllowsAll _ output us)

end Ikcpcb

/-- A reply as it comes out in memory: `ikcp_recv` copies nothing to `NULL`, and `ikcp_waitsnd`
returns an `int`. -/
def Call.cast (block : Option ℕ) : Call → Reply → Reply
  | .recv _, reply => { reply with data := Memory.received block reply.data }
  | .waitsnd, reply => { reply with ret := (BitVec.ofInt 32 reply.ret).toInt }
  | _, reply => reply

/-- The call that is made, when it is one. -/
def Use.call? : Use → Option Call
  | .setOutput _ => none
  | .call c _ => some c

namespace Ikcpcb

/-- What the functions on lists reply to what a program does. -/
def answers : Ikcpcb → List Use → List Reply
  | _, [] => []
  | kcp, .setOutput _ :: us => answers kcp us
  | kcp, .call c block :: us => c.cast block (kcp.call c).1 :: answers (kcp.call c).2 us

variable {kcp : Ikcpcb} {output : Bool} {block : Option ℕ}

/-! ## The room in the buffer -/

theorem room_create (conv : U32) : (create conv).Room := by
  have hmtu : mtuDef.toNat ≤ ((mtuDef + BitVec.ofNat 32 overhead) * 3).toNat := by decide
  have hmss : overhead + (mtuDef - BitVec.ofNat 32 overhead).toNat ≤
      ((mtuDef + BitVec.ofNat 32 overhead) * 3).toNat := by decide
  exact ⟨hmtu, hmss, fun seg hseg => absurd hseg List.not_mem_nil⟩

theorem setmtu_rejected {mtu : ℤ} (h : mtu < 50) : kcp.setmtu mtu = (-1, kcp) :=
  if_pos (Or.inl h)

/-- What a unit that is accepted gives, the product fitting its word. -/
theorem setmtu_accepted (kcp : Ikcpcb) {mtu : ℤ} (hlow : ¬ mtu < 50)
    (hfits : 3 * (mtu + overhead) < 2 ^ 32) :
    kcp.setmtu mtu = (0, { kcp with
      mtu := BitVec.ofInt 32 mtu, mss := BitVec.ofInt 32 mtu - BitVec.ofNat 32 overhead }) ∧
    (kcp.setmtu mtu).2.mtu.toNat = mtu.toNat ∧
    (kcp.setmtu mtu).2.mss.toNat = mtu.toNat - overhead ∧
    (kcp.setmtu mtu).2.bufferSize = 3 * (mtu.toNat + overhead) := by
  have hover : overhead = 24 := rfl
  have hset : kcp.setmtu mtu = (0, { kcp with
      mtu := BitVec.ofInt 32 mtu, mss := BitVec.ofInt 32 mtu - BitVec.ofNat 32 overhead }) :=
    if_neg (by omega)
  have hnat : (BitVec.ofInt 32 mtu).toNat = mtu.toNat := by
    rw [BitVec.toNat_ofInt]
    omega
  have hover' : (BitVec.ofNat 32 overhead).toNat = 24 := rfl
  have hthree : (3 : U32).toNat = 3 := rfl
  refine ⟨hset, ?_, ?_, ?_⟩
  · rw [hset]
    exact hnat
  · rw [hset]
    dsimp only
    rw [BitVec.toNat_sub, hnat, hover']
    omega
  · rw [hset, bufferSize]
    dsimp only
    rw [BitVec.toNat_mul, BitVec.toNat_add, hnat, hover', hthree]
    omega

theorem Room.setmtu (h : kcp.Room) {mtu : ℤ} (hmtu : kcp.Allows output block (.setmtu mtu)) :
    (kcp.setmtu mtu).2.Room := by
  by_cases hlow : mtu < 50
  · rw [setmtu_rejected hlow]
    exact h
  · obtain ⟨hfits, hsegs⟩ := hmtu.resolve_left hlow
    obtain ⟨hset, hnat, hmss, hsize⟩ := setmtu_accepted kcp hlow hfits
    have hover : overhead = 24 := rfl
    refine ⟨by rw [hnat, hsize]; omega, by rw [hmss, hsize]; omega, fun seg hseg => ?_⟩
    rw [hset] at hseg
    have := hsegs seg hseg
    rw [hsize]
    omega

/-- The fields that decide about the room, where only settings change. -/
theorem Room.scalar {f : Ikcpcb → Ikcpcb} (hf : Memory.Represents.Scalar f) (h : kcp.Room) :
    (f kcp).Room := by
  have hkept := hf.kept kcp
  simp only [Memory.kept, Prod.mk.injEq] at hkept
  obtain ⟨hmtu, hmss, -⟩ := hkept
  have hsize : (f kcp).bufferSize = kcp.bufferSize := by
    unfold bufferSize
    rw [hmtu]
  have hque : (f kcp).sndQueue = kcp.sndQueue := congrFun (hf.queue kcp) .sndQueue
  have hbuf : (f kcp).sndBuf = kcp.sndBuf := congrFun (hf.queue kcp) .sndBuf
  refine ⟨by rw [hmtu, hsize]; exact h.mtu, by rw [hmss, hsize]; exact h.mss, ?_⟩
  unfold Carries
  rw [hque, hbuf, hsize]
  exact h.segs

theorem Room.flush (h : kcp.Room) : kcp.flush.1.Room :=
  h.of_carries kcp.params_flush h.segs.flush

theorem Room.update (h : kcp.Room) (current : U32) : (kcp.update current).1.Room := by
  rw [update_ticked]
  split_ifs
  · exact (h.ticked current).flush
  · exact h.ticked current

theorem Room.send (h : kcp.Room) (buffer : Bytes) (len : ℤ) : (kcp.send buffer len).2.Room :=
  h.of_carries (kcp.params_send buffer len)
    (h.segs.send (fun _ hlen => (Nat.add_le_add_left hlen overhead).trans h.mss) buffer len)

theorem Room.recv (h : kcp.Room) (len : ℤ) : (kcp.recv len).2.2.Room := by
  have hside := kcp.sendSide_recv len
  refine h.of_carries (kcp.params_recv len) ?_
  unfold Carries
  rw [show (kcp.recv len).2.2.sndQueue = kcp.sndQueue from congrArg SendSide.sndQueue hside,
    show (kcp.recv len).2.2.sndBuf = kcp.sndBuf from congrArg SendSide.sndBuf hside]
  exact h.segs

theorem Room.input (h : kcp.Room) (data : Bytes) : (kcp.input data).2.Room :=
  h.of_carries (kcp.params_input data) (h.segs.trims (kcp.trims_input data))

end Ikcpcb

namespace Memory

variable {m : Memory} {kcp : Ikcpcb} {output : Bool} {block : Option ℕ}

/-- Four rings without entries. -/
theorem create_represents (conv : U32) :
    ∃ m, create conv = some m ∧ m.Represents (Ikcp.create conv) := by
  have hmss : mtuDef - BitVec.ofNat 32 overhead ≠ 0 := by decide
  have hval (q : Queue) : (heads.heap.val (.head q)).isSome := rfl
  obtain ⟨h₁, hw₁, hn₁, hp₁, hv₁⟩ := Heap.init_spec (hval .sndQueue)
  obtain ⟨h₂, hw₂, hn₂, hp₂, hv₂⟩ := Heap.init_spec (h := h₁) (hv₁ ▸ hval .rcvQueue)
  obtain ⟨h₃, hw₃, hn₃, hp₃, hv₃⟩ := Heap.init_spec (h := h₂) (by
    rw [hv₂, hv₁]
    exact hval .sndBuf)
  obtain ⟨h₄, hw₄, hn₄, hp₄, hv₄⟩ := Heap.init_spec (h := h₃) (by
    rw [hv₃, hv₂, hv₁]
    exact hval .rcvBuf)
  have hval₄ : h₄.val = heads.heap.val := by rw [hv₄, hv₃, hv₂, hv₁]
  have hlaid : Laid ⟨h₄, 0⟩ (fun _ => []) none := by
    refine ⟨⟨fun q => Ring.single ?_ ?_, fun q q' a ha ha' => ?_⟩,
      fun q e he => absurd he List.not_mem_nil, fun e he => absurd he (Option.not_mem_none e),
      fun n hn => ?_, fun n _ => ?_⟩
    · rw [hn₄, hn₃, hn₂, hn₁]
      cases q <;> rfl
    · rw [hp₄, hp₃, hp₂, hp₁]
      cases q <;> rfl
    · have heq : a = .head q := List.mem_singleton.mp ha
      have heq' : a = .head q' := List.mem_singleton.mp ha'
      exact Addr.head.inj (heq.symm.trans heq')
    · change (h₄.val (.seg n)).isSome at hn
      rw [hval₄] at hn
      exact absurd hn Bool.false_ne_true
    · change h₄.val (.seg n) = none
      rw [hval₄]
      rfl
  refine ⟨⟨Ikcp.create conv, ⟨none, 0, 0⟩, (Ikcp.create conv).bufferSize, fun _ => 0, ⟨h₄, 0⟩⟩, ?_,
    ⟨_, ⟨hlaid, fun _ => rfl⟩, fun q => ?_⟩, rfl, Acklist.Represents.empty, rfl, hmss,
    Nat.two_pow_pos 32, Nat.zero_le _⟩
  · simp only [create, Store.init, hw₁, hw₂, hw₃, hw₄, Option.bind_eq_bind, Option.bind_some]
    rfl
  · cases q <;> rfl

namespace Represents

/-! ## The settings -/

namespace Scalar

theorem setInterval (interval : ℤ) : Scalar (·.setInterval interval) :=
  ⟨fun _ => rfl, fun kcp => funext fun q => by cases q <;> rfl, fun _ => rfl⟩

theorem setNodelay (nodelay interval resend nc : ℤ) :
    Scalar (·.setNodelay nodelay interval resend nc) := by
  refine ⟨fun kcp => ?_, fun kcp => ?_, fun kcp => ?_⟩ <;> unfold Ikcpcb.setNodelay <;> dsimp only
  · split_ifs <;> rfl
  · split_ifs <;> exact funext fun q => by cases q <;> rfl
  · split_ifs <;> rfl

theorem wndsize (sndwnd rcvwnd : ℤ) : Scalar (·.wndsize sndwnd rcvwnd) := by
  refine ⟨fun kcp => ?_, fun kcp => ?_, fun kcp => ?_⟩ <;> unfold Ikcpcb.wndsize <;> dsimp only
  · split_ifs <;> rfl
  · split_ifs <;> exact funext fun q => by cases q <;> rfl
  · split_ifs <;> rfl

end Scalar

/-- The buffer of the new unit, and room for data in a segment. -/
theorem setmtu (h : m.Represents kcp) {mtu : ℤ}
    (hmtu : kcp.Allows output block (.setmtu mtu)) :
    ∃ m', m.setmtu mtu = ((kcp.setmtu mtu).1, m') ∧ m'.Represents (kcp.setmtu mtu).2 := by
  by_cases hlow : mtu < 50
  · refine ⟨m, ?_, ?_⟩
    · rw [Memory.setmtu, Ikcpcb.setmtu_rejected hlow, Ikcpcb.setmtu_rejected hlow]
      rfl
    · rw [Ikcpcb.setmtu_rejected hlow]
      exact h
  · obtain ⟨hfits, -⟩ := hmtu.resolve_left hlow
    obtain ⟨hset, -, hmss, hsize⟩ := Ikcpcb.setmtu_accepted kcp hlow hfits
    obtain ⟨hset', -, -, hsize'⟩ := Ikcpcb.setmtu_accepted m.cb hlow hfits
    obtain ⟨E, hm, hE⟩ := h.holds
    have hqueue : (kcp.setmtu mtu).2.queue = kcp.queue := by
      rw [hset]
      exact funext fun q => by cases q <;> rfl
    have hmss' : (kcp.setmtu mtu).2.mss ≠ 0 := by
      intro hzero
      have hover : overhead = 24 := rfl
      have hnat : (0 : U32).toNat = 0 := rfl
      rw [hzero, hnat] at hmss
      omega
    refine ⟨{ m with cb := (m.cb.setmtu mtu).2, buffer := (m.cb.setmtu mtu).2.bufferSize }, ?_,
      ⟨E, ⟨hm.laid, hm.count⟩, fun q => by rw [hqueue, hE q]⟩, ?_, ?_, hsize'.trans hsize.symm,
      hmss', ?_, ?_⟩
    · unfold Memory.setmtu
      dsimp only
      rw [hset', hset]
      rfl
    · dsimp only
      rw [hset', hset, h.cb]
      rfl
    · rw [hset]
      exact h.acks
    · rw [hset]
      exact h.fits
    · rw [hset]
      exact h.few

/-! ## All the calls -/

theorem waitsnd (h : m.Represents kcp) : m.waitsnd = (BitVec.ofInt 32 kcp.waitsnd).toInt := by
  obtain ⟨E, hm, hE⟩ := h.holds
  have hcount (q : Queue) : m.count q = BitVec.ofNat 32 (kcp.queue q).length := by
    rw [hm.count, ← hE, List.length_map]
  unfold Memory.waitsnd Ikcpcb.waitsnd
  rw [hcount, hcount, ← BitVec.ofNat_add]
  rfl

/-- **One call on pointers**: it does not fail, returns what the call on lists returns, and leaves
the memory of the control block that this leaves. -/
theorem call (h : m.Represents kcp) (hroom : kcp.Room) {c : Call}
    (hc : kcp.Allows output block c) :
    (∃ m', m.call output block c = some (c.cast block (kcp.call c).1, m') ∧
      m'.Represents (kcp.call c).2) ∧ (kcp.call c).2.Room := by
  cases c with
  | send buffer len =>
    obtain ⟨m', hsend, h'⟩ := h.send hc
    exact ⟨⟨m', by simp only [Memory.call, hsend]; rfl, h'⟩, hroom.send buffer len⟩
  | recv len =>
    obtain ⟨m', hrecv, h'⟩ := h.recv hc.1 hc.2.1 hc.2.2
    exact ⟨⟨m', by simp only [Memory.call, hrecv]; rfl, h'⟩, hroom.recv len⟩
  | peeksize => exact ⟨⟨m, by simp only [Memory.call, h.peeksize hc]; rfl, h⟩, hroom⟩
  | input data =>
    obtain ⟨m', hinput, h'⟩ := h.input hc.1 hc.2
    exact ⟨⟨m', by simp only [Memory.call, hinput]; rfl, h'⟩, hroom.input data⟩
  | update current =>
    obtain rfl : output = true := hc
    obtain ⟨m', hupdate, h'⟩ := h.update hroom current
    exact ⟨⟨m', by simp only [Memory.call, hupdate]; rfl, h'⟩, hroom.update current⟩
  | check current => exact ⟨⟨m, by simp only [Memory.call, h.check]; rfl, h⟩, hroom⟩
  | flush =>
    obtain rfl : output = true := hc
    obtain ⟨m', hflush, h'⟩ := h.flush hroom
    exact ⟨⟨m', by simp only [Memory.call, hflush]; rfl, h'⟩, hroom.flush⟩
  | setmtu mtu =>
    obtain ⟨m', hset, h'⟩ := h.setmtu hc
    exact ⟨⟨m', by simp only [Memory.call, hset]; rfl, h'⟩, hroom.setmtu hc⟩
  | interval interval =>
    have hset := Scalar.setInterval interval
    exact ⟨⟨_, rfl, h.scalar hset⟩, hroom.scalar hset⟩
  | nodelay nodelay interval resend nc =>
    have hset := Scalar.setNodelay nodelay interval resend nc
    exact ⟨⟨_, rfl, h.scalar hset⟩, hroom.scalar hset⟩
  | wndsize sndwnd rcvwnd =>
    have hset := Scalar.wndsize sndwnd rcvwnd
    exact ⟨⟨_, rfl, h.scalar hset⟩, hroom.scalar hset⟩
  | waitsnd => exact ⟨⟨m, by rw [Memory.call, h.waitsnd]; rfl, h⟩, hroom⟩

theorem run (h : m.Represents kcp) (hroom : kcp.Room) {us : List Use}
    (hus : kcp.AllowsAll output us) :
    ∃ m', m.run output us = some (kcp.answers us, m') ∧
      m'.Represents (kcp.calls (us.filterMap Use.call?)) := by
  induction us generalizing m kcp output with
  | nil => exact ⟨m, rfl, h⟩
  | cons u us ih =>
    cases u with
    | setOutput callback => exact ih h hroom hus
    | call c block =>
      obtain ⟨⟨m₁, hcall, h₁⟩, hroom₁⟩ := h.call hroom hus.1
      obtain ⟨m', hrun, h'⟩ := ih h₁ hroom₁ hus.2
      refine ⟨m', ?_, h'⟩
      simp only [Memory.run, hcall, hrun, Option.bind_eq_bind, Option.bind_some]
      rfl

/-- Nothing is left. -/
theorem release (h : m.Represents kcp) :
    ∃ s, m.release = some s ∧ ∀ n, s.heap (.seg n) = none := by
  obtain ⟨E, hm, -⟩ := h.holds
  obtain ⟨s₁, hloop₁, hl₁⟩ := releaseLoop_spec hm.laid rfl (hm.laid.lt_rounds .sndBuf)
  obtain ⟨s₂, hloop₂, hl₂⟩ := releaseLoop_spec hl₁ rfl (hl₁.lt_rounds .rcvBuf)
  obtain ⟨s₃, hloop₃, hl₃⟩ := releaseLoop_spec hl₂ rfl (hl₂.lt_rounds .sndQueue)
  obtain ⟨s₄, hloop₄, hl₄⟩ := releaseLoop_spec hl₃ rfl (hl₃.lt_rounds .rcvQueue)
  refine ⟨s₄, ?_, fun n => ?_⟩
  · simp only [Memory.release, hloop₁, hloop₂, hloop₃, hloop₄, Option.bind_eq_bind,
      Option.bind_some]
  · by_contra hlive
    have hval : (s₄.heap.val (.seg n)).isSome := by
      unfold Heap.val
      rw [Option.isSome_map]
      exact Option.isSome_iff_ne_none.mpr hlive
    rcases hl₄.live n hval with ⟨e, he, -⟩ | ⟨q, hq⟩
    · exact Option.not_mem_none e he
    · cases q <;> exact List.not_mem_nil hq

end Represents

/-- **Memory safety**: a control block that is created, used in any way that it allows and
released; `ikcp_create` leaves `kcp->output` at `NULL`. -/
theorem run_released (conv : U32) {us : List Use} (hus : (Ikcp.create conv).AllowsAll false us) :
    ∃ m₀ m s, create conv = some m₀ ∧
      m₀.run false us = some ((Ikcp.create conv).answers us, m) ∧
      m.Represents ((Ikcp.create conv).calls (us.filterMap Use.call?)) ∧
      m.release = some s ∧ ∀ n, s.heap (.seg n) = none := by
  obtain ⟨m₀, hcreate, h₀⟩ := create_represents conv
  obtain ⟨m, hrun, h⟩ := h₀.run (Ikcpcb.room_create conv) hus
  obtain ⟨s, hrelease, hfreed⟩ := h.release
  exact ⟨m₀, m, s, hcreate, hrun, h, hrelease, hfreed⟩

/-- A segment of the peer comes in, a message goes out, and the unit changes in between. -/
def sessionUses : List Use :=
  [.setOutput true, .call (.setmtu 60) none, .call (.nodelay 1 10 2 1) none,
    .call (.send (List.replicate 50 5) 50) none, .call (.update 0) none,
    .call (.input
      [7, 0, 0, 0, 81, 0, 32, 0, 0, 0, 0, 0, 0, 0, 0, 0, 0, 0, 0, 0, 2, 0, 0, 0, 9, 8]) none,
    .call .peeksize none, .call (.recv (-10)) none, .call (.update 10) none,
    .call (.setmtu 576) none, .call (.recv 10) (some 10), .call .waitsnd none]

theorem run_released_session :
    ((Ikcp.create 7).calls (sessionUses.filterMap Use.call?)).sndBuf ≠ [] ∧
    ∃ m₀ m s, create 7 = some m₀ ∧
      m₀.run false sessionUses = some ((Ikcp.create 7).answers sessionUses, m) ∧
      m.Represents ((Ikcp.create 7).calls (sessionUses.filterMap Use.call?)) ∧
      m.release = some s ∧ ∀ n, s.heap (.seg n) = none :=
  ⟨by decide +kernel, run_released 7 (by decide +kernel)⟩

/-- `ikcp_setmtu` does not look at what is waiting: a segment of 274 bytes is written into the 222
bytes of the new buffer. -/
example : ((create 1).bind fun m => m.run true [.call (.nodelay 1 10 2 1) none,
    .call (.send (List.replicate 250 5) 250) none, .call (.setmtu 50) none,
    .call (.update 0) none]).isNone = true := by decide +kernel

/-- With `kcp->output` at `NULL`, `ikcp_flush` fails its assertion. -/
example : ((create 1).bind fun m => m.run false [.call (.nodelay 1 10 2 1) none,
    .call (.send [5] 1) none, .call (.update 0) none]).isNone = true := by decide +kernel

end Memory

end LuaKcp.Ikcp
