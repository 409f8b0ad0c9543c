import LuaKcp.Binding.Lkcp
import LuaKcp.Foundations.Machine
import LuaKcp.Ikcp.Sides

/-!
# Where the datagrams of a process go

All kcp objects of a process send through one variable, `svrsock`, which the first `lkcp_create`
with a socket sets for good. So a datagram leaves on the socket passed for its object exactly when
that is the socket of the first object of the process (`routed_iff`); its address and its
connection id are those of its object.
-/

namespace LuaKcp

open Ikcp

/-- A kcp object of a process; `sock`, `conv` and `given` record what has been passed for it: the
arguments of `lkcp_create`, and the addresses in the order they came. -/
structure Object where
  sock : BitVec 64
  conv : BitVec 64
  given : List Bytes
  kcp : Kcp
  deriving DecidableEq

/-- The static data of `lkcpsn.c` and the objects created so far. -/
structure Process where
  svrsock : BitVec 64
  objects : List Object
  deriving DecidableEq

/-- A call from Lua; objects are named by their place in the order of creation. -/
inductive Call
  | create (sock : BitVec 64) (address : Bytes) (conv : BitVec 64)
  | input (k : ℕ) (data address : Bytes)
  | send (k : ℕ) (data address : Bytes)
  | recv (k : ℕ)
  | update (k : ℕ) (current : ℤ)
  | flush (k : ℕ)
  | wndsize (k : ℕ) (sndwnd rcvwnd : ℤ)
  | nodelay (k : ℕ) (nodelay interval resend nc : ℤ)

/-- A datagram handed to `skynet_socket_udp_sendbuffer`: the object whose callback ran, the `id` of
the send buffer, and the datagram. -/
structure Emitted where
  object : ℕ
  id : ℤ
  datagram : Datagram
  deriving DecidableEq

/-- `buf2.id = svrsock`: a 64-bit socket stored in an `int`. -/
def bufferId (svrsock : BitVec 64) : ℤ := (svrsock.setWidth 32).toInt

namespace Process

/-- The objects share `svrsock`; only the first socket passed is stored. -/
def create (p : Process) (sock : BitVec 64) (address : Bytes) (conv : BitVec 64) : Process where
  svrsock := if sock ≠ 0 ∧ p.svrsock = 0 then sock else p.svrsock
  objects := p.objects ++ [⟨sock, conv, [address], Kcp.lkcpCreate address conv.toInt⟩]

/-- A call on object `k`, which may pass an address and may send datagrams. -/
def onObject (p : Process) (k : ℕ) (given : List Bytes) (f : Kcp → Kcp × List Datagram) :
    Option (Process × List Emitted) :=
  p.objects[k]?.map fun o =>
    let r := f o.kcp
    ({ p with objects := p.objects.set k { o with kcp := r.1, given := o.given ++ given } },
      r.2.map fun d => ⟨k, bufferId p.svrsock, d⟩)

/-- A call and the datagrams it sends. -/
def call (p : Process) : Call → Option (Process × List Emitted)
  | .create sock address conv => some (p.create sock address conv, [])
  | .input k data address => p.onObject k [address] fun o => ((o.lkcpInput data address).2, [])
  | .send k data address => p.onObject k [address] fun o => ((o.lkcpSend data address).2, [])
  | .recv k => p.onObject k [] fun o => (o.lkcpRecv.2, [])
  | .update k current => p.onObject k [] fun o => o.lkcpUpdate current
  | .flush k => p.onObject k [] fun o => o.lkcpFlush
  | .wndsize k sndwnd rcvwnd => p.onObject k [] fun o => (o.lkcpWndsize sndwnd rcvwnd, [])
  | .nodelay k nodelay interval resend nc =>
    p.onObject k [] fun o => (o.lkcpNodelay nodelay interval resend nc, [])

end Process

/-- The process as it loads the library, and its calls. -/
def processMachine : Machine Process Call where
  init := ⟨0, []⟩
  step p c := (p.call c).map Prod.fst

/-- The object that a call is made on. -/
def Call.object : Call → Option ℕ
  | .create _ _ _ => none
  | .input k _ _ | .send k _ _ | .recv k | .update k _ | .flush k | .wndsize k _ _
  | .nodelay k _ _ _ _ => some k

/-- The objects are created with sockets. -/
def Call.hasSocket : Call → Bool
  | .create sock _ _ => sock != 0
  | _ => true

/-- The last address passed that is not empty. -/
def latest (given : List Bytes) : Option Bytes := (given.filter fun a => decide (a ≠ [])).getLast?

/-- The datagram goes where its object was told to send: on the socket of its `lkcp_create`, to
the last address passed, under its connection id. -/
def Routed (o : Object) (d : Emitted) : Prop :=
  d.id = o.sock.toInt ∧ (∀ a, latest o.given = some a → d.datagram.address = a) ∧
    d.datagram.data.take 4 = beBytes 4 o.conv.toNat

/-! ## The invariant -/

/-- What an object remembers of what has been passed for it. -/
structure Object.Remembers (o : Object) : Prop where
  conv : o.kcp.cb.conv = o.conv.setWidth 32
  address : ∀ a, latest o.given = some a → o.kcp.address = a

/-- `svrsock` is the socket of the first object. -/
structure Process.Inv (p : Process) : Prop where
  svrsock : p.svrsock = (p.objects.head?.map Object.sock).getD 0
  nonzero : ∀ o ∈ p.objects, o.sock ≠ 0
  remembers : ∀ o ∈ p.objects, o.Remembers

theorem latest_append_singleton (given : List Bytes) (a : Bytes) :
    latest (given ++ [a]) = if a = [] then latest given else some a := by
  unfold latest
  by_cases h : a = []
  · simp [h]
  · simp [h, List.filter_append]

/-- An object keeps its connection id, and the address of a call is the one it remembers. -/
theorem Object.Remembers.withAddress {o : Object} (h : o.Remembers) {cb : Ikcpcb}
    (hconv : cb.conv = o.kcp.cb.conv) (address : Bytes) :
    ({ o with
      kcp := ({ o.kcp with cb := cb } : Kcp).withAddress address
      given := o.given ++ [address] } : Object).Remembers := by
  refine ⟨?_, fun a ha => ?_⟩
  · rw [Kcp.cb_withAddress]
    exact hconv.trans h.conv
  · simp only [latest_append_singleton] at ha
    simp only [Kcp.address_withAddress]
    split_ifs at ha ⊢
    · exact h.address a ha
    · exact Option.some.inj ha

theorem Object.Remembers.same {o : Object} (h : o.Remembers) {kcp : Kcp}
    (hconv : kcp.cb.conv = o.kcp.cb.conv) (haddress : kcp.address = o.kcp.address) :
    ({ o with kcp := kcp, given := o.given ++ [] } : Object).Remembers := by
  refine ⟨hconv.trans h.conv, fun a ha => ?_⟩
  rw [List.append_nil] at ha
  exact haddress.trans (h.address a ha)

theorem conv_of_params {kcp kcp' : Ikcpcb} (h : kcp'.params = kcp.params) :
    kcp'.conv = kcp.conv := congrArg Ikcpcb.Params.conv h

theorem conv_wndsize (kcp : Ikcpcb) (sndwnd rcvwnd : ℤ) :
    (kcp.wndsize sndwnd rcvwnd).conv = kcp.conv := by
  unfold Ikcpcb.wndsize
  dsimp only
  split_ifs <;> rfl

theorem conv_setNodelay (kcp : Ikcpcb) (nodelay interval resend nc : ℤ) :
    (kcp.setNodelay nodelay interval resend nc).conv = kcp.conv := by
  unfold Ikcpcb.setNodelay
  dsimp only
  split_ifs <;> rfl

/-- What a call on an object does: it changes that object only, to one that remembers what has
been passed, and what it sends carries the data of the object. -/
structure Process.Acts (p : Process) (k : ℕ) (o o' : Object) (p' : Process) (out : List Emitted) :
    Prop where
  state : p' = { p with objects := p.objects.set k o' }
  sock : o'.sock = o.sock
  remembers : o'.Remembers
  sent : ∀ d ∈ out, d.object = k ∧ d.id = bufferId p.svrsock ∧
    (∀ a, latest o'.given = some a → d.datagram.address = a) ∧
      d.datagram.data.take 4 = beBytes 4 o'.conv.toNat

theorem beBytes_setWidth (conv : BitVec 64) :
    beBytes 4 (conv.setWidth 32).toNat = beBytes 4 conv.toNat := by
  have h (c n : ℕ) : leBytes c (n % 256 ^ c) = leBytes c n := by
    induction c generalizing n with
    | zero => rfl
    | succ c ih =>
      have h₁ : UInt8.ofNat (n % 256 ^ (c + 1)) = UInt8.ofNat n := by
        apply UInt8.toNat_inj.mp
        simp only [UInt8.toNat_ofNat']
        exact Nat.mod_mod_of_dvd n (by rw [pow_succ]; exact dvd_mul_left 256 _)
      have h₂ : n % 256 ^ (c + 1) / 256 = n / 256 % 256 ^ c := by
        rw [pow_succ, mul_comm, Nat.mod_mul_right_div_self]
      rw [leBytes, leBytes, h₁, h₂, ih]
  rw [BitVec.toNat_setWidth, beBytes, beBytes]
  exact congrArg List.reverse (h 4 conv.toNat)

/-- One lemma for every call on an object. -/
theorem Process.call_object {p p' : Process} {c : Call} {k : ℕ} {out : List Emitted}
    (hc : c.object = some k) (hp : ∀ o ∈ p.objects, o.Remembers)
    (h : p.call c = some (p', out)) : ∃ o o', p.objects[k]? = some o ∧ p.Acts k o o' p' out := by
  have hobj {given : List Bytes} {f : Kcp → Kcp × List Datagram}
      (h : p.onObject k given f = some (p', out))
      (hrem : ∀ o : Object, o.Remembers →
        ({ o with kcp := (f o.kcp).1, given := o.given ++ given } : Object).Remembers)
      (hout : ∀ o : Object, (f o.kcp).2 = [] ∨
        given = [] ∧ ∃ bufs, (f o.kcp).2 = o.kcp.output bufs) :
      ∃ o o', p.objects[k]? = some o ∧ p.Acts k o o' p' out := by
    obtain ⟨o, ho, he⟩ := Option.map_eq_some_iff.mp h
    simp only [Prod.mk.injEq] at he
    obtain ⟨rfl, rfl⟩ := he
    have hmem := hp o (List.mem_of_getElem? ho)
    refine ⟨o, _, ho, rfl, rfl, hrem o hmem, fun d hd => ?_⟩
    rcases hout o with hnil | ⟨rfl, bufs, hbufs⟩
    · simp [hnil] at hd
    · rw [hbufs] at hd
      simp only [Kcp.output, List.map_map, List.mem_map, Function.comp] at hd
      obtain ⟨buf, -, rfl⟩ := hd
      refine ⟨rfl, rfl, fun a ha => hmem.address a (by simpa using ha), ?_⟩
      rw [take_pack, hmem.conv, beBytes_setWidth]
  cases c with
  | create sock address conv => simp [Call.object] at hc
  | input j data address =>
    obtain rfl : j = k := Option.some.inj hc
    simp only [Process.call] at h
    exact hobj h (fun o ho => ho.withAddress (conv_of_params (o.kcp.cb.params_input data)) address)
      fun o => Or.inl rfl
  | send j data address =>
    obtain rfl : j = k := Option.some.inj hc
    simp only [Process.call] at h
    exact hobj h
      (fun o ho => ho.withAddress (conv_of_params (o.kcp.cb.params_send data _)) address)
      fun o => Or.inl rfl
  | recv j =>
    obtain rfl : j = k := Option.some.inj hc
    simp only [Process.call] at h
    exact hobj h (fun o ho => ho.same (conv_of_params (o.kcp.cb.params_recv _)) rfl)
      fun o => Or.inl rfl
  | update j current =>
    obtain rfl : j = k := Option.some.inj hc
    simp only [Process.call] at h
    exact hobj h (fun o ho => ho.same (conv_of_params (o.kcp.cb.params_update _)) rfl)
      fun o => Or.inr ⟨rfl, _, rfl⟩
  | flush j =>
    obtain rfl : j = k := Option.some.inj hc
    simp only [Process.call] at h
    exact hobj h (fun o ho => ho.same (conv_of_params o.kcp.cb.params_flush) rfl)
      fun o => Or.inr ⟨rfl, _, rfl⟩
  | wndsize j sndwnd rcvwnd =>
    obtain rfl : j = k := Option.some.inj hc
    simp only [Process.call] at h
    exact hobj h (fun o ho => ho.same (conv_wndsize o.kcp.cb _ _) rfl) fun o => Or.inl rfl
  | nodelay j nodelay interval resend nc =>
    obtain rfl : j = k := Option.some.inj hc
    simp only [Process.call] at h
    exact hobj h (fun o ho => ho.same (conv_setNodelay o.kcp.cb _ _ _ _) rfl) fun o => Or.inl rfl

theorem Object.remembers_create (sock : BitVec 64) (address : Bytes) (conv : BitVec 64) :
    (⟨sock, conv, [address], Kcp.lkcpCreate address conv.toInt⟩ : Object).Remembers := by
  refine ⟨?_, fun a ha => ?_⟩
  · change BitVec.ofInt 32 conv.toInt = conv.setWidth 32
    apply BitVec.eq_of_toInt_eq
    rw [BitVec.toInt_ofInt, BitVec.toInt_setWidth, BitVec.toInt_eq_toNat_bmod]
    exact Int.bmod_bmod_of_dvd (by decide)
  · have := latest_append_singleton [] address
    rw [List.nil_append] at this
    simp only [this] at ha
    split_ifs at ha
    · simp [latest] at ha
    · exact Option.some.inj ha

/-- Every call keeps the invariant. -/
theorem Process.Inv.call {p p' : Process} {c : Call} {out : List Emitted} (hp : p.Inv)
    (hc : c.hasSocket) (h : p.call c = some (p', out)) : p'.Inv := by
  cases hobj : c.object with
  | none =>
    cases c with
    | create sock address conv =>
      obtain ⟨rfl, rfl⟩ : p.create sock address conv = p' ∧ [] = out := by
        simpa [Process.call] using h
      have hsock : sock ≠ 0 := by simpa [Call.hasSocket] using hc
      refine ⟨?_, fun o ho => ?_, fun o ho => ?_⟩
      · have hsvr := hp.svrsock
        change (if sock ≠ 0 ∧ p.svrsock = 0 then sock else p.svrsock) =
          ((p.objects ++ [_]).head?.map Object.sock).getD 0
        cases hl : p.objects with
        | nil =>
          rw [hl] at hsvr
          have hsvr : p.svrsock = 0 := hsvr
          rw [if_pos ⟨hsock, hsvr⟩]
          rfl
        | cons o os =>
          rw [hl] at hsvr
          have hne := hp.nonzero o (by simp [hl])
          have hsvr : p.svrsock = o.sock := hsvr
          rw [if_neg fun h => hne (hsvr ▸ h.2)]
          exact hsvr
      · rcases List.mem_append.mp ho with ho | ho
        · exact hp.nonzero o ho
        · obtain rfl := List.mem_singleton.mp ho
          exact hsock
      · rcases List.mem_append.mp ho with ho | ho
        · exact hp.remembers o ho
        · obtain rfl := List.mem_singleton.mp ho
          exact Object.remembers_create sock address conv
    | _ => simp [Call.object] at hobj
  | some k =>
    obtain ⟨o, o', ho, hacts⟩ := Process.call_object hobj hp.remembers h
    have hmem {x : Object} (hx : x ∈ p.objects.set k o') : x ∈ p.objects ∨ x = o' :=
      List.mem_or_eq_of_mem_set hx
    rw [hacts.state]
    refine ⟨?_, fun x hx => ?_, fun x hx => ?_⟩
    · refine hp.svrsock.trans (congrArg (fun s => Option.getD s 0) ?_)
      -- the first object keeps its socket
      cases hl : p.objects with
      | nil => rfl
      | cons x xs =>
        cases k with
        | zero =>
          have hxo : x = o := by simpa [hl] using ho
          rw [List.set_cons_zero, List.head?_cons, List.head?_cons, Option.map_some,
            Option.map_some, hacts.sock, hxo]
        | succ k => rfl
    · rcases hmem hx with hx | rfl
      · exact hp.nonzero x hx
      · rw [hacts.sock]
        exact hp.nonzero o (List.mem_of_getElem? ho)
    · rcases hmem hx with hx | rfl
      · exact hp.remembers x hx
      · exact hacts.remembers

/-- The condition of a run: the objects are created with sockets. -/
def hasSocket (_ : Process) (c : Call) : Prop := c.hasSocket

theorem Process.inv_of_reaches {p : Process} (h : processMachine.Reaches hasSocket p) : p.Inv := by
  refine h.invariant (I := Process.Inv) ⟨rfl, by simp [processMachine], by simp [processMachine]⟩ ?_
  intro p c p' hp hc hstep
  obtain ⟨⟨p₁, out⟩, hcall, rfl⟩ := Option.map_eq_some_iff.mp hstep
  exact hp.call hc hcall

/-! ## Routing -/

/-- **Where datagrams go**: in every run of calls that create objects with sockets, a datagram goes
where its object was told to send exactly when the socket of the first object of the process, cut
to an `int`, is the one passed for that object; and a call on another object changes neither the
object nor the shared socket. -/
theorem routed_iff {p p' : Process} {c : Call} {out : List Emitted}
    (hp : processMachine.Reaches hasSocket p) (hc : c.hasSocket)
    (h : p.call c = some (p', out)) :
    (∀ d ∈ out, ∃ o, p'.objects[d.object]? = some o ∧
      (Routed o d ↔
        p'.objects.head?.map (fun first => bufferId first.sock) = some o.sock.toInt)) ∧
    ∀ k o, p.objects[k]? = some o → c.object ≠ some k →
      p'.objects[k]? = some o ∧ p'.svrsock = p.svrsock := by
  have hinv := Process.inv_of_reaches hp
  have hinv' := hinv.call hc h
  cases hobj : c.object with
  | none =>
    cases c with
    | create sock address conv =>
      obtain ⟨rfl, rfl⟩ : p.create sock address conv = p' ∧ [] = out := by
        simpa [Process.call] using h
      refine ⟨by simp, fun k o ho _ => ⟨?_, ?_⟩⟩
      · obtain ⟨hlt, -⟩ := List.getElem?_eq_some_iff.mp ho
        exact (List.getElem?_append_left hlt).trans ho
      · -- an object exists, so the socket has been stored
        have hne : p.svrsock ≠ 0 := by
          rw [hinv.svrsock]
          cases hl : p.objects with
          | nil => simp [hl] at ho
          | cons x xs => exact hinv.nonzero x (by simp [hl])
        exact if_neg fun h => hne h.2
    | _ => simp [Call.object] at hobj
  | some k =>
    obtain ⟨o, o', ho, hacts⟩ := Process.call_object hobj hinv.remembers h
    obtain ⟨hlt, -⟩ := List.getElem?_eq_some_iff.mp ho
    refine ⟨fun d hd => ?_, fun j x hx hj => ?_⟩
    · obtain ⟨hk, hid, haddress, hconv⟩ := hacts.sent d hd
      have ho' : p'.objects[k]? = some o' := by
        rw [hacts.state]
        exact List.getElem?_set_self hlt
      refine ⟨o', hk ▸ ho', ?_⟩
      -- the shared socket is the one of the first object
      have hsvr : p.svrsock = p'.svrsock := by rw [hacts.state]
      have hsock := hinv'.svrsock
      cases hl : p'.objects with
      | nil => simp [hl] at ho'
      | cons first os =>
        rw [hl] at hsock
        have hsock : p'.svrsock = first.sock := hsock
        rw [List.head?_cons, Option.map_some, Option.some_inj]
        unfold Routed
        rw [hid, hsvr, hsock]
        exact ⟨fun h => h.1, fun h => ⟨h, haddress, hconv⟩⟩
    · rw [hacts.state]
      have hkj : k ≠ j := fun e => hj (by rw [← e])
      exact ⟨(List.getElem?_set_ne hkj).trans hx, rfl⟩

/-- Two objects, created with the sockets 5 and 7, and a message waiting on the second. -/
def twoGateways : List Call :=
  [.create 5 [2, 0, 80, 10, 0, 0, 1] 1, .create 7 [2, 0, 80, 10, 0, 0, 2] 2, .update 1 0,
    .send 1 [42] []]

theorem twoGateways_flush : ∃ p p' out, processMachine.Reaches hasSocket p ∧
    p.call (.flush 1) = some (p', out) ∧
    (out.map fun d => (d.object, d.id)) = [(1, 5)] ∧ (p'.objects[1]?.map Object.sock) = some 7 := by
  have h : ((processMachine.run (fun _ c => c.hasSocket) processMachine.init
      twoGateways).bind fun p =>
      (p.call (.flush 1)).map fun r => (p, r)).any (fun r =>
        decide ((r.2.2.map fun d => (d.object, d.id)) = [(1, 5)] ∧
          (r.2.1.objects[1]?.map Object.sock) = some 7)) = true := by decide +kernel
  obtain ⟨⟨p, p', out⟩, hrun, hout⟩ := Option.any_eq_true _ _ |>.mp h
  obtain ⟨q, hq, hr⟩ := Option.bind_eq_some_iff.mp hrun
  obtain ⟨r, hcall, he⟩ := Option.map_eq_some_iff.mp hr
  simp only [Prod.mk.injEq] at he
  obtain ⟨rfl, rfl, rfl⟩ := he
  exact ⟨q, _, _, Machine.path_of_run (fun _ _ h => h) twoGateways hq, hcall,
    of_decide_eq_true hout⟩

theorem routed_iff_twoGateways : ∃ p p' out, processMachine.Reaches hasSocket p ∧
    p.call (.flush 1) = some (p', out) ∧ out ≠ [] ∧ ∀ d ∈ out, ∃ o,
      p'.objects[d.object]? = some o ∧ (Routed o d ↔
        p'.objects.head?.map (fun first => bufferId first.sock) = some o.sock.toInt) := by
  obtain ⟨p, p', out, hp, hcall, hout, -⟩ := twoGateways_flush
  refine ⟨p, p', out, hp, hcall, ?_, (routed_iff (c := .flush 1) hp rfl hcall).1⟩
  rintro rfl
  simp at hout

/-- The second object sends on the socket of the first. -/
theorem not_routed_twoGateways : ¬ ∀ p p' c out, processMachine.Reaches hasSocket p →
    c.hasSocket → p.call c = some (p', out) →
      ∀ d ∈ out, ∃ o, p'.objects[d.object]? = some o ∧ Routed o d := by
  intro hall
  obtain ⟨p, p', out, hp, hcall, hout, hsock⟩ := twoGateways_flush
  obtain ⟨d, rfl, hd⟩ := List.map_eq_singleton_iff.mp hout
  obtain ⟨o, ho, hrouted⟩ := hall p p' (.flush 1) _ hp rfl hcall d (by simp)
  simp only [Prod.mk.injEq] at hd
  rw [hd.1] at ho
  rw [ho, Option.map_some, Option.some_inj] at hsock
  have := hrouted.1
  rw [hd.2, hsock] at this
  exact absurd this (by decide)

end LuaKcp
