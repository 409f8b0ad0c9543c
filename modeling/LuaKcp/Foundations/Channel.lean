import LuaKcp.Foundations.Machine

/-!
# Channels

What a connection is for, in one direction: a channel hands over what is put into it, in order,
nothing left out in between and nothing twice. An implementation refines the channel as soon as
what it has handed over stays a prefix of what was put in, and both only grow.
-/

namespace LuaKcp

/-- What has been put into a channel, and what has been handed over. -/
@[ext]
structure Channel (α : Type*) where
  sent : List α
  got : List α

/-- A channel takes a value, or hands over the next one. -/
def channelMachine (α : Type*) : Machine (Channel α) (Option α) where
  init := ⟨[], []⟩
  step c
    | some m => some { c with sent := c.sent ++ [m] }
    | none => (c.sent[c.got.length]?).map fun m => { c with got := c.got ++ [m] }

namespace Channel

variable {α : Type*}

/-- **Order and integrity**: what is handed over is a prefix of what was put in. -/
theorem got_in_order {c : Channel α} (h : (channelMachine α).Reaches Machine.anyStep c) :
    c.got <+: c.sent := by
  refine h.invariant (I := fun c => c.got <+: c.sent) (List.prefix_refl []) ?_
  intro c e t hc _ hstep
  cases e with
  | some m =>
    obtain rfl := Option.some.inj hstep
    exact hc.trans (List.prefix_append c.sent [m])
  | none =>
    obtain ⟨m, hm, rfl⟩ := Option.map_eq_some_iff.mp hstep
    obtain ⟨rest, hrest⟩ := hc
    have hnext : rest[0]? = some m := by
      have : (c.got ++ rest)[c.got.length]? = some m := by rw [hrest, hm]
      rwa [List.getElem?_append_right (Nat.le_refl _), Nat.sub_self] at this
    cases rest with
    | nil => simp at hnext
    | cons m' rest =>
      obtain rfl : m' = m := Option.some.inj hnext
      exact ⟨rest, by rw [← hrest, List.append_assoc, List.singleton_append]⟩

theorem path_put (sent got ms : List α) :
    (channelMachine α).Path Machine.anyStep ⟨sent, got⟩ ⟨sent ++ ms, got⟩ := by
  induction ms generalizing sent with
  | nil =>
    rw [List.append_nil]
    exact .refl _
  | cons m ms ih =>
    have hput : (channelMachine α).step ⟨sent, got⟩ (some m) = some ⟨sent ++ [m], got⟩ := rfl
    have := ih (sent ++ [m])
    rw [List.append_assoc, List.singleton_append] at this
    exact (Machine.Path.single trivial hput).trans this

theorem path_take (sent got ms : List α) (h : got ++ ms <+: sent) :
    (channelMachine α).Path Machine.anyStep ⟨sent, got⟩ ⟨sent, got ++ ms⟩ := by
  induction ms generalizing got with
  | nil =>
    rw [List.append_nil]
    exact .refl _
  | cons m ms ih =>
    have htake : (channelMachine α).step ⟨sent, got⟩ none = some ⟨sent, got ++ [m]⟩ := by
      obtain ⟨rest, rfl⟩ := h
      simp [channelMachine]
    have hcons : got ++ m :: ms = got ++ [m] ++ ms := by simp
    rw [hcons] at h ⊢
    exact (Machine.Path.single trivial htake).trans (ih (got ++ [m]) h)

/-- **When an implementation follows a channel**: both sides have grown, and what is handed over is
a prefix of what was put in. -/
theorem path_of_grow {c t : Channel α} (hsent : c.sent <+: t.sent) (hgot : c.got <+: t.got)
    (h : t.got <+: t.sent) : (channelMachine α).Path Machine.anyStep c t := by
  obtain ⟨sent, got⟩ := c
  obtain ⟨sent', got'⟩ := t
  obtain ⟨ms, rfl⟩ := hsent
  obtain ⟨ms', rfl⟩ := hgot
  exact (path_put sent got ms).trans (path_take (sent ++ ms) got ms' h)

end Channel

end LuaKcp
