import LuaKcp.Foundations.Bytes

/-!
# Exact codecs for the head of a string

A codec writes values, refusing some of them, and reads one at the head of a string. It is exact:
reading gives a value and the rest of the string exactly when the string is what the value is
written as, followed by that rest. Exact codecs are composed one after the other (`prod`) and into
strings behind their length (`counted`).
-/

namespace LuaKcp

/-- A codec for values of `α` as strings over `β`: `encode` is `none` for a value that it refuses,
`decode` for a string that begins with no value. -/
structure Codec (β α : Type*) where
  encode : α → Option (List β)
  decode : List β → Option (α × List β)
  exact : ∀ t a rest, decode t = some (a, rest) ↔ ∃ p, encode a = some p ∧ t = p ++ rest

namespace Codec

variable {β α γ : Type*} (c : Codec β α) (d : Codec β γ)

/-- **Reading what was written**, with anything behind it. -/
theorem decode_append {a : α} {p : List β} (h : c.encode a = some p) (rest : List β) :
    c.decode (p ++ rest) = some (a, rest) :=
  (c.exact _ a rest).mpr ⟨p, h, rfl⟩

/-- One value after the other. -/
def prod : Codec β (α × γ) where
  encode r := (c.encode r.1).bind fun p => (d.encode r.2).map fun q => p ++ q
  decode t := (c.decode t).bind fun r => (d.decode r.2).map fun r' => ((r.1, r'.1), r'.2)
  exact := by
    rintro t ⟨a, b⟩ rest
    constructor
    · intro h
      obtain ⟨⟨a', mid⟩, hc, hread⟩ := Option.bind_eq_some_iff.mp h
      obtain ⟨⟨b', rest'⟩, hd, hread⟩ := Option.map_eq_some_iff.mp hread
      simp only [Prod.mk.injEq] at hread
      obtain ⟨⟨rfl, rfl⟩, rfl⟩ := hread
      obtain ⟨p, hp, rfl⟩ := (c.exact _ _ _).mp hc
      obtain ⟨q, hq, hmid⟩ := (d.exact _ _ _).mp hd
      refine ⟨p ++ q, by simp [hp, hq], ?_⟩
      rw [List.append_assoc]
      exact congrArg (p ++ ·) hmid
    · rintro ⟨w, hw, rfl⟩
      obtain ⟨p, hp, hw⟩ := Option.bind_eq_some_iff.mp hw
      obtain ⟨q, hq, rfl⟩ := Option.map_eq_some_iff.mp hw
      rw [List.append_assoc, c.decode_append hp, Option.bind_some, d.decode_append hq]
      rfl

/-- A string behind its length. -/
def counted (c : Codec β ℕ) : Codec β (List β) where
  encode s := (c.encode s.length).map fun p => p ++ s
  decode t := (c.decode t).bind fun r =>
    if r.2.length < r.1 then none else some (r.2.take r.1, r.2.drop r.1)
  exact := by
    intro t s rest
    constructor
    · intro h
      obtain ⟨⟨n, body⟩, hc, hbody⟩ := Option.bind_eq_some_iff.mp h
      obtain ⟨p, hp, rfl⟩ := (c.exact _ _ _).mp hc
      split_ifs at hbody with hlt
      simp only [Option.some.injEq, Prod.mk.injEq] at hbody
      obtain ⟨rfl, rfl⟩ := hbody
      have hlen : (body.take n).length = n := List.length_take_of_le (not_lt.mp hlt)
      refine ⟨p ++ body.take n, by rw [hlen, hp, Option.map_some], ?_⟩
      rw [List.append_assoc, List.take_append_drop]
    · rintro ⟨w, hw, rfl⟩
      obtain ⟨p, hp, rfl⟩ := Option.map_eq_some_iff.mp hw
      rw [List.append_assoc, c.decode_append hp, Option.bind_some, if_neg (by simp),
        List.take_left, List.drop_left]

/-- A number as `k` bytes, most significant first. -/
def bigEndian (k : ℕ) : Codec UInt8 ℕ where
  encode n := if n < 256 ^ k then some (beBytes k n) else none
  decode t := if t.length < k then none else some (beValue (t.take k), t.drop k)
  exact := by
    intro t n rest
    constructor
    · intro h
      split_ifs at h with hlt
      simp only [Option.some.injEq, Prod.mk.injEq] at h
      obtain ⟨rfl, rfl⟩ := h
      have hlen : (t.take k).length = k := List.length_take_of_le (not_lt.mp hlt)
      have hval := beValue_lt (t.take k)
      rw [hlen] at hval
      refine ⟨t.take k, ?_, (List.take_append_drop k t).symm⟩
      rw [if_pos hval]
      congr 1
      conv_rhs => rw [← beBytes_beValue (t.take k), hlen]
    · rintro ⟨p, hp, rfl⟩
      split_ifs at hp with hn
      obtain rfl := Option.some.inj hp
      rw [if_neg (by simp), take_beBytes_append, drop_beBytes_append, beValue_beBytes,
        Nat.mod_eq_of_lt hn]

end Codec

end LuaKcp
