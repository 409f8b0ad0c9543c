import LuaKcp.Foundations.Bytes
import LuaKcp.Foundations.Number

/-!
# Packages

Both ends put a connection id and a length before what a kcp object hands over, and take them off
again: `string.pack(">I4s2", subid, buf)` and `unpack_package`. The handshake messages are texts
with `@` between their fields, taken apart by `split`.
-/

namespace LuaKcp

/-- `string.pack(">I4s2", subid, buf)`, for `subid` and the length of `buf` in range. -/
def pack (subid : ℕ) (buf : Bytes) : Bytes :=
  beBytes 4 subid ++ (beBytes 2 buf.length ++ buf)

/-- `unpack_package`: the connection id and the payload, or `none` for `nil, nil`. -/
def unpackPackage (text : Bytes) : Option (ℕ × Bytes) :=
  if text.length < 6 then none
  else
    let s := beValue ((text.drop 4).take 2)
    if (text.drop 4).length < s + 2 then none
    else some (beValue (text.take 4), ((text.drop 4).drop 2).take s)

theorem take_pack (subid : ℕ) (buf : Bytes) : (pack subid buf).take 4 = beBytes 4 subid := by
  simp [pack]

/-- **Unpacking a package** gives back the connection id and the payload. -/
theorem unpackPackage_pack {subid : ℕ} {buf : Bytes} (h : subid < 2 ^ 32)
    (hbuf : buf.length < 2 ^ 16) : unpackPackage (pack subid buf) = some (subid, buf) := by
  have hs : subid % 256 ^ 4 = subid := Nat.mod_eq_of_lt (by omega)
  have hb : buf.length % 256 ^ 2 = buf.length := Nat.mod_eq_of_lt (by omega)
  unfold unpackPackage
  simp only [pack, drop_beBytes_append, take_beBytes_append, beValue_beBytes, hs, hb,
    List.length_append, length_beBytes, List.take_length]
  rw [if_neg (by omega), if_neg (by omega)]

/-- The connection id unpacked is the one packed, whatever the payload. -/
theorem fst_of_unpackPackage_pack {subid : ℕ} {buf : Bytes} {r : ℕ × Bytes} (h : subid < 2 ^ 32)
    (hr : unpackPackage (pack subid buf) = some r) : r.1 = subid := by
  have hs : subid % 256 ^ 4 = subid := Nat.mod_eq_of_lt (by omega)
  unfold unpackPackage at hr
  dsimp only at hr
  split_ifs at hr
  obtain rfl := Option.some.inj hr
  simp only [take_pack, beValue_beBytes, hs]

/-- `split(str, "@")`: the parts between the separators. -/
def split (separator : UInt8) : Bytes → List Bytes
  | [] => [[]]
  | b :: str =>
    if b = separator then [] :: split separator str
    else match split separator str with
      | [] => [[b]]
      | part :: parts => (b :: part) :: parts

/-- The part before the first separator. -/
theorem split_append_cons {separator : UInt8} {part : Bytes} (h : separator ∉ part) (str : Bytes) :
    split separator (part ++ separator :: str) = part :: split separator str := by
  induction part with
  | nil => simp [split]
  | cons b part ih =>
    obtain ⟨hb, hpart⟩ : separator ≠ b ∧ separator ∉ part := by simpa using h
    rw [List.cons_append, split, if_neg (Ne.symm hb), ih hpart]

/-- The bytes of a literal. -/
def literal (s : String) : Bytes := s.toList.map fun c => UInt8.ofNat c.toNat

end LuaKcp
