import LuaKcp.Binding.Package
import LuaKcp.Foundations.Codec
import LuaKcp.Foundations.Text

/-!
# The framing of datagrams

`udp_output` and `pack_output` put a connection id and a length before a payload with
`string.pack(">I4s2", ...)`. The server takes them off with length checks of its own, the older
server of the tests with `string.unpack`. Both accept exactly the strings that begin with what
`string.pack` writes (`unpackPackage_grammar`).
-/

namespace LuaKcp

/-- The format `">I4s2"`: four bytes of a number, and a string behind its length in two bytes. -/
def packageCodec : Codec UInt8 (ℕ × Bytes) := (Codec.bigEndian 4).prod (Codec.bigEndian 2).counted

/-- `string.pack(">I4s2", subid, buf)`: a number that is negative or needs more than four bytes is
refused, and a string whose length needs more than two. -/
def stringPack (subid : ℤ) (buf : Bytes) : Except LuaError Bytes :=
  if subid < 0 ∨ 256 ^ 4 ≤ subid then .error .overflow
  else match packageCodec.encode (subid.toNat, buf) with
    | none => .error .tooLong
    | some p => .ok p

/-- `string.unpack(">I4s2", text)`, without the position behind it. -/
def stringUnpack (text : Bytes) : Except LuaError (ℤ × Bytes) :=
  match packageCodec.decode text with
  | none => .error .tooShort
  | some r => .ok (r.1.1, r.1.2)

/-- `string.unpack(">I4", text, 1, 4)`. -/
def stringUnpackId (text : Bytes) : Except LuaError ℤ :=
  match (Codec.bigEndian 4).decode text with
  | none => .error .tooShort
  | some r => .ok r.1

/-- `mySockServer:unpack_package`; `none` stands for `nil, nil`. -/
def MySockServer.unpackPackage (_text : Bytes) : Except LuaError (Option (ℤ × Bytes)) := do
  let sz := _text.length
  if sz < 6 then return none
  let text := Text.sub _text 5 (-1)
  let sz := text.length
  let high ← operand (Text.byte text 1)
  let low ← operand (Text.byte text 2)
  let s := high * 256 + low
  if sz < s + 2 then return none
  let subid ← stringUnpackId _text
  return some (subid, Text.sub text 3 (2 + s))

/-- `unpack_package` of `mykcpsvr.lua`: its first two results. -/
def Mykcpsvr.unpackPackage (text : Bytes) : Option (ℤ × Bytes) :=
  if text.length < 4 then none
  else match stringUnpack text with
    | .error _ => none
    | .ok r => some r

/-! ## The grammar -/

theorem encode_packageCodec (subid : ℕ) (buf : Bytes) : packageCodec.encode (subid, buf) =
    if subid < 256 ^ 4 ∧ buf.length < 256 ^ 2 then some (pack subid buf) else none := by
  unfold packageCodec Codec.prod Codec.counted Codec.bigEndian
  dsimp only
  by_cases hs : subid < 256 ^ 4
  · by_cases hb : buf.length < 256 ^ 2
    · rw [if_pos hs, if_pos hb, if_pos ⟨hs, hb⟩]
      rfl
    · rw [if_pos hs, if_neg hb, if_neg (not_and_of_not_right _ hb)]
      rfl
  · rw [if_neg hs, if_neg (not_and_of_not_left _ hs)]
    rfl

/-- **What `string.pack` writes**, and for what. -/
theorem stringPack_eq_ok_iff {subid : ℤ} {buf p : Bytes} : stringPack subid buf = .ok p ↔
    0 ≤ subid ∧ subid < 2 ^ 32 ∧ buf.length ≤ 65535 ∧ p = pack subid.toNat buf := by
  unfold stringPack
  rw [encode_packageCodec]
  by_cases hs : subid < 0 ∨ 256 ^ 4 ≤ subid
  · rw [if_pos hs]
    exact iff_of_false (by simp) (by omega)
  · rw [if_neg hs]
    have hs' : subid.toNat < 256 ^ 4 := by omega
    by_cases hb : buf.length < 256 ^ 2
    · rw [if_pos ⟨hs', hb⟩]
      simp only [Except.ok.injEq]
      constructor
      · rintro rfl
        exact ⟨by omega, by omega, by omega, rfl⟩
      · rintro ⟨-, -, -, rfl⟩
        rfl
    · rw [if_neg (not_and_of_not_right _ hb)]
      exact iff_of_false (by simp) (by omega)

/-- `unpackPackage` reads what the format says, and leaves out the rest. -/
theorem fst_decode_packageCodec (text : Bytes) :
    (packageCodec.decode text).map Prod.fst = unpackPackage text := by
  unfold packageCodec Codec.prod Codec.counted Codec.bigEndian unpackPackage
  dsimp only
  by_cases hlen : text.length < 6
  · rw [if_pos hlen]
    by_cases hfour : text.length < 4
    · rw [if_pos hfour]
      rfl
    · rw [if_neg hfour, Option.bind_some, if_pos (by rw [List.length_drop]; omega)]
      rfl
  · rw [if_neg hlen, if_neg (by omega), Option.bind_some,
      if_neg (by rw [List.length_drop]; omega), Option.bind_some, List.drop_drop]
    have hshort : (text.drop 4).length < beValue ((text.drop 4).take 2) + 2 ↔
        (text.drop 6).length < beValue ((text.drop 4).take 2) := by
      rw [List.length_drop, List.length_drop]
      omega
    simp only [hshort]
    split_ifs <;> rfl

/-- **The strings that `unpackPackage` accepts** are those that begin with a package. -/
theorem unpackPackage_eq_some_iff {text : Bytes} {r : ℕ × Bytes} :
    unpackPackage text = some r ↔ ∃ p rest, packageCodec.encode r = some p ∧ text = p ++ rest := by
  rw [← fst_decode_packageCodec, Option.map_eq_some_iff]
  constructor
  · rintro ⟨⟨r', rest⟩, hdec, rfl⟩
    obtain ⟨p, hp, ht⟩ := (packageCodec.exact _ _ _).mp hdec
    exact ⟨p, rest, hp, ht⟩
  · rintro ⟨p, rest, hp, rfl⟩
    exact ⟨(r, rest), packageCodec.decode_append hp rest, rfl⟩

/-- The checks of `unpack_package` never let it read what is not there: it raises no error, and
returns what `unpackPackage` says. -/
theorem MySockServer.unpackPackage_eq (text : Bytes) : MySockServer.unpackPackage text =
    .ok ((LuaKcp.unpackPackage text).map fun r => ((r.1 : ℤ), r.2)) := by
  unfold MySockServer.unpackPackage LuaKcp.unpackPackage
  by_cases hlen : text.length < 6
  · simp only [hlen, if_true]
    rfl
  · have htail : Text.sub text 5 (-1) = text.drop 4 := Text.sub_tail text 4
    obtain ⟨high, low, rest, htext⟩ : ∃ high low rest, text.drop 4 = high :: low :: rest := by
      have hdrop : (text.drop 4).length = text.length - 4 := List.length_drop
      match h : text.drop 4 with
      | [] => simp [h] at hdrop; omega
      | [_] => simp [h] at hdrop; omega
      | high :: low :: rest => exact ⟨high, low, rest, rfl⟩
    -- the length field
    have hs : ((beValue [high, low] : ℕ) : ℤ) = high.toNat * 256 + low.toNat := by
      simp only [beValue, List.reverse_cons, List.reverse_nil, List.nil_append, List.cons_append,
        leValue]
      push_cast
      ring
    have hid : stringUnpackId text = .ok (beValue (text.take 4)) := by
      unfold stringUnpackId Codec.bigEndian
      dsimp only
      rw [if_neg (by omega)]
    have hsub : Text.sub (high :: low :: rest) 3 (2 + ((beValue [high, low] : ℕ) : ℤ)) =
        rest.take (beValue [high, low]) := by
      have hrange := Text.sub_range (high :: low :: rest) 2 (2 + beValue [high, low])
      rw [List.drop_take] at hrange
      push_cast at hrange
      rw [Nat.add_sub_cancel_left] at hrange
      exact hrange
    simp only [hlen, if_false, htail, htext, Text.byte, operand, List.getElem?_cons_zero,
      List.getElem?_cons_succ, Option.map_some, Nat.sub_self, Nat.add_one_sub_one, bind,
      Except.bind, List.take_succ_cons, List.take_zero, List.drop_succ_cons, List.drop_zero, ← hs,
      hsub, hid]
    have hcast : (((high :: low :: rest).length : ℕ) : ℤ) < (beValue [high, low] : ℕ) + 2 ↔
        (high :: low :: rest).length < beValue [high, low] + 2 := by exact_mod_cast Iff.rfl
    simp only [hcast]
    split_ifs <;> rfl

/-- The older server unpacks what the model's function says too. -/
theorem Mykcpsvr.unpackPackage_eq (text : Bytes) : Mykcpsvr.unpackPackage text =
    (LuaKcp.unpackPackage text).map fun r => ((r.1 : ℤ), r.2) := by
  rw [← fst_decode_packageCodec]
  unfold Mykcpsvr.unpackPackage stringUnpack
  by_cases hlen : text.length < 4
  · have hnone : packageCodec.decode text = none := by
      unfold packageCodec Codec.prod Codec.bigEndian
      dsimp only
      rw [if_pos hlen]
      rfl
    rw [if_pos hlen, hnone]
    rfl
  · rw [if_neg hlen]
    cases packageCodec.decode text <;> rfl

/-- **The grammar of datagrams**: `unpack_package` raises no error and returns `(subid, buf)`
exactly for the strings that `string.pack(">I4s2", subid, buf)` begins, `nil, nil` for the others,
and so does the older server of the tests. -/
theorem unpackPackage_grammar (text : Bytes) :
    ∃ r, MySockServer.unpackPackage text = .ok r ∧ Mykcpsvr.unpackPackage text = r ∧
      (∀ subid buf, r = some (subid, buf) ↔
        ∃ p rest, stringPack subid buf = .ok p ∧ text = p ++ rest) ∧
      ∀ subid buf p, stringPack subid buf = .ok p ↔
        0 ≤ subid ∧ subid < 2 ^ 32 ∧ buf.length ≤ 65535 ∧ p = pack subid.toNat buf := by
  refine ⟨_, MySockServer.unpackPackage_eq text, Mykcpsvr.unpackPackage_eq text,
    fun subid buf => ?_, fun subid buf p => stringPack_eq_ok_iff⟩
  constructor
  · intro h
    obtain ⟨⟨n, buf'⟩, hr, heq⟩ := Option.map_eq_some_iff.mp h
    simp only [Prod.mk.injEq] at heq
    obtain ⟨rfl, rfl⟩ := heq
    obtain ⟨p, rest, hp, ht⟩ := unpackPackage_eq_some_iff.mp hr
    rw [encode_packageCodec] at hp
    split_ifs at hp with hfits
    obtain rfl := Option.some.inj hp
    refine ⟨_, rest, stringPack_eq_ok_iff.mpr ⟨by omega, by omega, by omega, ?_⟩, ht⟩
    rw [Int.toNat_natCast]
  · rintro ⟨p, rest, hp, ht⟩
    obtain ⟨hpos, hlt, hbuf, rfl⟩ := stringPack_eq_ok_iff.mp hp
    have hr : LuaKcp.unpackPackage text = some (subid.toNat, buf) :=
      unpackPackage_eq_some_iff.mpr ⟨_, rest, by
        rw [encode_packageCodec, if_pos ⟨by omega, by omega⟩], ht⟩
    rw [hr, Option.map_some, Int.toNat_of_nonneg hpos]

end LuaKcp
