import LuaKcp.Binding.Framing
import LuaKcp.Server.Greeting

/-!
# The texts of a handshake

`split` looks for the separator from an index on, and goes on behind it: the loop ends, with the
parts that the model's `split` names, and joining them gives the text back. A handshake and its
answer, packed like any datagram, are split into the fields that were written, the header of the
package being part of the first one (`texts_read_back`).
-/

namespace LuaKcp

/-! ## Splitting -/

/-- The loop of `split` from index `i` on; `none` when it has not ended after `fuel` rounds. -/
def splitLoop (separator : UInt8) (str : Bytes) : (fuel i : ℕ) → Option (List Bytes)
  | 0, _ => none
  | fuel + 1, i =>
    match Text.find str separator i with
    | none => some [Text.sub str i str.length]
    | some k => (splitLoop separator str fuel (k + 1)).map (Text.sub str i (k - 1) :: ·)

/-- The parts are those of the library's `splitOn`. -/
theorem split_eq_splitOn (separator : UInt8) (str : Bytes) :
    split separator str = str.splitOn separator := by
  induction str with
  | nil => rw [split, List.splitOn_nil]
  | cons b str ih =>
    have hcons := List.splitOnP_cons_eq_if_modifyHead (p := (· == separator)) b str
    rw [← List.splitOn_eq_splitOnP, ← List.splitOn_eq_splitOnP, ← ih] at hcons
    rw [hcons, split]
    by_cases hb : b = separator
    · simp [hb]
    · simp only [hb, if_false, beq_iff_eq]
      cases h : split separator str with
      | nil => exact absurd (ih.symm.trans h) (List.splitOn_ne_nil _ _)
      | cons part parts => rfl

/-- A text without the separator is one part. -/
theorem split_of_not_mem {separator : UInt8} {str : Bytes} (h : separator ∉ str) :
    split separator str = [str] := by
  rw [split_eq_splitOn, List.splitOn_eq_singleton h]

/-- **The loop ends**, after at most as many rounds as there are positions left, and has the parts
of the rest of the text. -/
theorem splitLoop_eq (separator : UInt8) (str : Bytes) {fuel i : ℕ} (hi : i ≤ str.length)
    (hfuel : str.length < fuel + i) :
    splitLoop separator str fuel (i + 1) = some (split separator (str.drop i)) := by
  induction fuel generalizing i with
  | zero => omega
  | succ fuel ih =>
    unfold splitLoop
    cases hfind : Text.find str separator (i + 1) with
    | none =>
      have htail : Text.sub str ((i : ℤ) + 1) str.length = str.drop i := by
        rw [Text.sub_range, List.take_length]
      dsimp only
      rw [split_of_not_mem (Text.not_mem_of_find str hi hfind)]
      push_cast
      rw [htail]
    | some k =>
      obtain ⟨hik, hk, hpart, hdrop⟩ := Text.append_of_find str hfind
      dsimp only
      rw [ih hk (by omega), hdrop, split_append_cons hpart]
      push_cast
      rfl

/-! ## The two texts -/

/-- `string.format("B@%d@%d@E", uid, time)`. -/
def handshakeText (uid time : LuaNumber) : Option Bytes :=
  (formatD uid).bind fun uid => (formatD time).map fun time =>
    literal "B@" ++ uid ++ literal "@" ++ time ++ literal "@E"

/-- `string.format("B@%d@%d@OKK@E", subid, time)`. -/
def replyText (subid time : LuaNumber) : Option Bytes :=
  (formatD subid).bind fun subid => (formatD time).map fun time =>
    literal "B@" ++ subid ++ literal "@" ++ time ++ literal "@OKK@E"

/-- `split(str, "@")`, from the first index on. -/
def splitText (str : Bytes) : Option (List Bytes) := splitLoop 64 str (str.length + 1) 1

/-- What both sides read in a message: its second and third field as numbers, and its fourth. -/
def fieldsOf (msg : Bytes) : Option (Option LuaNumber × Option LuaNumber × Option Bytes) :=
  (splitText msg).map fun arr => ((arr[1]?).bind tonumber, (arr[2]?).bind tonumber, arr[3]?)

/-- `string.pack(">I4s2", 0, text)`. -/
def packText (text : Bytes) : Option Bytes := (stringPack 0 text).toOption

theorem splitText_eq (str : Bytes) : splitText str = some (split 64 str) :=
  splitLoop_eq 64 str (Nat.zero_le _) (by omega)

theorem packText_eq {text : Bytes} (h : text.length ≤ 65535) :
    packText text = some (pack 0 text) := by
  have hpack : stringPack 0 text = .ok (pack 0 text) :=
    stringPack_eq_ok_iff.mpr ⟨le_rfl, by norm_num, h, rfl⟩
  rw [packText, hpack]
  rfl

theorem length_le_of_pack {text : Bytes} (h : (pack 0 text).length ≤ 1376) :
    text.length ≤ 65535 := by
  simp only [pack, List.length_append, length_beBytes] at h
  omega

/-- The message of a handshake. -/
theorem message_handshakeText {uid time : ℕ} (hu : uid < 2 ^ 63) (ht : time < 2 ^ 63) :
    (handshakeText (.ofInt uid) (.ofInt time)).bind packText =
      some (handshakePackage uid time) := by
  unfold handshakeText
  rw [formatD_natCast hu, formatD_natCast ht, Option.bind_some, Option.map_some, Option.bind_some]
  exact packText_eq (length_le_of_pack (length_handshakePackage_le hu ht))

/-- The message of an answer. -/
theorem message_replyText {subid time : ℕ} (hs : subid < 2 ^ 32) (ht : time < 2 ^ 63) :
    (replyText (.ofInt subid) (.ofInt time)).bind packText =
      some (replyPackage subid (natDigits time)) := by
  unfold replyText
  rw [formatD_natCast (hs.trans (by norm_num)), formatD_natCast ht, Option.bind_some,
    Option.map_some, Option.bind_some]
  exact packText_eq (length_le_of_pack (length_replyPackage_le hs ht))

/-- **The texts of a handshake are read back**: `split` ends and joining its parts gives the text;
the message of a handshake is read as its uid and time, that of an answer as its connection id, its
time and `OKK`. -/
theorem texts_read_back :
    (∀ str, ∃ arr, splitText str = some arr ∧ [64].intercalate arr = str) ∧
    (∀ uid time : ℕ, 0 < uid → uid < 2 ^ 63 → 0 < time → time < 2 ^ 63 →
      ((handshakeText (.ofInt uid) (.ofInt time)).bind packText).bind fieldsOf =
        some (some (.ofInt uid), some (.ofInt time), some (literal "E"))) ∧
    ∀ subid time : ℕ, 1 ≤ subid → subid ≤ 4294967294 → 0 < time → time < 2 ^ 63 →
      ((replyText (.ofInt subid) (.ofInt time)).bind packText).bind fieldsOf =
        some (some (.ofInt subid), some (.ofInt time), some (literal "OKK")) := by
  refine ⟨fun str => ⟨_, splitText_eq str, ?_⟩, fun uid time _ hu _ ht => ?_,
    fun subid time _ hs _ ht => ?_⟩
  · rw [split_eq_splitOn]
    exact List.intercalate_splitOn 64
  · obtain ⟨head, hsplit⟩ := split_handshakePackage hu ht
    rw [message_handshakeText hu ht, Option.bind_some, fieldsOf, splitText_eq, hsplit]
    simp [tonumber_natDigits hu, tonumber_natDigits ht]
  · have hs32 : subid < 2 ^ 32 := by omega
    have hs63 : subid < 2 ^ 63 := by omega
    obtain ⟨head, hsplit⟩ := split_replyPackage hs32 ht
    rw [message_replyText hs32 ht, Option.bind_some, fieldsOf, splitText_eq, hsplit]
    simp [tonumber_natDigits hs63, tonumber_natDigits ht]

/-- Uid 7 at time 1, and the answer with connection id 1. -/
theorem texts_read_back_first :
    ((handshakeText (.ofInt 7) (.ofInt 1)).bind packText).bind fieldsOf =
        some (some (.ofInt 7), some (.ofInt 1), some (literal "E")) ∧
      ((replyText (.ofInt 1) (.ofInt 1)).bind packText).bind fieldsOf =
        some (some (.ofInt 1), some (.ofInt 1), some (literal "OKK")) :=
  ⟨texts_read_back.2.1 7 1 (by norm_num) (by norm_num) (by norm_num) (by norm_num),
    texts_read_back.2.2 1 1 (by norm_num) (by norm_num) (by norm_num) (by norm_num)⟩

end LuaKcp
