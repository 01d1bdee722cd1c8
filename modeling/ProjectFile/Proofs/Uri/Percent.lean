import Mathlib.Data.List.Basic
import ProjectFile.Location
import ProjectFile.Proofs.Uri.Ascii

/-!
# Percent-encoding is undone

What is encoded for a part of a URI is decoded as the text that it stands for, as long as each
percent sign in the text is encoded as well.  For local paths that is done before they are read, so
the encoded form of a text (`LocalPath.spell`) stands for that text and for no other.

## Key results

- `LocalPath.decodeBytes_spell`: an encoded text is decoded as its bytes
- `LocalPath.spell_inj`: different texts have different encoded forms
- `LocalPath.isDoubleDot_spell`, `LocalPath.isDrive_spell`: the encoded form of a segment is a dot
  segment, or a drive, exactly if the segment is
- `LocalPath.encode_spell`: encoding leaves an encoded text as it is
-/

namespace ProjectFile

open ProjectFile.Text

/-! ## Bytes of texts -/

namespace Text

/-- The bytes of a text are the bytes of that text and no other. -/
theorem ofBytes?_flatMap (s : List Char) :
    ofBytes? (s.flatMap String.utf8EncodeChar) = some (String.ofList s) := by
  -- The library encodes a whole string at once, so its bytes are compared with those of the
  -- characters.
  have form : (⟨(s.flatMap String.utf8EncodeChar).toArray⟩ : ByteArray) =
      (String.ofList s).toByteArray := by
    rw [String.toByteArray_ofList, List.utf8Encode]
    apply ByteArray.ext
    rw [← Array.toList_inj, List.toList_data_toByteArray]
  rw [ofBytes?, String.fromUTF8?, form, dif_pos (String.ofList s).isValidUTF8]
  rfl

/-- Different texts have different bytes. -/
private theorem flatMap_utf8EncodeChar_inj {s t : List Char}
    (h : s.flatMap String.utf8EncodeChar = t.flatMap String.utf8EncodeChar) : s = t := by
  have same := ofBytes?_flatMap s
  rw [h, ofBytes?_flatMap, Option.some.injEq, String.ofList_inj] at same
  exact same.symm

end Text

/-! ## Decoding -/

namespace Uri

/-- Nothing is decoded as no bytes. -/
theorem decodeBytes_nil : decodeBytes [] = [] := by
  rw [decodeBytes]

/-- A character other than `%` stands for its own bytes. -/
theorem decodeBytes_cons_of_ne {c : Char} (h : c ≠ '%') (rest : List Char) :
    decodeBytes (c :: rest) = String.utf8EncodeChar c ++ decodeBytes rest := by
  rw [decodeBytes]
  rintro high low tail rfl
  exact absurd rfl h

/-- A percent sign with two digits stands for one byte. -/
private theorem decodeBytes_percent {high low : Char} {h l : Nat}
    (isHigh : digitValue? 16 high = some h)
    (isLow : digitValue? 16 low = some l) (rest : List Char) :
    decodeBytes ('%' :: high :: low :: rest) = UInt8.ofNat (h * 16 + l) :: decodeBytes rest := by
  rw [decodeBytes, isHigh, isLow]

/-- A digit that is written is read as its value. -/
private theorem digitValue?_upperHexDigit {n : Nat} (h : n < 16) :
    digitValue? 16 (upperHexDigit n) = some n := by
  have all : ∀ n < 16, digitValue? 16 (upperHexDigit n) = some n := by decide
  exact all n h

/-- An encoded byte is decoded as itself, whatever follows it. -/
private theorem decodeBytes_encodeByte_append (b : UInt8) (rest : List Char) :
    decodeBytes (encodeByte b ++ rest) = b :: decodeBytes rest := by
  have byte : b.toNat < 256 := b.toNat_lt
  have digits : b.toNat / 16 * 16 + b.toNat % 16 = b.toNat := by omega
  rw [encodeByte, List.cons_append, List.cons_append, List.singleton_append,
    decodeBytes_percent (digitValue?_upperHexDigit (by omega))
      (digitValue?_upperHexDigit (by omega)), digits, UInt8.ofNat_toNat]

/-- Encoded bytes are decoded as themselves, one after the other. -/
private theorem decodeBytes_flatMap_encodeByte_append (bytes : List UInt8) (rest : List Char) :
    decodeBytes (bytes.flatMap encodeByte ++ rest) = bytes ++ decodeBytes rest := by
  induction bytes with
  | nil => rfl
  | cons b bytes ih =>
    rw [List.flatMap_cons, List.append_assoc, decodeBytes_encodeByte_append, ih, List.cons_append]

/-- A percent sign is never a part of what is left as it is. -/
private theorem decodeBytes_encodeChar_append (set : EncodeSet) {c : Char} (h : c ≠ '%')
    (rest : List Char) :
    decodeBytes (encodeChar set c ++ rest) = String.utf8EncodeChar c ++ decodeBytes rest := by
  unfold encodeChar
  split
  · exact decodeBytes_cons_of_ne h rest
  · exact decodeBytes_flatMap_encodeByte_append _ rest

end Uri

/-! ## The encoded form of a text -/

namespace LocalPath

/-- The form in which a text stands in the path of a URI. -/
def spell (s : List Char) : List Char :=
  Uri.encode Uri.pathSet (encodePercent s)

/-- The form in which a character stands in the path of a URI. -/
def spellChar (c : Char) : List Char :=
  if c = '%' then "%25".toList else Uri.encodeChar Uri.pathSet c

/-- A text is encoded character by character. -/
private theorem spell_eq_flatMap (s : List Char) : spell s = s.flatMap spellChar := by
  rw [spell, Uri.encode, encodePercent, List.flatMap_assoc]
  refine List.flatMap_congr fun c _ => ?_
  unfold spellChar
  split
  · decide
  · exact List.append_nil _

/-- Nothing is encoded as nothing. -/
@[simp] theorem spell_nil : spell [] = [] := rfl

/-- The first character is encoded on its own. -/
private theorem spell_cons (c : Char) (s : List Char) :
    spell (c :: s) = spellChar c ++ spell s := by
  rw [spell_eq_flatMap, spell_eq_flatMap, List.flatMap_cons]

/-- An encoded character is decoded as its bytes, a percent sign included. -/
private theorem decodeBytes_spellChar_append (c : Char) (rest : List Char) :
    Uri.decodeBytes (spellChar c ++ rest) = String.utf8EncodeChar c ++ Uri.decodeBytes rest := by
  unfold spellChar
  split
  · rename_i percent
    rw [percent]
    -- The digits of `%25` spell 37, the byte of the sign.
    exact Uri.decodeBytes_percent (h := 2) (l := 5) (by decide) (by decide) rest
  · rename_i other
    exact Uri.decodeBytes_encodeChar_append _ other rest

/-- An encoded text is decoded as its bytes, and then what follows it. -/
theorem decodeBytes_spell_append (s rest : List Char) :
    Uri.decodeBytes (spell s ++ rest) =
      s.flatMap String.utf8EncodeChar ++ Uri.decodeBytes rest := by
  induction s with
  | nil => rfl
  | cons c s ih =>
    rw [spell_cons, List.append_assoc, decodeBytes_spellChar_append, ih, List.flatMap_cons,
      List.append_assoc]

/-- An encoded text is decoded as its bytes. -/
theorem decodeBytes_spell (s : List Char) :
    Uri.decodeBytes (spell s) = s.flatMap String.utf8EncodeChar := by
  have all := decodeBytes_spell_append s []
  rwa [List.append_nil, Uri.decodeBytes_nil, List.append_nil] at all

/-- Different texts have different encoded forms. -/
theorem spell_inj {s t : List Char} (h : spell s = spell t) : s = t := by
  have same := congrArg Uri.decodeBytes h
  rw [decodeBytes_spell, decodeBytes_spell] at same
  exact flatMap_utf8EncodeChar_inj same

/-- Only the empty text has an empty form. -/
@[simp] theorem spell_eq_nil_iff {s : List Char} : spell s = [] ↔ s = [] :=
  ⟨fun h => spell_inj (h.trans spell_nil.symm), fun h => h ▸ spell_nil⟩

/-! ### Characters of encoded forms -/

/-- An encoded text is ASCII. -/
theorem isAscii_spell (s : List Char) : IsAscii (spell s) :=
  Uri.isAscii_encode _ _

/-- An encoded byte holds a percent sign and digits. -/
private theorem mem_encodeByte {b : UInt8} {c : Char} (h : c ∈ Uri.encodeByte b) :
    c = '%' ∨ ∃ n < 16, c = Uri.upperHexDigit n := by
  have byte : b.toNat < 256 := b.toNat_lt
  simp only [Uri.encodeByte, List.mem_cons, List.not_mem_nil, or_false] at h
  rcases h with rfl | rfl | rfl
  · exact .inl rfl
  · exact .inr ⟨_, by omega, rfl⟩
  · exact .inr ⟨_, by omega, rfl⟩

/-- A character of an encoded text is one that the text has and that can stand in a path, or it is
    a percent sign or a digit. -/
private theorem mem_spell {s : List Char} {c : Char} (h : c ∈ spell s) :
    (c ∈ s ∧ Uri.pathSet c = false) ∨ c = '%' ∨ ∃ n < 16, c = Uri.upperHexDigit n := by
  rw [spell_eq_flatMap, List.mem_flatMap] at h
  obtain ⟨d, mem, h⟩ := h
  unfold spellChar Uri.encodeChar at h
  split at h
  · right
    -- A percent sign itself is written as `%25`.
    have chars : c = '%' ∨ c = '2' ∨ c = '5' := by simpa using h
    rcases chars with rfl | rfl | rfl
    · exact .inl rfl
    · exact .inr ⟨2, by decide, by decide⟩
    · exact .inr ⟨5, by decide, by decide⟩
  · split at h
    · rename_i plain
      obtain rfl := List.mem_singleton.1 h
      simp only [Bool.and_eq_true, Bool.not_eq_true'] at plain
      exact .inl ⟨mem, plain.2⟩
    · obtain ⟨b, -, h⟩ := List.mem_flatMap.1 h
      exact .inr (mem_encodeByte h)

/-- An encoded text holds nothing that has to be encoded in a path. -/
theorem pathSet_of_mem_spell {s : List Char} {c : Char} (h : c ∈ spell s) :
    Uri.pathSet c = false := by
  rcases mem_spell h with ⟨-, plain⟩ | rfl | ⟨n, small, rfl⟩
  · exact plain
  · decide
  · have all : ∀ n < 16, Uri.pathSet (Uri.upperHexDigit n) = false := by decide
    exact all n small

/-- Encoding leaves an encoded text as it is. -/
theorem encode_spell (s : List Char) : Uri.encode Uri.pathSet (spell s) = spell s := by
  have same : ∀ c ∈ spell s, Uri.encodeChar Uri.pathSet c = [c] := by
    intro c h
    have plain := pathSet_of_mem_spell h
    rw [Uri.encodeChar, if_pos (by simp [isAscii_spell s c h, plain])]
  rw [Uri.encode, List.flatMap_congr same, List.flatMap_singleton']

/-- A character that is no percent sign and no digit is in an encoded text only if it is in the
    text. -/
theorem mem_of_mem_spell {s : List Char} {c : Char} (other : c ≠ '%')
    (noDigit : ∀ n < 16, c ≠ Uri.upperHexDigit n) (h : c ∈ spell s) : c ∈ s := by
  rcases mem_spell h with ⟨mem, -⟩ | rfl | ⟨n, small, rfl⟩
  · exact mem
  · exact absurd rfl other
  · exact absurd rfl (noDigit n small)

/-- An encoded text has no tabs and line breaks. -/
theorem isBreak_of_mem_spell {s : List Char} {c : Char} (h : c ∈ spell s) :
    Uri.isBreak c = false := by
  have plain := pathSet_of_mem_spell h
  by_cases breaks : Uri.isBreak c = true
  · -- Each of the three breaks is one of the characters that a path encodes.
    simp only [Uri.isBreak, Bool.or_eq_true, beq_iff_eq] at breaks
    rcases breaks with (rfl | rfl) | rfl
    · exact absurd plain (by decide)
    · exact absurd plain (by decide)
    · exact absurd plain (by decide)
  · simpa using breaks

/-- Dropping tabs and line breaks leaves an encoded text as it is. -/
theorem dropBreaks_spell (s : List Char) : Uri.dropBreaks (spell s) = spell s := by
  rw [Uri.dropBreaks, List.filter_eq_self]
  intro c h
  simp [isBreak_of_mem_spell h]

end LocalPath

/-! ### Dots and drives -/

namespace Uri

/-- The only characters whose lower case is one of those that dots are written with. -/
private theorem of_toLower {c : Char} (ascii : c.toNat < 0x80) :
    (c.toLower = '.' → c = '.') ∧ (c.toLower = '%' → c = '%') ∧ (c.toLower = '2' → c = '2') ∧
      (c.toLower = 'e' → digitValue? 16 c = some 14) := by
  have all : ∀ n < 0x80, ((Char.ofNat n).toLower = '.' → Char.ofNat n = '.') ∧
      ((Char.ofNat n).toLower = '%' → Char.ofNat n = '%') ∧
      ((Char.ofNat n).toLower = '2' → Char.ofNat n = '2') ∧
      ((Char.ofNat n).toLower = 'e' → digitValue? 16 (Char.ofNat n) = some 14) := by
    decide
  have this := all c.toNat ascii
  rwa [Char.ofNat_toNat] at this

/-- A dot is decoded as one, in each of its forms. -/
private theorem decodeBytes_of_dot {s r : List Char} (ascii : IsAscii s)
    (h : s.map Char.toLower = '.' :: r ∨ s.map Char.toLower = '%' :: '2' :: 'e' :: r) :
    ∃ rest, IsAscii rest ∧ rest.map Char.toLower = r ∧
      decodeBytes s = 0x2e :: decodeBytes rest := by
  rcases h with plain | escaped
  · obtain ⟨dot, rest, rfl, isDot, hrest⟩ := List.map_eq_cons_iff.1 plain
    obtain rfl := (of_toLower (ascii _ (by simp))).1 isDot
    exact ⟨rest, ascii.mono (by simp +contextual), hrest, decodeBytes_cons_of_ne (by decide) rest⟩
  · obtain ⟨percent, digits, rfl, isPercent, hdigits⟩ := List.map_eq_cons_iff.1 escaped
    obtain ⟨two, low, rfl, isTwo, hlow⟩ := List.map_eq_cons_iff.1 hdigits
    obtain ⟨e, rest, rfl, isE, hrest⟩ := List.map_eq_cons_iff.1 hlow
    -- Only the letter of the escape can stand in either case, so its value is what counts.
    obtain rfl := (of_toLower (ascii _ (by simp))).2.1 isPercent
    obtain rfl := (of_toLower (ascii _ (by simp))).2.2.1 isTwo
    have value := (of_toLower (ascii e (by simp))).2.2.2 isE
    exact ⟨rest, ascii.mono (by simp +contextual), hrest,
      decodeBytes_percent (h := 2) (by decide) value rest⟩

/-- What counts as one dot is decoded as a dot. -/
private theorem decodeBytes_of_isSingleDot {s : List Char} (ascii : IsAscii s)
    (h : isSingleDot s = true) : decodeBytes s = [0x2e] := by
  have forms : s.map Char.toLower = '.' :: [] ∨ s.map Char.toLower = '%' :: '2' :: 'e' :: [] := by
    simpa [isSingleDot, ← String.toList_inj] using h
  obtain ⟨rest, -, empty, decoded⟩ := decodeBytes_of_dot ascii forms
  rw [decoded, List.map_eq_nil_iff.1 empty, decodeBytes_nil]

/-- What counts as two dots is decoded as two dots. -/
private theorem decodeBytes_of_isDoubleDot {s : List Char} (ascii : IsAscii s)
    (h : isDoubleDot s = true) : decodeBytes s = [0x2e, 0x2e] := by
  -- There are four spellings: each of the two dots is plain or escaped.
  have forms : ∃ r, (s.map Char.toLower = '.' :: r ∨ s.map Char.toLower = '%' :: '2' :: 'e' :: r) ∧
      (r = '.' :: [] ∨ r = '%' :: '2' :: 'e' :: []) := by
    simp only [isDoubleDot, List.contains_cons, List.contains_nil, Bool.or_false, Bool.or_eq_true,
      beq_iff_eq, ← String.toList_inj, String.toList_ofList] at h
    rcases h with h | h | h | h
    · exact ⟨_, .inl h, .inl rfl⟩
    · exact ⟨_, .inl h, .inr rfl⟩
    · exact ⟨_, .inr h, .inl rfl⟩
    · exact ⟨_, .inr h, .inr rfl⟩
  obtain ⟨r, first, second⟩ := forms
  obtain ⟨rest, asciiRest, hrest, decoded⟩ := decodeBytes_of_dot ascii first
  rw [← hrest] at second
  obtain ⟨nothing, -, empty, decodedRest⟩ := decodeBytes_of_dot asciiRest second
  rw [decoded, decodedRest, List.map_eq_nil_iff.1 empty, decodeBytes_nil]

end Uri

namespace LocalPath

/-- The encoded form of a segment is one dot exactly if the segment is. -/
theorem isSingleDot_spell {s : List Char} : Uri.isSingleDot (spell s) = true ↔ s = ['.'] := by
  constructor
  · intro h
    have bytes := Uri.decodeBytes_of_isSingleDot (isAscii_spell s) h
    rw [decodeBytes_spell] at bytes
    exact flatMap_utf8EncodeChar_inj (bytes.trans (by decide))
  · rintro rfl
    decide

/-- The encoded form of a segment is two dots exactly if the segment is. -/
theorem isDoubleDot_spell {s : List Char} : Uri.isDoubleDot (spell s) = true ↔ s = ['.', '.'] := by
  constructor
  · intro h
    have bytes := Uri.decodeBytes_of_isDoubleDot (isAscii_spell s) h
    rw [decodeBytes_spell] at bytes
    exact flatMap_utf8EncodeChar_inj (bytes.trans (by decide))
  · rintro rfl
    decide

/-- A drive is a letter and a colon or a bar. -/
theorem isDrive_eq {s : List Char} (h : Uri.isDrive s = true) :
    ∃ letter mark, s = [letter, mark] ∧ letter.isAlpha = true ∧ (mark = ':' ∨ mark = '|') := by
  match s with
  | [letter, mark] => exact ⟨letter, mark, rfl, by simpa [Uri.isDrive] using h⟩

/-- A letter stands for itself. -/
private theorem spellChar_of_isAlpha {c : Char} (h : c.isAlpha = true) : spellChar c = [c] := by
  have all : ∀ n < 0x80, (Char.ofNat n).isAlpha = true →
      spellChar (Char.ofNat n) = [Char.ofNat n] := by
    decide
  have this := all c.toNat (Uri.toNat_lt_of_isAlpha h)
  rw [Char.ofNat_toNat] at this
  exact this h

/-- A drive is encoded as it is. -/
theorem spell_of_isDrive {s : List Char} (h : Uri.isDrive s = true) : spell s = s := by
  obtain ⟨letter, mark, rfl, isLetter, isMark⟩ := isDrive_eq h
  have markAsIs : spellChar mark = [mark] := by
    rcases isMark with rfl | rfl <;> decide
  rw [spell_cons, spell_cons, spell_nil, spellChar_of_isAlpha isLetter, markAsIs]
  rfl

/-- The encoded form of a segment is a drive exactly if the segment is. -/
theorem isDrive_spell (s : List Char) : Uri.isDrive (spell s) = Uri.isDrive s := by
  rw [Bool.eq_iff_iff]
  constructor
  · intro h
    have same := spell_inj (spell_of_isDrive h)
    rwa [same] at h
  · intro h
    rwa [spell_of_isDrive h]

end LocalPath

end ProjectFile
