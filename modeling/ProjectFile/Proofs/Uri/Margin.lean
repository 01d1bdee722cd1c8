import ProjectFile.Location
import ProjectFile.Proofs.Text.Trim
import ProjectFile.Proofs.Uri.Ascii

/-!
# White space around a URI

A location is trimmed before it is parsed, and parsing drops the controls and spaces around a
URI.  In an ASCII text the one takes away no more than the other, so trimming the written form of
a parsed URI does not change what it is parsed as.

## Key results

- `Uri.trimMargin_append`: what is dropped anyway can stand around a text
- `Uri.parse_trim`: an ASCII text is parsed as its trimmed form is
- `Uri.ofText_render`: a URI that is parsed from its written form is the location in that form
-/

namespace ProjectFile

open ProjectFile.Text

namespace Uri

/-- Controls and spaces around a text do not change what is left of it. -/
theorem trimMargin_append (before s after : List Char)
    (hb : ∀ c ∈ before, isMargin c = true) (ha : ∀ c ∈ after, isMargin c = true) :
    trimMargin (before ++ (s ++ after)) = trimMargin s := by
  rw [trimMargin, dropWhile_around before s after hb ha, trimMargin]

/-- White space that is ASCII is margin; white space beyond ASCII is not. -/
private theorem isMargin_of_isWhiteSpace {c : Char} (white : isWhiteSpace c = true)
    (ascii : c.toNat < 0x80) : isMargin c = true := by
  have all : ∀ n < 0x80, isWhiteSpace (Char.ofNat n) = true → isMargin (Char.ofNat n) = true := by
    decide
  have := all c.toNat ascii
  rw [Char.ofNat_toNat] at this
  exact this white

end Uri

/-- A text is its trimmed form, with white space around it. -/
private theorem exists_white_around (s : List Char) :
    ∃ before after, s = before ++ (trimChars s ++ after) ∧
      (∀ c ∈ before, isWhiteSpace c = true) ∧ (∀ c ∈ after, isWhiteSpace c = true) := by
  have white : ∀ t : List Char, ∀ c ∈ t.takeWhile isWhiteSpace, isWhiteSpace c = true :=
    fun t c hc => List.all_eq_true.1 List.all_takeWhile c hc
  have parts : ∀ t : List Char, t.takeWhile isWhiteSpace ++ trimLeft t = t :=
    fun t => List.takeWhile_append_dropWhile
  refine ⟨s.takeWhile isWhiteSpace, ((trimLeft s).reverse.takeWhile isWhiteSpace).reverse, ?_,
    white s, fun c hc => white _ c (List.mem_reverse.1 hc)⟩
  rw [trimChars, trimRight, ← List.reverse_append, parts, List.reverse_reverse, parts]

namespace Uri

section

variable [DomainNames]

/-- An ASCII text is parsed as its trimmed form is. -/
theorem parse_trim {text : String} (ascii : IsAscii text.toList) :
    parse (trim text) = parse text := by
  obtain ⟨before, after, split, hb, ha⟩ := exists_white_around text.toList
  -- The white space that is trimmed is ASCII as well, and so it is margin.
  have margins : trimMargin (trim text).toList = trimMargin text.toList := by
    have around := trimMargin_append before (trimChars text.toList) after
      (fun c hc => isMargin_of_isWhiteSpace (hb c hc) (ascii c (by rw [split]; simp [hc])))
      (fun c hc => isMargin_of_isWhiteSpace (ha c hc) (ascii c (by rw [split]; simp [hc])))
    rw [← split] at around
    rw [toList_trim, around]
  -- Parsing looks at nothing but what is left between the margins.
  rw [parse, parse, margins]

/-- White space around a location is no part of it, since it is trimmed anyway. -/
theorem ofText_trim (text : String) : ofText (trim text) = ofText text := by
  rw [ofText, ofText, trim_trim]

/-- A URI that is parsed from its written form is the location that is given in that form. -/
theorem ofText_render {u : Uri} (h : parse u.render = .ok u) : ofText u.render = .ok u := by
  rw [ofText, parse_trim (isAscii_render (ascii_of_parse h)), h]
  rfl

end

/-- White space around a local path is no part of it. -/
theorem ofLocalPath_trim {path : String} {u : Uri} (h : ofLocalPath path = .ok u) :
    ofLocalPath (trim path) = .ok u := by
  unfold ofLocalPath at h ⊢
  -- A second trim takes nothing more away, so both are checked and read alike.
  rw [toList_trim, trimChars_trimChars]
  simp only at h ⊢
  split at h
  · simp at h
  · rename_i nonempty
    rw [if_neg nonempty]
    split at h
    · exact h
    · simp at h

end Uri

end ProjectFile
