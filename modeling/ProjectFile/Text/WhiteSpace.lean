import ProjectFile.Text.Ranges

/-! # White space and trimming

`isWhiteSpace` is the Unicode property White_Space, and `trim` removes the characters with that
property from both ends of a text.

Main statements: a text is its own trimmed form if and only if it has no white space at either
end (`trimChars_eq_self_iff`), and trimming twice is trimming once (`trim_trim`). -/

namespace ProjectFile.Text

/-- The characters with the Unicode property White_Space. -/
def whiteSpace : Ranges :=
  [(0x9, 0xd), (0x20, 0x20), (0x85, 0x85), (0xa0, 0xa0), (0x1680, 0x1680), (0x2000, 0x200a),
   (0x2028, 0x2029), (0x202f, 0x202f), (0x205f, 0x205f), (0x3000, 0x3000)]

/-- Whether a character has the Unicode property White_Space. -/
def isWhiteSpace (c : Char) : Bool :=
  whiteSpace.contains c

/-- The text without the white space at its start. -/
def trimLeft (s : List Char) : List Char :=
  s.dropWhile isWhiteSpace

/-- The text without the white space at its end. -/
def trimRight (s : List Char) : List Char :=
  (trimLeft s.reverse).reverse

/-- The text without the white space at both ends. -/
def trimChars (s : List Char) : List Char :=
  trimRight (trimLeft s)

/-- The string without the white space at both ends. -/
def trim (s : String) : String :=
  String.ofList (trimChars s.toList)

/-- The characters of a trimmed string. -/
@[simp] theorem toList_trim (s : String) : (trim s).toList = trimChars s.toList := by
  simp [trim]

/-! ## What trimming leaves -/

/-- Whether a text starts with no white space. -/
def BareStart (s : List Char) : Prop :=
  ∀ c, s.head? = some c → isWhiteSpace c = false

/-- What is left starts with no white space. -/
theorem bareStart_trimLeft (s : List Char) : BareStart (trimLeft s) := by
  induction s with
  | nil => simp [BareStart, trimLeft]
  | cons c s ih =>
    by_cases h : isWhiteSpace c = true
    · rwa [trimLeft, List.dropWhile_cons_of_pos h]
    · rw [trimLeft, List.dropWhile_cons_of_neg h]
      simpa [BareStart] using h

/-- Where no white space is at the start, none is dropped. -/
theorem trimLeft_of_bareStart {s : List Char} (h : BareStart s) : trimLeft s = s := by
  cases s with
  | nil => rfl
  | cons c s => exact List.dropWhile_cons_of_neg (by simp [h c rfl])

/-- Trimming at the end does not change how a text starts. -/
theorem bareStart_trimRight {s : List Char} (h : BareStart s) : BareStart (trimRight s) := by
  intro c hc
  refine h c ?_
  rw [trimRight, List.head?_reverse] at hc
  -- What is left of the reversed text is its end, so both have the same last character.
  have ending : trimLeft s.reverse <:+ s.reverse := List.dropWhile_suffix isWhiteSpace
  obtain ⟨dropped, eq⟩ := ending
  rw [← List.getLast?_reverse, ← eq, List.getLast?_append, hc]
  rfl

/-- A trimmed text starts with no white space. -/
theorem bareStart_trimChars (s : List Char) : BareStart (trimChars s) :=
  bareStart_trimRight (bareStart_trimLeft s)

/-- A trimmed text ends with no white space. -/
theorem bareStart_reverse_trimChars (s : List Char) : BareStart (trimChars s).reverse := by
  rw [trimChars, trimRight, List.reverse_reverse]
  exact bareStart_trimLeft (trimLeft s).reverse

/-- A text is its own trimmed form if and only if it has no white space at either end. -/
theorem trimChars_eq_self_iff (s : List Char) :
    trimChars s = s ↔ BareStart s ∧ BareStart s.reverse := by
  constructor
  · intro h
    have starts := bareStart_trimChars s
    have ends := bareStart_reverse_trimChars s
    rw [h] at starts ends
    exact ⟨starts, ends⟩
  · intro ⟨starts, ends⟩
    rw [trimChars, trimLeft_of_bareStart starts, trimRight, trimLeft_of_bareStart ends,
      List.reverse_reverse]

/-- Trimming twice is trimming once. -/
theorem trimChars_trimChars (s : List Char) : trimChars (trimChars s) = trimChars s :=
  (trimChars_eq_self_iff _).2 ⟨bareStart_trimChars s, bareStart_reverse_trimChars s⟩

/-- Trimming a string twice is trimming it once. -/
@[simp] theorem trim_trim (s : String) : trim (trim s) = trim s := by
  rw [← String.toList_inj, toList_trim, toList_trim, trimChars_trimChars]

end ProjectFile.Text
