import Mathlib.Data.List.TakeWhile
import ProjectFile.Text.WhiteSpace

/-!
# White space that is trimmed

Trimming looks at both ends of a text.  White space there does not count, however much of it there
is, and what is white space all over makes no difference where nothing else stands before it, or
nothing else behind it.

## Key results

- `dropWhile_around`: what is dropped from both ends can stand around a text
- `trim_append_white`: white space at the start or at the end of a text
- `trim_eq_empty_iff`: what is left of a text is empty if the text is white all over
-/

namespace ProjectFile.Text

/-- What is dropped from both ends can stand around a text. -/
theorem dropWhile_around {p : Char → Bool} (before s after : List Char)
    (hb : ∀ c ∈ before, p c = true) (ha : ∀ c ∈ after, p c = true) :
    ((before ++ (s ++ after)).dropWhile p).reverse.dropWhile p =
      (s.dropWhile p).reverse.dropWhile p := by
  have dropAfter : after.dropWhile p = [] := by
    rw [List.dropWhile_eq_nil_iff]
    exact ha
  rw [List.dropWhile_append_of_pos hb, List.dropWhile_append]
  split
  · -- Nothing is left of the text, so what is after it is dropped from the front.
    rename_i empty
    rw [List.isEmpty_iff.1 empty, dropAfter]
  · rw [List.reverse_append, List.dropWhile_append_of_pos]
    intro c hc
    exact ha c (List.mem_reverse.1 hc)

/-- Whether a text is nothing but white space. -/
def IsWhite (s : String) : Prop :=
  ∀ c ∈ s.toList, isWhiteSpace c = true

/-- White space behind white space is white space. -/
private theorem IsWhite.append {s s' : String} (h : IsWhite s) (h' : IsWhite s') :
    IsWhite (s ++ s') := by
  intro c hc
  rw [String.toList_append] at hc
  rcases List.mem_append.1 hc with hc | hc
  · exact h c hc
  · exact h' c hc

/-- A character that is not white is none of white space. -/
theorem IsWhite.ne {s : String} {c d : Char} (h : IsWhite s) (hc : c ∈ s.toList)
    (black : isWhiteSpace d = false) : c ≠ d := by
  rintro rfl
  rw [h c hc] at black
  simp at black

/-- White space around a text does not count. -/
private theorem trim_around {before after : String} (hb : IsWhite before) (ha : IsWhite after)
    (s : String) : trim (before ++ (s ++ after)) = trim s := by
  rw [← String.toList_inj, toList_trim, toList_trim, String.toList_append, String.toList_append]
  exact congrArg List.reverse (dropWhile_around _ _ _ hb ha)

/-- More white space makes no difference at the start or at the end of a text: where only white
    space is before it, or only white space is behind it. -/
theorem trim_append_white {before blank after : String} (white : IsWhite blank)
    (edge : IsWhite before ∨ IsWhite after) :
    trim (before ++ (blank ++ after)) = trim (before ++ after) := by
  have nothing : IsWhite "" := by
    intro c hc
    simp at hc
  rcases edge with start | ending
  · have longer := trim_around (start.append white) nothing after
    have shorter := trim_around start nothing after
    rw [String.append_empty] at longer shorter
    rw [← String.append_assoc, longer, shorter]
  · have longer := trim_around nothing (white.append ending) before
    have shorter := trim_around nothing ending before
    rw [String.empty_append] at longer shorter
    rw [longer, shorter]

/-! ## What is left -/

/-- Trimming only leaves characters out. -/
theorem trimChars_sublist (s : List Char) : (trimChars s).Sublist s := by
  have left : (trimLeft s).Sublist s := List.dropWhile_sublist isWhiteSpace
  have right : (trimLeft (trimLeft s).reverse).Sublist (trimLeft s).reverse :=
    List.dropWhile_sublist isWhiteSpace
  exact ((List.reverse_reverse (trimLeft s)) ▸ right.reverse).trans left

/-- Nothing is left of a text exactly if it is white all over. -/
theorem trim_eq_empty_iff {s : String} : trim s = "" ↔ IsWhite s := by
  rw [← String.toList_inj, toList_trim]
  constructor
  · intro h
    have white : ∀ c ∈ (trimLeft s.toList).reverse, isWhiteSpace c = true :=
      List.dropWhile_eq_nil_iff.1 (List.reverse_eq_nil_iff.1 h)
    -- What is left at the start is not white, and nothing but white space is there.
    have none : trimLeft s.toList = [] := by
      by_contra nonempty
      obtain ⟨c, t, ht⟩ := List.exists_cons_of_ne_nil nonempty
      have bare := bareStart_trimLeft s.toList c (by rw [ht]; rfl)
      rw [white c (by simp [ht])] at bare
      cases bare
    exact List.dropWhile_eq_nil_iff.1 none
  · intro white
    have none : trimLeft s.toList = [] := List.dropWhile_eq_nil_iff.2 white
    rw [trimChars, none]
    rfl

/-- A text whose first character is not white does not start with white space. -/
theorem bareStart_cons {c : Char} (h : isWhiteSpace c = false) (s : List Char) :
    BareStart (c :: s) := by
  intro d hd
  rwa [← Option.some.inj hd]

/-- What stands between the start of a text and some character of it stays, unless the text starts
    with white space or the character is white. -/
theorem exists_trimChars_append {s : List Char} {c : Char} (starts : BareStart (s ++ [c]))
    (black : isWhiteSpace c = false) (t : List Char) :
    ∃ t', trimChars (s ++ c :: t) = s ++ c :: t' := by
  have notWhite : ¬ isWhiteSpace c = true := by simp [black]
  have left : trimLeft (s ++ c :: t) = s ++ c :: t := by
    refine trimLeft_of_bareStart ?_
    cases s with
    | nil => exact starts
    | cons => exact starts
  have reversed : (s ++ c :: t).reverse = t.reverse ++ c :: s.reverse := by simp
  rw [trimChars, left, trimRight, trimLeft, reversed, List.dropWhile_append,
    List.dropWhile_cons_of_neg notWhite]
  split
  · exact ⟨[], by simp⟩
  · exact ⟨(t.reverse.dropWhile isWhiteSpace).reverse, by simp⟩

end ProjectFile.Text
