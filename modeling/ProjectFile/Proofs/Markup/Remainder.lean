import ProjectFile.Proofs.Markup.Reads

/-!
# What is left where a document breaks off

A fault tells how many bytes are before its end, and what is left behind that is an end of the
document.  So the place can be counted from the end of the document as well, and counted like that
it is the same in documents that differ only before it.

## Key results

- `isSuffix_of_fault`: what a fault leaves is an end of the document
- `fromEnd_endingAt`: counted from the end, a fault is where it is in any document that ends so
-/

namespace ProjectFile.Markup

open ProjectFile.Text

variable {s rest : List Char} {f : Fault}

/-- An end of a text has no more bytes than the text. -/
theorem byteLength_le_of_isSuffix (h : rest <:+ s) : byteLength rest ≤ byteLength s := by
  obtain ⟨front, rfl⟩ := h
  rw [byteLength_append]
  omega

/-! ## Markup -/

/-- What is behind a mark is an end of the text. -/
private theorem isSuffix_of_cutAt {mark before after : List Char} (nonempty : mark ≠ [])
    (h : cutAt mark s = some (before, after)) : after <:+ s :=
  ⟨before ++ mark, by rw [(cutAt_append nonempty h).1, List.append_assoc]⟩

/-- What a broken comment leaves is an end of the text: nothing, or what is behind the mark. -/
private theorem isSuffix_of_commentStep (h : commentStep s = .fault f rest) : rest <:+ s := by
  unfold commentStep at h
  split at h
  · simp only [Step.fault.injEq] at h
    exact h.2 ▸ List.nil_suffix
  · rename_i found
    split at h
    · simp at h
    · simp only [Step.fault.injEq] at h
      exact h.2 ▸ (isSuffix_of_cutAt (by simp) found).trans (List.drop_suffix 1 s)

/-- What a broken CDATA section leaves is an end of the text. -/
private theorem isSuffix_of_dataStep (h : dataStep s = .fault f rest) : rest <:+ s := by
  unfold dataStep at h
  split at h
  · simp only [Step.fault.injEq] at h
    exact h.2 ▸ List.nil_suffix
  · rename_i found
    split at h
    · simp at h
    · simp only [Step.fault.injEq] at h
      exact h.2 ▸ isSuffix_of_cutAt (by simp) found

/-- What a broken declaration leaves is an end of the text. -/
private theorem isSuffix_of_doctypeStep (h : doctypeStep s = .fault f rest) : rest <:+ s := by
  unfold doctypeStep at h
  split at h
  · simp only [Step.fault.injEq] at h
    exact h.2 ▸ List.nil_suffix
  · rename_i before after found
    -- The keyword and the name are looked at only once the end has been found.
    have behind : after <:+ s := by
      rw [(cutBalanced_append found).1]
      exact (List.suffix_cons '>' after).trans (List.suffix_append before _)
    split at h
    · split at h
      · simp only [Step.fault.injEq] at h
        exact h.2 ▸ behind
      · simp at h
    · simp only [Step.fault.injEq] at h
      exact h.2 ▸ behind

/-- What a broken instruction leaves is an end of the text. -/
private theorem isSuffix_of_instructionStep (h : instructionStep s = .fault f rest) :
    rest <:+ s := by
  unfold instructionStep at h
  split at h
  · simp only [Step.fault.injEq] at h
    exact h.2 ▸ List.nil_suffix
  · rename_i before after found
    split at h
    · -- The mark has the question mark that opens the instruction, and `s` is what is behind that.
      rename_i none
      simp only [Step.fault.injEq] at h
      obtain ⟨split, -⟩ := cutAt_append (by simp) found
      obtain rfl : s = '>' :: after := by simpa [none] using split
      exact h.2 ▸ List.suffix_cons '>' after
    · simp at h

/-- A broken end tag leaves nothing. -/
private theorem isSuffix_of_endTagStep (h : endTagStep s = .fault f rest) : rest <:+ s := by
  unfold endTagStep at h
  split at h
  · simp only [Step.fault.injEq] at h
    exact h.2 ▸ List.nil_suffix
  · simp at h

/-- A broken start tag leaves nothing. -/
private theorem isSuffix_of_startTagStep (h : startTagStep s = .fault f rest) : rest <:+ s := by
  unfold startTagStep at h
  split at h
  · simp only [Step.fault.injEq] at h
    exact h.2 ▸ List.nil_suffix
  · simp at h

/-- What broken markup of any kind leaves is an end of what follows its `<`. -/
private theorem isSuffix_of_markupStep (h : markupStep s = .fault f rest) : rest <:+ s := by
  unfold markupStep at h
  -- One case for each kind of markup, by the characters that tell it.
  split at h
  · simp only [Step.fault.injEq] at h
    exact h.2 ▸ List.nil_suffix
  · rename_i inner
    exact (isSuffix_of_commentStep h).trans (List.suffix_append ['!', '-'] inner)
  · rename_i inner
    exact (isSuffix_of_dataStep h).trans (List.suffix_append ['!', '['] inner)
  · exact (isSuffix_of_doctypeStep h).trans (List.suffix_cons '!' _)
  · exact (isSuffix_of_doctypeStep h).trans (List.suffix_cons '!' _)
  · simp only [Step.fault.injEq] at h
    exact h.2 ▸ List.suffix_refl _
  · rename_i inner
    exact (isSuffix_of_instructionStep h).trans (List.suffix_cons '?' inner)
  · rename_i inner
    exact (isSuffix_of_endTagStep h).trans (List.suffix_cons '/' inner)
  · exact isSuffix_of_startTagStep h

/-! ## Documents -/

/-- What a fault leaves is an end of the document. -/
theorem isSuffix_of_fault {opened : List (List Char)} (h : nextEvent opened s = .fault f rest) :
    rest <:+ s := by
  unfold nextEvent at h
  split at h
  · simp at h
  · rename_i fault
    simp only [Move.fault.injEq] at h
    obtain ⟨rfl, rfl⟩ := h
    cases s with
    | nil => simp [nextToken] at fault
    | cons c s =>
      -- A text has no faults.
      by_cases markup : c = '<'
      · subst markup
        exact (isSuffix_of_markupStep fault).trans (List.suffix_cons '<' s)
      · simp [nextToken_text markup] at fault
  · rename_i t behind token
    split at h
    · simp at h
    · -- An end tag that fits nothing is consumed.
      simp only [Move.fault.injEq] at h
      obtain ⟨piece, -, split, -⟩ := exists_piece_of_token token
      exact h.2 ▸ split ▸ List.suffix_append piece behind

/-- The end of a document of `size` bytes, with the place of a fault counted from the end. -/
def Ending.fromEnd (size : Nat) : Ending → Ending
  | .finished => .finished
  | .broken position f => .broken (size - position) f

/-- Counted from the end, a fault is where it is in any document that ends in the same way. -/
theorem fromEnd_endingAt {size size' : Nat} (opened : List (List Char))
    (fits : byteLength s ≤ size) (fits' : byteLength s ≤ size') :
    (endingAt size opened s).fromEnd size = (endingAt size' opened s).fromEnd size' := by
  unfold endingAt
  split
  · rename_i f rest fault
    have length := byteLength_le_of_isSuffix (isSuffix_of_fault fault)
    -- The place of a fault is the length of the document without what is left.
    have back : ∀ n, byteLength s ≤ n → n - (n - byteLength rest) = byteLength rest := by
      intro n large
      omega
    rw [Ending.fromEnd, Ending.fromEnd, back size fits, back size' fits']
  · rfl

end ProjectFile.Markup
