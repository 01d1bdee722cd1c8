import ProjectFile.Markup.Reference

/-!
# Escaped texts

A text that is escaped stands in a document as it is: it has no markup in it, and its references
resolve to the text again.

A text can be cut in two wherever it is not inside of a reference: then each part resolves on its
own.

## Key results

- `ne_open_of_mem_escape`: an escaped text has no markup
- `exists_reference_of_suffix_escape`: each `&` of an escaped text starts a predefined reference
- `resolve_escape`: an escaped text resolves to the text
- `resolve_of_plain`: a text without `&` resolves to itself
- `resolve_append_eq_ok_iff`: what a text in two parts resolves to
-/

namespace ProjectFile.Markup

open ProjectFile.Text

/-- A character is written as it is, or as a reference to it. -/
private theorem escapeChar_cases (c : Char) :
    (escapeChar c = [c] ∧ c ≠ '<' ∧ c ≠ '&') ∨
      ∃ name, escapeChar c = '&' :: (name ++ [';']) ∧ predefined? name = some c ∧
        name.all Char.isAlpha = true := by
  -- The five characters in the order in which they are looked for, and then all others.
  unfold escapeChar
  split
  · rename_i eq
    exact .inr ⟨"lt".toList, rfl, eq ▸ by decide, by decide⟩
  · rename_i notOpen
    split
    · rename_i eq
      exact .inr ⟨"gt".toList, rfl, eq ▸ by decide, by decide⟩
    · split
      · rename_i eq
        exact .inr ⟨"amp".toList, rfl, eq ▸ by decide, by decide⟩
      · rename_i notReference
        split
        · rename_i eq
          exact .inr ⟨"apos".toList, rfl, eq ▸ by decide, by decide⟩
        · split
          · rename_i eq
            exact .inr ⟨"quot".toList, rfl, eq ▸ by decide, by decide⟩
          · exact .inl ⟨rfl, notOpen, notReference⟩

/-- An escaped text has no markup. -/
theorem ne_open_of_mem_escape {s : List Char} {d : Char} (h : d ∈ escape s) : d ≠ '<' := by
  obtain ⟨c, -, h⟩ := List.mem_flatMap.1 h
  obtain ⟨plain, notOpen, -⟩ | ⟨name, written, -, letters⟩ := escapeChar_cases c
  · rw [plain, List.mem_singleton] at h
    exact h ▸ notOpen
  · rw [written] at h
    rintro rfl
    have inside : '<' ∈ name := by simpa using h
    have := List.all_eq_true.1 letters '<' inside
    simp at this

/-- The names of the predefined references. -/
def referenceNames : List String :=
  ["lt", "gt", "amp", "apos", "quot"]

/-- A reference that is predefined has one of the five names. -/
private theorem exists_mem_referenceNames {name : List Char} {c : Char}
    (h : predefined? name = some c) : ∃ reference ∈ referenceNames, reference.toList = name := by
  unfold predefined? at h
  simp only [referenceNames, List.mem_cons, List.not_mem_nil, or_false, exists_eq_or_imp,
    exists_eq_left]
  grind

/-- An end that starts with a character is an end of what is behind the last place where the
    character may be. -/
private theorem suffix_of_append {front back after : List Char} {c : Char}
    (h : c :: after <:+ front ++ back) (absent : c ∉ front) : c :: after <:+ back := by
  induction front with
  | nil => exact h
  | cons d front ih =>
    rw [List.mem_cons, not_or] at absent
    rcases List.suffix_cons_iff.1 h with eq | h
    · exact absurd (List.cons.inj eq).1 absent.1
    · exact ih h absent.2

/-- In an escaped text, each `&` starts a predefined reference. -/
theorem exists_reference_of_suffix_escape {s after : List Char} (h : '&' :: after <:+ escape s) :
    ∃ reference ∈ referenceNames, (reference ++ ";").toList <+: after := by
  induction s with
  | nil => simp at h
  | cons c s ih =>
    rw [escape_cons] at h
    obtain ⟨plain, -, notReference⟩ | ⟨name, written, known, letters⟩ := escapeChar_cases c
    · -- A character that stands for itself is no `&`, so the suffix starts behind it.
      rw [plain] at h
      exact ih (suffix_of_append h (by simpa using notReference.symm))
    · rw [written, List.cons_append] at h
      rcases List.suffix_cons_iff.1 h with eq | h
      · obtain ⟨reference, mem, rfl⟩ := exists_mem_referenceNames known
        refine ⟨reference, mem, ?_⟩
        rw [(List.cons.inj eq).2, String.toList_append]
        exact List.prefix_append _ _
      · -- No `&` is in a reference behind its first character.
        refine ih (suffix_of_append h fun mem => ?_)
        rcases List.mem_append.1 mem with mem | mem
        · simpa using List.all_eq_true.1 letters '&' mem
        · simp at mem

/-- Escaping leaves line breaks as they are. -/
theorem count_escape {d : Char} (h : d = '\n' ∨ d = '\r') (s : List Char) :
    (escape s).count d = s.count d := by
  have noLetter : d.isAlpha = false := by rcases h with rfl | rfl <;> rfl
  have noMark : d ≠ '&' ∧ d ≠ ';' := by rcases h with rfl | rfl <;> decide
  have plainSelf : escapeChar d = [d] := by rcases h with rfl | rfl <;> rfl
  induction s with
  | nil => rfl
  | cons c s ih =>
    rw [escape_cons, List.count_append, ih, List.count_cons]
    obtain ⟨plain, -, -⟩ | ⟨name, written, -, letters⟩ := escapeChar_cases c
    · rw [plain, List.count_singleton, Nat.add_comm]
    · -- Neither line break is written in a reference, nor does one need it.
      have absent : d ∉ escapeChar c := by
        rw [written]
        intro mem
        rcases List.mem_cons.1 mem with rfl | mem
        · exact noMark.1 rfl
        · rcases List.mem_append.1 mem with mem | mem
          · rw [List.all_eq_true.1 letters d mem] at noLetter
            simp at noLetter
          · exact noMark.2 (List.mem_singleton.1 mem)
      have other : c ≠ d := by
        rintro rfl
        exact absent (by simp [plainSelf])
      rw [List.count_eq_zero.2 absent, if_neg (by simpa using other), Nat.zero_add, Nat.add_zero]

/-- A character other than `&` resolves to itself. -/
private theorem resolveFrom_cons {c : Char} (h : c ≠ '&') (size offset : Nat) (s : List Char) :
    resolveFrom size offset (c :: s) =
      (resolveFrom size (offset + c.utf8Size) s).map (c :: ·) := by
  rw [resolveFrom, if_neg h]

/-- A letter does not end a reference. -/
private theorem inReference_of_isAlpha {c : Char} (h : c.isAlpha = true) :
    inReference c = true := by
  have reference : c ≠ '&' := by
    rintro rfl
    simp at h
  have close : c ≠ ';' := by
    rintro rfl
    simp at h
  simp [inReference, reference, close]

/-- A reference resolves to the character that it stands for. -/
private theorem resolveFrom_body {body : List Char} {c : Char} {size offset : Nat}
    (inside : ∀ d ∈ body, inReference d = true)
    (read : readReference (offset + 1) body = .ok c) (s : List Char) :
    resolveFrom size offset ('&' :: (body ++ ';' :: s)) =
      (resolveFrom size (offset + byteLength body + 2) s).map (c :: ·) := by
  -- The body is all that is in front of the first `;`.
  have front : (body ++ ';' :: s).takeWhile inReference = body := by
    rw [List.takeWhile_append_of_pos inside]
    simp [inReference]
  have after : (body ++ ';' :: s).dropWhile inReference = ';' :: s := by
    rw [List.dropWhile_append_of_pos inside]
    simp [inReference]
  rw [resolveFrom, if_pos rfl]
  split
  · rename_i s' eq
    rw [after, List.cons.injEq] at eq
    simp only [front, read, ← eq.2]
  · rename_i stops
    exact absurd after (stops s)

/-- A predefined reference resolves to its character. -/
private theorem resolveFrom_reference {name : List Char} {c : Char}
    (known : predefined? name = some c)
    (letters : name.all Char.isAlpha = true) (size offset : Nat) (s : List Char) :
    resolveFrom size offset ('&' :: (name ++ ';' :: s)) =
      (resolveFrom size (offset + byteLength name + 2) s).map (c :: ·) := by
  have inside : ∀ d ∈ name, inReference d = true := fun d hd =>
    inReference_of_isAlpha (List.all_eq_true.1 letters d hd)
  -- A name that starts with a letter is looked up; only one that starts with `#` is a number.
  have read : readReference (offset + 1) name = .ok c := by
    unfold readReference
    split
    · simp at letters
    · rw [known]
  exact resolveFrom_body inside read s

/-- An escaped text resolves to the text. -/
theorem resolve_escape (s : List Char) : resolve (escape s) = .ok s := by
  -- The positions only go into faults, and change with every character.
  have at_any : ∀ size offset, resolveFrom size offset (escape s) = .ok s := by
    induction s with
    | nil =>
      intro size offset
      rw [escape_nil, resolveFrom]
    | cons c s ih =>
      intro size offset
      rw [escape_cons]
      obtain ⟨plain, -, notReference⟩ | ⟨name, written, known, letters⟩ := escapeChar_cases c
      · rw [plain, List.singleton_append, resolveFrom_cons notReference, ih]
        rfl
      · rw [written, List.cons_append, List.append_assoc, List.singleton_append,
          resolveFrom_reference known letters, ih]
        rfl
  exact at_any _ _

/-- A text without `&` resolves to itself. -/
theorem resolve_of_plain {s : List Char} (h : ∀ c ∈ s, c ≠ '&') : resolve s = .ok s := by
  have at_any : ∀ size offset, resolveFrom size offset s = .ok s := by
    induction s with
    | nil =>
      intro size offset
      rw [resolveFrom]
    | cons c s ih =>
      intro size offset
      rw [resolveFrom_cons (h c (by simp)), ih fun d hd => h d (by simp [hd])]
      rfl
  exact at_any _ _

/-! ## Texts in two parts -/

/-- What a text resolves to, wherever it stands. -/
inductive Resolves : List Char → List Char → Prop
  | nil : Resolves [] []
  | plain {c : Char} {s text : List Char} (notReference : c ≠ '&') (rest : Resolves s text) :
      Resolves (c :: s) (c :: text)
  | reference {body s text : List Char} {c : Char} (inside : ∀ d ∈ body, inReference d = true)
      (read : readReference 0 body = .ok c) (rest : Resolves s text) :
      Resolves ('&' :: (body ++ ';' :: s)) (c :: text)

/-- Where a reference stands makes no difference to the character that it stands for. -/
private theorem readReference_eq_ok_iff {start : Nat} {body : List Char} {c : Char} :
    readReference start body = .ok c ↔ readReference 0 body = .ok c := by
  unfold readReference
  split
  · rfl
  · split
    · rfl
    · simp

/-- A first character is put in front of what the rest resolves to, if that resolves. -/
private theorem map_cons_eq_ok_iff {c : Char} {result : Except ReferenceFault (List Char)}
    {text : List Char} :
    result.map (c :: ·) = .ok text ↔ ∃ later, result = .ok later ∧ c :: later = text := by
  cases result with
  | error fault => simp [Except.map]
  | ok later => simp [Except.map]

/-- What a text resolves to does not depend on the places that its faults would tell. -/
private theorem resolves_of_resolveFrom {size offset : Nat} {s text : List Char}
    (h : resolveFrom size offset s = .ok text) : Resolves s text := by
  -- The cases are those of the function: the end, a reference that fails or is read, one that is
  -- not closed, and any other character.
  fun_induction resolveFrom size offset s generalizing text with
  | case1 =>
    cases h
    exact .nil
  | case2 => simp at h
  | case3 offset rest body after found d read =>
    rename_i ih
    obtain ⟨later, tail, rfl⟩ := map_cons_eq_ok_iff.1 h
    have split : rest = body ++ ';' :: after := by
      rw [← found, List.takeWhile_append_dropWhile]
    rw [split]
    exact .reference (fun d hd => List.all_eq_true.1 List.all_takeWhile d hd)
      (readReference_eq_ok_iff.1 read) (ih tail)
  | case4 => simp at h
  | case5 offset c rest notReference ih =>
    obtain ⟨later, tail, rfl⟩ := map_cons_eq_ok_iff.1 h
    exact .plain notReference (ih tail)

/-- What a text resolves to it resolves to wherever it stands. -/
private theorem resolveFrom_of_resolves {s text : List Char} (h : Resolves s text)
    (size offset : Nat) : resolveFrom size offset s = .ok text := by
  induction h generalizing offset with
  | nil => rw [resolveFrom]
  | plain notReference _ ih =>
    rw [resolveFrom_cons notReference, ih]
    rfl
  | reference inside read _ ih =>
    rw [resolveFrom_body inside (readReference_eq_ok_iff.2 read), ih]
    rfl

/-- What a text resolves to is given character by character. -/
theorem resolve_eq_ok_iff {s text : List Char} : resolve s = .ok text ↔ Resolves s text :=
  ⟨resolves_of_resolveFrom, fun h => resolveFrom_of_resolves h _ _⟩

/-- Whether a text does not end inside of a reference: each `&` has a `;` behind it. -/
def EndsOutside (s : List Char) : Prop :=
  ∀ before after, s = before ++ '&' :: after → ';' ∈ after

/-- The end of a text ends as the text does. -/
private theorem EndsOutside.of_append {front s : List Char} (h : EndsOutside (front ++ s)) :
    EndsOutside s :=
  fun before after split => h (front ++ before) after (by rw [split, List.append_assoc])

/-- A text without `&` does not end inside of a reference. -/
theorem endsOutside_of_plain {s : List Char} (h : ∀ c ∈ s, c ≠ '&') : EndsOutside s :=
  fun _ _ split => absurd rfl (h '&' (by simp [split]))

/-- Two texts that resolve do so one behind the other. -/
private theorem Resolves.append {s s' text text' : List Char} (h : Resolves s text)
    (h' : Resolves s' text') : Resolves (s ++ s') (text ++ text') := by
  induction h with
  | nil => exact h'
  | plain notReference _ ih => exact .plain notReference ih
  | reference inside read _ ih =>
    rw [List.cons_append, List.append_assoc, List.cons_append]
    exact .reference inside read ih

/-- A text that ends outside of a reference is cut off what is behind it. -/
private theorem Resolves.split {s s' text : List Char} (h : Resolves (s ++ s') text)
    (outside : EndsOutside s) :
    ∃ front back, Resolves s front ∧ Resolves s' back ∧ text = front ++ back := by
  -- The induction follows what the whole text resolves to; `s` shrinks with it.
  generalize whole : s ++ s' = raw at h
  induction h generalizing s with
  | nil =>
    obtain ⟨rfl, rfl⟩ := List.append_eq_nil_iff.1 whole
    exact ⟨[], [], .nil, .nil, rfl⟩
  | @plain c raw text notReference rest ih =>
    cases s with
    | nil =>
      subst whole
      exact ⟨[], c :: text, .nil, .plain notReference rest, rfl⟩
    | cons d s =>
      simp only [List.cons_append, List.cons.injEq] at whole
      obtain ⟨rfl, whole⟩ := whole
      have behind : EndsOutside ([d] ++ s) := outside
      obtain ⟨front, back, first, later, rfl⟩ := ih behind.of_append whole
      exact ⟨d :: front, back, .plain notReference first, later, rfl⟩
  | @reference body raw text c inside read rest ih =>
    cases s with
    | nil =>
      subst whole
      exact ⟨[], c :: text, .nil, .reference inside read rest, rfl⟩
    | cons d s =>
      simp only [List.cons_append, List.cons.injEq] at whole
      obtain ⟨rfl, whole⟩ := whole
      -- The `;` that the reference has behind it is not in its body, so all of it is in front.
      have close : ';' ∈ s := outside [] s rfl
      obtain ⟨s, rfl⟩ : ∃ more, s = body ++ ';' :: more := by
        rcases List.append_eq_append_iff.1 whole with ⟨tail, eq, -⟩ | ⟨tail, eq, eq'⟩
        · have := inside ';' (by simp [eq, close])
          simp [inReference] at this
        · cases tail with
          | nil =>
            rw [List.append_nil] at eq
            have := inside ';' (eq ▸ close)
            simp [inReference] at this
          | cons e tail =>
            simp only [List.cons_append, List.cons.injEq] at eq'
            exact ⟨tail, by rw [eq, ← eq'.1]⟩
      simp only [List.append_assoc, List.cons_append, List.append_cancel_left_eq,
        List.cons.injEq, true_and] at whole
      have behind : EndsOutside ('&' :: (body ++ [';']) ++ s) := by simpa using outside
      obtain ⟨front, back, first, later, rfl⟩ := ih behind.of_append whole
      exact ⟨c :: front, back, .reference inside read first, later, rfl⟩

/-- No text that resolves ends inside of a reference. -/
theorem Resolves.endsOutside {s text : List Char} (h : Resolves s text) : EndsOutside s := by
  induction h with
  | nil => exact endsOutside_of_plain (by simp)
  | plain notReference _ ih =>
    intro before after split
    cases before with
    | nil => exact absurd (List.cons.inj split).1 notReference
    | cons d before => exact ih before after (List.cons.inj split).2
  | @reference body s text c inside read rest ih =>
    intro before after split
    cases before with
    | nil =>
      rw [List.nil_append, List.cons.injEq] at split
      simp [← split.2]
    | cons d before =>
      rw [List.cons_append, List.cons.injEq] at split
      rcases List.append_eq_append_iff.1 split.2 with ⟨tail, -, eq⟩ | ⟨tail, eq, eq'⟩
      · -- The `&` is behind the `;` of the reference.
        cases tail with
        | nil => simp at eq
        | cons e tail =>
          rw [List.cons_append, List.cons.injEq] at eq
          exact ih tail after eq.2
      · -- No `&` is in the body of the reference.
        cases tail with
        | nil => simp at eq'
        | cons e tail =>
          rw [List.cons_append, List.cons.injEq] at eq'
          have := inside e (by simp [eq])
          simp [← eq'.1, inReference] at this

/-- A text is cut in two outside of its references: each part resolves on its own. -/
theorem resolve_append_eq_ok_iff {s s' text : List Char} (outside : EndsOutside s) :
    resolve (s ++ s') = .ok text ↔
      ∃ front back, resolve s = .ok front ∧ resolve s' = .ok back ∧ text = front ++ back := by
  simp only [resolve_eq_ok_iff]
  constructor
  · exact fun h => h.split outside
  · rintro ⟨front, back, first, later, rfl⟩
    exact first.append later

end ProjectFile.Markup
