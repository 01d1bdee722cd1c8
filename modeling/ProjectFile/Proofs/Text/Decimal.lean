import ProjectFile.Text.Number

/-!
# Numbers in decimal

A text spells a number in decimal if it is made of digits, with or without a plus before them.  The
number may be of any size, and zeros before it do not count.  Reading a number below a bound finds
exactly the texts that spell one, and no larger number is taken for a smaller one.

## Key results

- `unsigned?_eq_some_iff`: which texts are read as a number
-/

namespace ProjectFile.Text

/-- The number that digits spell behind digits with the value `v`. -/
def decimalFrom (v : Nat) (digits : List Char) : Nat :=
  digits.foldl (fun v c => v * 10 + (c.toNat - '0'.toNat)) v

/-- A text spells a number in decimal, with or without a plus. -/
def SpellsDecimal (s : List Char) (n : Nat) : Prop :=
  ∃ digits, (s = digits ∨ s = '+' :: digits) ∧ digits ≠ [] ∧
    digits.all Char.isDigit = true ∧ decimalFrom 0 digits = n

/-- The first digit is put behind those before it. -/
private theorem decimalFrom_cons (v : Nat) (c : Char) (digits : List Char) :
    decimalFrom v (c :: digits) = decimalFrom (v * 10 + (c.toNat - '0'.toNat)) digits :=
  List.foldl_cons ..

/-- More digits make no smaller number. -/
private theorem le_decimalFrom (v : Nat) (digits : List Char) : v ≤ decimalFrom v digits := by
  induction digits generalizing v with
  | nil => exact Nat.le_refl v
  | cons c digits ih =>
    have later := ih (v * 10 + (c.toNat - '0'.toNat))
    rw [decimalFrom_cons]
    omega

/-- In decimal only the ten digits have a value. -/
private theorem digitValue?_ten (c : Char) :
    digitValue? 10 c = if c.isDigit = true then some (c.toNat - '0'.toNat) else none := by
  unfold digitValue?
  split
  · rename_i digit
    have below : c.toNat - '0'.toNat < 10 := by
      simp only [Char.isDigit, Bool.and_eq_true, decide_eq_true_eq] at digit
      have upper : c.toNat ≤ '9'.toNat := digit.2
      have nine : '9'.toNat = 57 := rfl
      have zero : '0'.toNat = 48 := rfl
      omega
    simp only [Option.filter_some, decide_eq_true below, if_true]
  · -- The letters are digits of ten and more.
    split
    · simp [Option.filter]
    · split
      · simp [Option.filter]
      · rfl

/-- Reading goes on as long as there are digits and the number stays below the bound. -/
private theorem foldlM_pushDigit_eq_ok_iff {bound v n : Nat} (below : v < bound)
    (digits : List Char) :
    digits.foldlM (pushDigit 10 bound) v = .ok n ↔
      digits.all Char.isDigit = true ∧ decimalFrom v digits = n ∧ n < bound := by
  -- The digits before are in the value, so the induction is for every value below the bound.
  induction digits generalizing v with
  | nil =>
    simp only [List.foldlM_nil, List.all_nil, true_and, decimalFrom, List.foldl_nil]
    constructor
    · rintro ⟨⟩
      exact ⟨rfl, below⟩
    · rintro ⟨rfl, -⟩
      rfl
  | cons c digits ih =>
    rw [List.foldlM_cons, pushDigit, digitValue?_ten, List.all_cons, decimalFrom_cons]
    by_cases digit : c.isDigit = true
    · simp only [digit, if_true, Bool.true_and]
      by_cases next : v * 10 + (c.toNat - '0'.toNat) < bound
      · rw [if_pos next]
        exact ih next
      · -- The number only grows, so it does not come below the bound again.
        rw [if_neg next]
        have grows := le_decimalFrom (v * 10 + (c.toNat - '0'.toNat)) digits
        constructor
        · rintro ⟨⟩
        · rintro ⟨-, rfl, small⟩
          omega
    · rw [if_neg digit]
      simp only [digit, Bool.false_and]
      constructor
      · rintro ⟨⟩
      · rintro ⟨⟨⟩, -⟩

/-- Digits are read as the number that they spell, if there are any and it is below the bound. -/
private theorem readDigits_eq_ok_iff {bound n : Nat} (positive : 0 < bound) (digits : List Char) :
    readDigits 10 bound digits = .ok n ↔
      digits ≠ [] ∧ digits.all Char.isDigit = true ∧ decimalFrom 0 digits = n ∧ n < bound := by
  unfold readDigits
  split
  · rename_i empty
    simp [empty]
  · rename_i nonempty
    rw [foldlM_pushDigit_eq_ok_iff positive]
    simp [nonempty]

/-- There is a value exactly if there is no fault. -/
private theorem toOption_eq_some_iff {ε α : Type} {result : Except ε α} {a : α} :
    result.toOption = some a ↔ result = .ok a := by
  cases result <;> simp [Except.toOption]

/-- A text is read as a number exactly if it spells the number, and the number is below the
    bound. -/
theorem unsigned?_eq_some_iff {bound n : Nat} (positive : 0 < bound) (s : List Char) :
    unsigned? bound s = some n ↔ SpellsDecimal s n ∧ n < bound := by
  unfold unsigned?
  split
  · -- A plus is no digit, so the digits are what stands behind it.
    rename_i digits
    rw [toOption_eq_some_iff, readDigits_eq_ok_iff positive]
    constructor
    · rintro ⟨nonempty, all, value, small⟩
      exact ⟨⟨digits, .inr rfl, nonempty, all, value⟩, small⟩
    · rintro ⟨⟨digits', rfl | eq, nonempty, all, value⟩, small⟩
      · simp at all
      · rw [List.cons.injEq] at eq
        obtain ⟨-, rfl⟩ := eq
        exact ⟨nonempty, all, value, small⟩
  · -- Without a plus, the text is the digits.
    rename_i unsigned
    rw [toOption_eq_some_iff, readDigits_eq_ok_iff positive]
    constructor
    · rintro ⟨nonempty, all, value, small⟩
      exact ⟨⟨s, .inl rfl, nonempty, all, value⟩, small⟩
    · rintro ⟨⟨digits, rfl | eq, nonempty, all, value⟩, small⟩
      · exact ⟨nonempty, all, value, small⟩
      · exact absurd eq (unsigned digits)

/-- A number that a word cannot hold is not taken for a smaller one. -/
example : unsigned? wordBound "+0002".toList = some 2 ∧
    unsigned? wordBound "4294967298".toList = none := by decide

end ProjectFile.Text
