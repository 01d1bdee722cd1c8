import Mathlib.Data.List.Basic
import Mathlib.Tactic.SplitIfs

/-!
# The order of texts by their bytes

Texts are compared character by character, and their UTF-8 forms byte by byte.  Both orders are the
same: the bytes of a lesser character are less in the first place in which they differ, and they
differ in a place that both have, so what follows does not matter.

## Key results

- `utf8EncodeChar_append_lt`: the bytes of two characters, with anything behind them
- `lt_iff_bytes_lt`: the order of texts is that of their bytes
-/

namespace ProjectFile.Text

/-- The bytes of a text in UTF-8. -/
def bytes (s : String) : List UInt8 :=
  s.toUTF8.data.toList

/-- The bytes of a text are those of its characters. -/
private theorem bytes_eq_flatMap (s : String) :
    bytes s = s.toList.flatMap String.utf8EncodeChar := by
  have form : s.toUTF8 = s.toList.utf8Encode := by
    conv_lhs => rw [← String.ofList_toList (s := s)]
    exact String.toByteArray_ofList
  rw [bytes, form]
  exact List.toList_data_toByteArray

/-! ## Characters -/

/-- Bytes are compared by their numbers, the first byte before the others. -/
private theorem ofNat_cons_lt_iff {a b : Nat} (ha : a < 256) (hb : b < 256) (xs ys : List UInt8) :
    UInt8.ofNat a :: xs < UInt8.ofNat b :: ys ↔ a < b ∨ a = b ∧ xs < ys := by
  rw [List.cons_lt_cons_iff, UInt8.lt_iff_toNat_lt, ← UInt8.toNat_inj, UInt8.toNat_ofNat',
    UInt8.toNat_ofNat', Nat.mod_eq_of_lt ha, Nat.mod_eq_of_lt hb]

/-- Of two numbers the lesser has the lesser digit to base 64 in the first place in which their
    digits differ. -/
private theorem sextets_lt {v w : Nat} (h : v < w) :
    v / 262144 < w / 262144 ∨ v / 262144 = w / 262144 ∧
      (v / 4096 % 64 < w / 4096 % 64 ∨ v / 4096 % 64 = w / 4096 % 64 ∧
        (v / 64 % 64 < w / 64 % 64 ∨ v / 64 % 64 = w / 64 % 64 ∧ v % 64 < w % 64)) := by
  have second : ∀ v : Nat, v / 4096 = v / 64 / 64 := fun v => (Nat.div_div_eq_div_mul v 64 64).symm
  have third : ∀ v : Nat, v / 262144 = v / 64 / 64 / 64 := fun v => by
    rw [Nat.div_div_eq_div_mul, Nat.div_div_eq_div_mul]
  rw [second, second, third, third]
  omega

/-- No character has a number above those of Unicode. -/
private theorem toNat_val_lt (c : Char) : c.val.toNat < 0x110000 := by
  rcases c.valid with h | h
  · exact Nat.lt_trans h (by decide)
  · exact h.2

/-- The bytes of the lesser of two characters are less, whatever follows on either side. -/
theorem utf8EncodeChar_append_lt {c d : Char} (h : c < d) (xs ys : List UInt8) :
    String.utf8EncodeChar c ++ xs < String.utf8EncodeChar d ++ ys := by
  have less : c.val.toNat < d.val.toNat := h
  have digits := sextets_lt less
  have boundC := toNat_val_lt c
  have boundD := toNat_val_lt d
  have leadC : c.val.toNat / 262144 % 8 = c.val.toNat / 262144 := by omega
  have leadD : d.val.toNat / 262144 % 8 = d.val.toNat / 262144 := by omega
  simp only [String.utf8EncodeChar]
  -- More bytes have a greater first byte; as many bytes are told apart by the digits in them.
  split_ifs <;>
    simp (disch := omega) only [List.cons_append, List.nil_append, ofNat_cons_lt_iff, leadC,
      leadD] <;>
    omega

/-! ## Texts -/

/-- The bytes of a lesser text are less. -/
private theorem flatMap_utf8EncodeChar_lt {cs ds : List Char} (h : cs < ds) :
    cs.flatMap String.utf8EncodeChar < ds.flatMap String.utf8EncodeChar := by
  induction h with
  -- The shorter text is a front of the longer one.
  | @nil d ds =>
    rw [List.flatMap_nil, List.flatMap_cons]
    obtain ⟨b, bs, eq⟩ : ∃ b bs, String.utf8EncodeChar d = b :: bs :=
      List.exists_cons_of_ne_nil (by simp)
    rw [eq, List.cons_append]
    exact List.nil_lt_cons _ _
  -- The texts differ in this character, and what follows does not matter.
  | @rel c cs d ds first =>
    rw [List.flatMap_cons, List.flatMap_cons]
    exact utf8EncodeChar_append_lt first _ _
  | @cons c cs ds _ ih =>
    rw [List.flatMap_cons, List.flatMap_cons]
    exact List.append_left_lt ih

/-- A text that is less has lesser bytes. -/
private theorem bytes_lt_of_lt {s t : String} (h : s < t) : bytes s < bytes t := by
  rw [bytes_eq_flatMap, bytes_eq_flatMap]
  exact flatMap_utf8EncodeChar_lt (String.lt_iff.1 h)

/-- The order of texts is the order of their bytes. -/
theorem lt_iff_bytes_lt {s t : String} : s < t ↔ bytes s < bytes t := by
  refine ⟨bytes_lt_of_lt, fun h => ?_⟩
  -- Were `t` the lesser one or the same, its bytes would be, too.
  by_contra notLess
  by_cases same : s = t
  · exact List.lt_irrefl _ (same ▸ h)
  · have less : t < s := by
      by_contra notGreater
      exact same (String.le_antisymm (String.not_lt.1 notGreater) (String.not_lt.1 notLess))
    exact List.lt_asymm h (bytes_lt_of_lt less)

end ProjectFile.Text
