/-! # Texts as bytes

Offsets and lengths in messages count the bytes of the UTF-8 form of a text. -/

namespace ProjectFile.Text

/-- The number of bytes of the UTF-8 form. -/
def byteLength (s : List Char) : Nat :=
  s.foldl (fun n c => n + c.utf8Size) 0

/-- Counting on from `n` adds `n` to the count. -/
private theorem foldl_utf8Size (n : Nat) (s : List Char) :
    s.foldl (fun n c => n + c.utf8Size) n = n + byteLength s := by
  induction s generalizing n with
  | nil => rfl
  | cons c s ih =>
    rw [byteLength, List.foldl_cons, List.foldl_cons, ih, ih (0 + c.utf8Size)]
    omega

/-- Texts behind each other have the bytes of both. -/
@[simp] theorem byteLength_append (s t : List Char) :
    byteLength (s ++ t) = byteLength s + byteLength t := by
  rw [byteLength, List.foldl_append, foldl_utf8Size]
  rfl

/-- The string that the bytes are the UTF-8 form of, if they are one. -/
def ofBytes? (bytes : List UInt8) : Option String :=
  String.fromUTF8? ⟨bytes.toArray⟩

end ProjectFile.Text
