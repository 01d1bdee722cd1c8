import ProjectFile.Proofs.Document.Layout

/-!
# The lines of a document

The lines of a document are those of its tags and leaves, whatever is written behind each of them.
They nest: a line that closes an element names the innermost open one, all that is opened is
closed, and each line is indented by one tab for each element that is open around it (`Nested`).
A leaf holds its text between its tags, with the markup characters of the text written as
references.

## Key results

- `Node.nested_lines`: the lines of a part nest, whatever is open around the part
- `Description.lines_nested`: the lines of the document of a description
-/

namespace ProjectFile

open ProjectFile.Markup

/-! ## Nested lines -/

/-- The number of tabs at the front of a line. -/
def leadingTabs (line : String) : Nat :=
  (line.toList.takeWhile (· == '\t')).length

/-- Lines that open and close elements: `Nested opened lines opened'` says that the elements named
    by `opened`, innermost first, are open before the lines, and those named by `opened'` behind
    them.  Each line is indented by as many tabs as elements are open around it. -/
inductive Nested : List String → List Line → List String → Prop
  | done (opened : List String) : Nested opened [] opened
  | opening {opened opened' : List String} {depth : Nat} {name : String} {lines : List Line}
      (indented : leadingTabs (Line.opening depth name).render = opened.length)
      (rest : Nested (name :: opened) lines opened') :
      Nested opened (.opening depth name :: lines) opened'
  | leaf {opened opened' : List String} {depth : Nat} {name text : String} {lines : List Line}
      (indented : leadingTabs (Line.leaf depth name text).render = opened.length)
      (rest : Nested opened lines opened') :
      Nested opened (.leaf depth name text :: lines) opened'
  /-- The line closes the innermost element, and that element is not around it. -/
  | closing {opened opened' : List String} {depth : Nat} {name : String} {lines : List Line}
      (indented : leadingTabs (Line.closing depth name).render = opened.length)
      (rest : Nested opened lines opened') :
      Nested (name :: opened) (.closing depth name :: lines) opened'

/-- Lines that nest, behind lines that leave the same elements open, nest with them. -/
private theorem Nested.trans {opened opened₁ opened₂ : List String} {lines lines' : List Line}
    (h : Nested opened lines opened₁) (h' : Nested opened₁ lines' opened₂) :
    Nested opened (lines ++ lines') opened₂ := by
  induction h with
  | done => exact h'
  | opening indented _ ih => exact .opening indented (ih h')
  | leaf indented _ ih => exact .leaf indented (ih h')
  | closing indented _ ih => exact .closing indented (ih h')

/-- The tabs before a tag are those of the indentation. -/
private theorem length_takeWhile_tab (depth : Nat) (s : List Char) :
    ((List.replicate depth '\t' ++ '<' :: s).takeWhile (· == '\t')).length = depth := by
  rw [List.takeWhile_append_of_pos (by simp)]
  simp

/-- A line that opens an element is indented by its depth. -/
private theorem leadingTabs_opening (depth : Nat) (name : String) :
    leadingTabs (Line.opening depth name).render = depth := by
  rw [leadingTabs, toList_render_opening, openTag, length_takeWhile_tab]

/-- A line with a leaf is indented by its depth. -/
private theorem leadingTabs_leaf (depth : Nat) (name text : String) :
    leadingTabs (Line.leaf depth name text).render = depth := by
  rw [leadingTabs, toList_render_leaf, openTag, List.cons_append, List.cons_append,
    length_takeWhile_tab]

/-- A line that closes an element is indented by its depth. -/
private theorem leadingTabs_closing (depth : Nat) (name : String) :
    leadingTabs (Line.closing depth name).render = depth := by
  rw [leadingTabs, toList_render_closing, closeTag, length_takeWhile_tab]

/-! ## Lines of parts -/

mutual

/-- The lines of a part nest, and leave open what is open around the part. -/
theorem Node.nested_lines (opened : List String) (node : Node) :
    Nested opened (node.lines opened.length) opened := by
  match node with
  | .leaf name text =>
    rw [Node.lines]
    exact .leaf (leadingTabs_leaf _ name text) (.done opened)
  -- The depth of a line is the number of elements around it, so one more inside of the block.
  | .block name children =>
    have inner := Node.nested_allLines (name :: opened) children
    have last : Nested (name :: opened) [.closing opened.length name] opened :=
      .closing (leadingTabs_closing _ name) (.done opened)
    rw [Node.lines]
    exact .opening (leadingTabs_opening _ name) (inner.trans last)

/-- The lines of some parts nest. -/
theorem Node.nested_allLines (opened : List String) (nodes : List Node) :
    Nested opened (Node.allLines opened.length nodes) opened := by
  match nodes with
  | [] =>
    rw [Node.allLines]
    exact .done opened
  | node :: rest =>
    rw [Node.allLines]
    exact (Node.nested_lines opened node).trans (Node.nested_allLines opened rest)

end

/-! ## Lines of a document -/

/-- The lines of the document of a description are the same for each separator, which is written
    behind every one of them.  The lines behind the declaration nest, each is indented by what is
    open around it, and nothing is open at the end.  Between the tags of a leaf there is no markup,
    and no `&` but those of predefined references; what is there resolves to the text of the leaf,
    and has its line breaks. -/
theorem Description.lines_nested (d : Description) :
    (∀ separator, d.document separator =
        String.join (d.lines.map fun line => line.render ++ separator)) ∧
      (∃ body, d.lines = .declaration :: body ∧ Nested [] body []) ∧
      ∀ depth name text, .leaf depth name text ∈ d.lines → ∃ inner : String,
        (Line.leaf depth name text).render =
          Line.tabs depth ++ "<" ++ name ++ ">" ++ inner ++ "</" ++ name ++ ">" ∧
        '<' ∉ inner.toList ∧
        (∀ after, '&' :: after <:+ inner.toList →
          ∃ reference ∈ referenceNames, (reference ++ ";").toList <+: after) ∧
        resolve inner.toList = .ok text.toList ∧
        ∀ c, c = '\n' ∨ c = '\r' → inner.toList.count c = text.toList.count c := by
  refine ⟨fun separator => rfl, ⟨d.node.lines 0, rfl, d.node.nested_lines []⟩, ?_⟩
  intro depth name text _
  -- Between the tags of a leaf stands its text with references, and that is all that is asked
  -- about.
  refine ⟨String.ofList (escape text.toList), rfl, ?_⟩
  rw [String.toList_ofList]
  exact ⟨fun mem => ne_open_of_mem_escape mem rfl, fun after => exists_reference_of_suffix_escape,
    resolve_escape _, fun c lineBreak => count_escape lineBreak _⟩

/-- A comment with markup and a line break. -/
theorem Description.lines_nested_comment :
    let d : Description := { comment := "<b>\n&" }
    .leaf 1 "comment" "<b>\n&" ∈ d.lines ∧
      ∃ inner : String,
        (Line.leaf 1 "comment" "<b>\n&").render =
          Line.tabs 1 ++ "<" ++ "comment" ++ ">" ++ inner ++ "</" ++ "comment" ++ ">" ∧
        '<' ∉ inner.toList ∧ resolve inner.toList = .ok "<b>\n&".toList ∧
        inner.toList.count '\n' = 1 := by
  intro d
  have mem : .leaf 1 "comment" "<b>\n&" ∈ d.lines := by decide
  obtain ⟨inner, written, plain, -, resolved, breaks⟩ := d.lines_nested.2.2 _ _ _ mem
  refine ⟨mem, inner, written, plain, resolved, ?_⟩
  rw [breaks '\n' (.inl rfl)]
  decide

end ProjectFile
