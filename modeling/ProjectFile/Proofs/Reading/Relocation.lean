import ProjectFile.Proofs.Document.Root
import ProjectFile.Proofs.Location.Serialized
import ProjectFile.Proofs.Markup.Content
import ProjectFile.Proofs.Markup.Remainder
import ProjectFile.Proofs.Reading.Respelling
import ProjectFile.Proofs.Reading.Subjects
import ProjectFile.Proofs.Reading.UriForm

/-!
# The two forms of a location

A link can have its location as a local path or as a URI.  The written form of the URI of a path is
read as the same URI, but for a path of which dots are left over.  So the element of the path can be
replaced by one that holds the URI: `Relocates` is one such change to a document.

The replaced element takes the problems of its own text with it.  A fault of the markup behind it
is found at another place from the start of the document, and at the same place from its end.

## Key results

- `Tree.seen_foldl_location`: the two elements lead to trees that are seen as the same
- `Relocates.agrees`: one change leaves the description and all other problems
- `Reading.ofText_relocated`: which URIs are read as themselves, and any number of changes
-/

namespace ProjectFile

open ProjectFile.Text ProjectFile.Markup

/-! ## Changes of form -/

/-- In a document the local path of a link is replaced by its URI: the element of the path, whose
    content has the events `fs`, by an element that holds the escaped written form of the URI.  With
    the content of the replaced element the problems `gone` are gone. -/
inductive Relocates : List Problem → List Char → List Char → Prop
  | of_elements {front element element' back : List Char} {es fs : List Event}
      {opened : List (List Char)} {u : Uri} (reads : Reads [] front es opened [])
      (inLink : openNames [] es = some linkNames)
      (isPath : ReadsElement "location" element
        (.opened "location" :: (fs ++ [.closed "location"])))
      (accepted : Uri.ofLocalPath (trim (Tree.directTexts 0 fs)) = .ok u) (noDots : u.NoDots)
      (isUri : ReadsElement "locationURI" element'
        (.opened "locationURI" ::
          (textEvents (escape u.render.toList) ++ [.closed "locationURI"]))) :
      Relocates (textProblems keepsChildren (unresolvedTexts ("location" :: linkNames) fs))
        (front ++ (element ++ back)) (front ++ (element' ++ back))

/-- In a document the local paths of any number of links are replaced by their URIs. -/
inductive Relocations : List Problem → List Char → List Char → Prop
  | refl (s : List Char) : Relocations [] s s
  | tail {gone gone' : List Problem} {s s' s'' : List Char} (before : Relocations gone s s')
      (last : Relocates gone' s' s'') : Relocations (gone ++ gone') s s''

/-- A problem, with the place of a fault counted from the end of a document of `size` bytes. -/
def Problem.fromEnd (size : Nat) : Problem → Problem
  | .malformed element position fault => .malformed element (size - position) fault
  | p => p

/-- The problems of a document, with the place of a fault counted from the end. -/
def Reading.problemsFromEnd [Uri.DomainNames] (content : String) : List Problem :=
  (ofText content).problems.map (Problem.fromEnd (byteLength (dropMark content.toList)))

/-! ## The events of an element -/

/-- The events in an element follow its start tag. -/
private theorem exists_reads_of_readsElement {name : String} {element : List Char} {fs : List Event}
    (h : ReadsElement name element (.opened name :: (fs ++ [.closed name]))) :
    ∃ inner, Reads [] inner fs [] [] := by
  generalize whole : Event.opened name :: (fs ++ [.closed name]) = es at h
  cases h with
  | empty => simp at whole
  | pair opens inside =>
    rw [List.cons.injEq] at whole
    exact ⟨_, List.append_cancel_right whole.2 ▸ inside⟩

/-- An element leaves open what is open around it. -/
private theorem openNames_element {name : String} {element : List Char} {es : List Event}
    (h : ReadsElement name element es) {names : List String} (nonempty : names ≠ []) :
    openNames names es = some names :=
  openNames_of_reads_inside (h.reads []) nonempty

/-- The texts of an element that cannot be resolved are those between its tags. -/
private theorem unresolvedTexts_element {name : String} {element : List Char} {fs : List Event}
    (h : ReadsElement name element (.opened name :: (fs ++ [.closed name]))) (names : List String) :
    unresolvedTexts names (.opened name :: (fs ++ [.closed name])) =
      unresolvedTexts (name :: names) fs := by
  obtain ⟨inner, inside⟩ := exists_reads_of_readsElement h
  have stays : openNames (name :: names) fs = some (name :: names) :=
    openNames_of_reads_inside inside (List.cons_ne_nil _ _)
  have last : unresolvedTexts (name :: names) [.closed name] = [] :=
    unresolvedTexts_eq_nil (by simp) _
  have first : (Event.opened name).textFault? names = none := rfl
  rw [unresolvedTexts, first]
  simp only [Event.nest, Option.toList_none, List.nil_append]
  rw [unresolvedTexts_append_of_open stays, last, List.append_nil]

/-- A text adds what it resolves to. -/
private theorem directTexts_textEvents (raw : List Char) :
    Tree.directTexts 0 (textEvents raw) = heldText raw := by
  unfold textEvents
  split
  · rename_i empty
    rw [empty, heldText_nil]
    rfl
  · simp [Tree.directTexts, Tree.directText]

/-! ## The trees of the two documents -/

namespace Tree

variable {opened : List (List Char)} {t : Tree}

/-- An element whose text is read as a value is put where it stands, with its text. -/
private theorem seen_foldl_element (v : ElementView)
    (place : t.At keepsChildren (opened.map localName))
    {name : String} (value : holdsValue (name :: opened.map localName) = true)
    {element : List Char} {fs : List Event}
    (isElement : ReadsElement name element (.opened name :: (fs ++ [.closed name]))) :
    ((Event.opened name :: (fs ++ [.closed name])).foldl (Tree.step keepsChildren) t).seen v =
      ((t.seen v).attach ⟨name, directTexts 0 fs, []⟩).seen v := by
  obtain ⟨inner, inside⟩ := exists_reads_of_readsElement isElement
  have leaf := inLeaf_opened place value
  obtain ⟨ps, run⟩ := @exists_foldl_part keepsChildren t.opened _ _ inside name
  have none : t.skipped = 0 := by
    have skipped := place.skipped
    rw [keptNames_of_isKept (isKept_of_cons upward_keepsChildren
      (isKept_of_holdsValue value).1)] at skipped
    omega
  simp only [List.foldl_cons, List.foldl_append, List.foldl_nil]
  -- While the element is open only its text changes, and then it is attached.
  rw [run _ _ rfl leaf, (leaf.addLeaf _ 0 ps).step_closed]
  -- But for its problems, the tree around the element is as it was.
  refine (seen_attach rfl).trans ?_
  simp only [addLeaf, seen, leaf.root, place.root, none, OpenElement.close, String.empty_append,
    List.reverse_nil]

/-- An element with a path and one with its URI lead to trees that are seen as the same. -/
theorem seen_foldl_location [Uri.DomainNames] (place : t.At keepsChildren (opened.map localName))
    (inLink : linkNames = opened.map localName) {element element' : List Char} {fs : List Event}
    {u : Uri}
    (isPath : ReadsElement "location" element
      (.opened "location" :: (fs ++ [.closed "location"])))
    (accepted : Uri.ofLocalPath (trim (directTexts 0 fs)) = .ok u)
    (again : Uri.ofText u.render = .ok u)
    (isUri : ReadsElement "locationURI" element'
      (.opened "locationURI" ::
        (textEvents (escape u.render.toList) ++ [.closed "locationURI"]))) :
    ((Event.opened "location" :: (fs ++ [.closed "location"])).foldl
        (Tree.step keepsChildren) t).seen .uriForms =
      ((Event.opened "locationURI" ::
        (textEvents (escape u.render.toList) ++ [.closed "locationURI"])).foldl
          (Tree.step keepsChildren) t).seen .uriForms := by
  have value : holdsValue ("location" :: opened.map localName) = true := by
    rw [← inLink]
    decide
  have value' : holdsValue ("locationURI" :: opened.map localName) = true := by
    rw [← inLink]
    decide
  have around : t.around = linkNames := by
    rw [Tree.around, place.opened, inLink, keptNames_of_isKept (isKept_of_cons upward_keepsChildren
      (isKept_of_holdsValue value).1)]
  -- Each run puts an element into the link, and the view sees the two as the same.
  let path : Element := ⟨"location", directTexts 0 fs, []⟩
  let uri : Element := ⟨"locationURI", u.render, []⟩
  have same : ElementView.uriForms.see t.around path = ElementView.uriForms.see t.around uri := by
    have form : path.inUriForm = uri := Element.inUriForm_of_ofLocalPath rfl accepted again
    have form' : uri.inUriForm = uri :=
      Element.inUriForm_of_ne (Element.uriElement_ne_location u.render)
    rw [around, ElementView.see_uriForms_linkNames, form, form']
  have withPath := seen_foldl_element .uriForms place value isPath
  have withUri := seen_foldl_element .uriForms place value' isUri
  rw [directTexts_textEvents, heldText_escape] at withUri
  have alone : (t.attach path).seen .uriForms =
      ((t.seen .uriForms).attach path).seen .uriForms := seen_attach rfl
  rw [withPath, withUri, ← alone]
  exact seen_attach same

end Tree

/-! ## The two documents -/

/-- The scan of a document in which an element is read. -/
private theorem scan_of_element {content : String} {front element back : List Char}
    {es ps : List Event} {opened : List (List Char)} {name : String}
    (isText : dropMark content.toList = front ++ (element ++ back))
    (reads : Reads [] front es opened []) (isElement : ReadsElement name element ps) :
    scan content.toList =
      ⟨es ++ (ps ++ eventsFrom opened back),
        endingAt (byteLength (dropMark content.toList)) (stopFrom opened back).1
          (stopFrom opened back).2⟩ := by
  obtain ⟨later, behind⟩ := exists_reads_stopFrom opened back
  have stops := stops_stopFrom opened back
  have whole := (reads.followed (isElement.startsMarkup_append back)).trans
    ((isElement.reads_append opened back).trans behind)
  rw [← isText] at whole
  rw [scan_eq_of_reads whole stops, eventsFrom_of_reads behind stops]

/-- What is left where reading stops is no longer than the document. -/
private theorem byteLength_stopFrom_le (opened : List (List Char)) (s : List Char) :
    byteLength (stopFrom opened s).2 ≤ byteLength s := by
  obtain ⟨es, reads⟩ := exists_reads_stopFrom opened s
  obtain ⟨piece, split, -⟩ := reads.exists_piece
  exact byteLength_le_of_isSuffix ⟨piece, split.symm⟩

namespace Problem

variable {size size' : Nat}

/-- The problems of texts have no place in the document. -/
private theorem fromEnd_textProblems (keeps : List String → Bool)
    (texts : List (List String × ReferenceFault)) :
    (textProblems keeps texts).map (fromEnd size) = textProblems keeps texts := by
  rw [textProblems, List.map_map]
  rfl

/-- The problems of how documents end are the same, counted from the end, if their ends are. -/
private theorem fromEnd_endProblems (innermost : List String → String)
    (names? : Option (List String))
    {ending ending' : Ending} (same : ending.fromEnd size = ending'.fromEnd size') :
    (endProblems innermost names? ending).map (fromEnd size) =
      (endProblems innermost names? ending').map (fromEnd size') := by
  -- The ends are both finished or both broken.
  cases ending with
  | finished =>
    cases ending' with
    | finished => rcases names? with - | (- | ⟨name, names⟩) <;> rfl
    | broken => simp [Ending.fromEnd] at same
  | broken position f =>
    cases ending' with
    | finished => simp [Ending.fromEnd] at same
    | broken position' f' =>
      simp only [Ending.fromEnd, Ending.broken.injEq] at same
      obtain ⟨place, rfl⟩ := same
      cases names? <;> simp [endProblems, endProblem, fromEnd, place]

/-- What is found in the entries of a description has no place in the document. -/
private theorem fromEnd_notesOn [Uri.DomainNames] (root? : Option Element) :
    ((notesOn root?).filterMap Note.problem?).map (fromEnd size) =
      (notesOn root?).filterMap Note.problem? := by
  have fixed : ∀ p ∈ (notesOn root?).filterMap Note.problem?, p.fromEnd size = p := by
    intro p hp
    obtain ⟨note, mem, found⟩ := List.mem_filterMap.1 hp
    -- Only a problem of the document has a place, and notes on entries are none.
    have about : p.subject ≠ .document := by
      cases note with
      | problem q =>
        obtain rfl : q = p := Option.some.inj found
        unfold notesOn at mem
        split at mem
        · simp at mem
        · split at mem
          · exact subject_ne_document_of_mem_notesOnChildren mem
          · simp at mem
      | unknownElement name => simp [Note.problem?] at found
      | wrongRoot name => simp [Note.problem?] at found
    cases p with
    | malformed => exact absurd rfl about
    | _ => rfl
  rw [List.map_congr_left fixed, List.map_id']

end Problem

/-- Documents agree but for the problems `gone`: they give the same description, and have the same
    problems, which are the others of the first one. -/
structure Agrees [Uri.DomainNames] (gone : List Problem) (content content' : String) : Prop where
  description : (Reading.ofText content').description? = (Reading.ofText content).description?
  sublist : (Reading.problemsFromEnd content').Sublist (Reading.problemsFromEnd content)
  perm : (Reading.problemsFromEnd content).Perm (gone ++ Reading.problemsFromEnd content')

/-- Documents that agree with a third one but for some problems agree but for all of them. -/
private theorem Agrees.trans [Uri.DomainNames] {gone gone' : List Problem}
    {content content' content'' : String}
    (h : Agrees gone content content') (h' : Agrees gone' content' content'') :
    Agrees (gone ++ gone') content content'' where
  description := h'.description.trans h.description
  sublist := h'.sublist.trans h.sublist
  perm := by
    rw [List.append_assoc]
    exact h.perm.trans (h'.perm.append_left gone)

namespace Reading

/-- The problems of a document are those found while its tree is built, and then those of its
    entries. -/
private theorem problems_eq [Uri.DomainNames] (content : String) :
    (ofText content).problems =
      (Tree.ofScan keepsChildren (scan content.toList)).problems ++
        (notesOn (Tree.ofScan keepsChildren (scan content.toList)).root?).filterMap
          Note.problem? := by
  rw [problems, ofText, Tree.notes_reading, List.filterMap_append, filterMap_problem?]

end Reading

/-- Documents with the same mark or none, and otherwise the same, agree. -/
private theorem agrees_of_dropMark_eq [Uri.DomainNames] {content content' : String}
    (same : dropMark content'.toList = dropMark content.toList) : Agrees [] content content' := by
  have scans : scan content'.toList = scan content.toList := by
    unfold scan
    rw [same]
  have readings : Reading.ofText content' = Reading.ofText content := by
    rw [Reading.ofText, Reading.ofText, scans]
  have problems : Reading.problemsFromEnd content' = Reading.problemsFromEnd content := by
    rw [Reading.problemsFromEnd, Reading.problemsFromEnd, readings, same]
  exact ⟨by rw [readings], by rw [problems], by rw [problems]; exact .refl _⟩

/-- The problems of texts are found text by text. -/
private theorem textProblems_append (keeps : List String → Bool)
    (texts texts' : List (List String × ReferenceFault)) :
    textProblems keeps (texts ++ texts') =
      textProblems keeps texts ++ textProblems keeps texts' := by
  simp [textProblems]

namespace Reading

variable {content : String} {names : List String} {es ps later : List Event} {ending : Ending}

/-- The problems of a document in which the events `ps` leave open what is open around them. -/
private theorem problemsFromEnd_eq [Uri.DomainNames]
    (parts : scan content.toList = ⟨es ++ (ps ++ later), ending⟩)
    (inside : openNames [] es = some names) (stays : openNames names ps = some names) :
    problemsFromEnd content =
      textProblems keepsChildren (unresolvedTexts [] es) ++
        (textProblems keepsChildren (unresolvedTexts names ps) ++
          (textProblems keepsChildren (unresolvedTexts names later) ++
            ((endProblems (innermostKept keepsChildren) (openNames names later) ending).map
                (Problem.fromEnd (byteLength (dropMark content.toList))) ++
              (notesOn (Tree.ofScan keepsChildren (scan content.toList)).root?).filterMap
                Note.problem?))) := by
  -- The texts before, inside of and behind the part, each with the names around it.
  have texts : unresolvedTexts [] (es ++ (ps ++ later)) =
      unresolvedTexts [] es ++ (unresolvedTexts names ps ++ unresolvedTexts names later) := by
    rw [unresolvedTexts_append_of_open inside, unresolvedTexts_append_of_open stays]
  have atEnd : openNames [] (es ++ (ps ++ later)) = openNames names later := by
    rw [openNames_append, inside, Option.bind_some, openNames_append, stays, Option.bind_some]
  rw [problemsFromEnd, problems_eq, List.map_append, Problem.fromEnd_notesOn,
    Tree.problems_ofScan upward_keepsChildren, List.map_append, Problem.fromEnd_textProblems, parts]
  simp only [texts, atEnd, textProblems_append, List.append_assoc]

end Reading

/-- Documents agree if they have other events only in one part, which leads to trees that are seen
    as the same, and if they end in the same way. -/
private theorem agrees_of_parts [Uri.DomainNames] {content content' : String}
    {es ps ps' later : List Event}
    {ending ending' : Ending} (parts : scan content.toList = ⟨es ++ (ps ++ later), ending⟩)
    (parts' : scan content'.toList = ⟨es ++ (ps' ++ later), ending'⟩)
    (inside : openNames [] es = some linkNames) (stays : openNames linkNames ps = some linkNames)
    (stays' : openNames linkNames ps' = some linkNames)
    (seen : (ps.foldl (Tree.step keepsChildren)
        (es.foldl (Tree.step keepsChildren) {})).seen .uriForms =
      (ps'.foldl (Tree.step keepsChildren)
        (es.foldl (Tree.step keepsChildren) {})).seen .uriForms)
    (resolved : unresolvedTexts linkNames ps' = [])
    (ends : ending.fromEnd (byteLength (dropMark content.toList)) =
      ending'.fromEnd (byteLength (dropMark content'.toList))) :
    Agrees (textProblems keepsChildren (unresolvedTexts linkNames ps)) content content' := by
  have roots : (Tree.ofScan keepsChildren (scan content.toList)).root?.map
      (Element.changeAt Element.inUriForm linkPath) =
      (Tree.ofScan keepsChildren (scan content'.toList)).root?.map
        (Element.changeAt Element.inUriForm linkPath) := by
    -- The trees are seen as the same from the part on, up to the end.
    have run := Tree.seen_foldl_step keepsChildren seen later
    simp only [← List.foldl_append, List.append_assoc] at run
    rw [Tree.ofScan, Tree.ofScan, parts, parts', ← ElementView.see_uriForms_nil]
    exact Tree.seen_root_finish run _ _
  -- What is noted on the entries depends only on what is seen of the tree.
  have notes : notesOn (Tree.ofScan keepsChildren (scan content'.toList)).root? =
      notesOn (Tree.ofScan keepsChildren (scan content.toList)).root? := by
    rw [← Element.notesOn_changeAt, ← roots, Element.notesOn_changeAt]
  have atEnd := Problem.fromEnd_endProblems (innermostKept keepsChildren)
    (openNames linkNames later) ends
  have old := Reading.problemsFromEnd_eq parts inside stays
  have new := Reading.problemsFromEnd_eq parts' inside stays'
  rw [resolved, notes, ← atEnd] at new
  refine ⟨?_, ?_, ?_⟩
  · rw [Reading.ofText, Reading.ofText, Tree.description?_reading, Tree.description?_reading,
      ← Element.descriptionOf?_changeAt, ← roots, Element.descriptionOf?_changeAt]
  · -- The problems of the part stand between those of the texts before it and the rest.
    rw [old, new]
    exact (List.Sublist.refl _).append (List.sublist_append_right _ _)
  · rw [old, new]
    exact List.perm_append_comm_assoc _ _ _

/-- An escaped text resolves. -/
private theorem unresolvedTexts_textEvents_escape (names : List String) (text : String) :
    unresolvedTexts names (textEvents (escape text.toList)) = [] := by
  refine unresolvedTexts_eq_nil (fun raw mem => ⟨text.toList, ?_⟩) names
  unfold textEvents at mem
  split at mem
  · simp at mem
  · rw [Event.text.inj (List.mem_singleton.1 mem), resolve_escape]

/-- One change of form: the documents agree, but for the problems of the replaced text. -/
theorem Relocates.agrees [Uri.DomainNames] {gone : List Problem} {s s' : List Char}
    (h : Relocates gone s s') {content content' : String}
    (isText : dropMark content.toList = s) (isText' : dropMark content'.toList = s') :
    Agrees gone content content' := by
  cases h with
  | @of_elements front element element' back es fs opened u reads inLink isPath accepted noDots
      isUri =>
    have inside : linkNames = opened.map localName := openNames_of_reads reads inLink
    have again : Uri.ofText u.render = .ok u := (LocalPath.ofText_render_iff accepted).2 noDots
    have notEmpty : linkNames ≠ [] := by decide
    have place : (es.foldl (Tree.step keepsChildren) {}).At keepsChildren
        (opened.map localName) :=
      inside ▸ (Tree.at_nil keepsChildren).foldl_step upward_keepsChildren inLink
    -- The element of the URI has no problems of its own.
    have resolved : unresolvedTexts linkNames (.opened "locationURI" ::
        (textEvents (escape u.render.toList) ++ [.closed "locationURI"])) = [] := by
      rw [unresolvedTexts_element isUri, unresolvedTexts_textEvents_escape]
    -- What is left behind the element is a part of both documents.
    have fits (text element : List Char) (isText : text = front ++ (element ++ back)) :
        byteLength (stopFrom opened back).2 ≤ byteLength text := by
      have := byteLength_stopFrom_le opened back
      rw [isText, byteLength_append, byteLength_append]
      omega
    have agrees := agrees_of_parts (scan_of_element isText reads isPath)
      (scan_of_element isText' reads isUri) inLink (openNames_element isPath notEmpty)
      (openNames_element isUri notEmpty)
      (Tree.seen_foldl_location place inside isPath accepted again isUri) resolved
      (fromEnd_endingAt _ (fits _ _ isText) (fits _ _ isText'))
    rwa [unresolvedTexts_element isPath] at agrees

/-- Any number of changes of form: the documents agree, but for the problems of the replaced
    texts. -/
private theorem Relocations.agrees [Uri.DomainNames] {gone : List Problem} {s s' : List Char}
    (h : Relocations gone s s') {content content' : String}
    (isText : dropMark content.toList = s) (isText' : dropMark content'.toList = s') :
    Agrees gone content content' := by
  induction h generalizing content' with
  | refl => exact agrees_of_dropMark_eq (isText'.trans isText.symm)
  | @tail gone gone' s s' s'' before last ih =>
    -- A mark in front keeps the document between the two as it is.
    let between := String.ofList ('\ufeff' :: s')
    have isBetween : dropMark between.toList = s' := by rw [String.toList_ofList, dropMark]
    exact (ih isText isBetween).trans (last.agrees isBetween isText')

/-- An element that holds a text. -/
private theorem readsElement_text {name : String} (named : isElementName name = true)
    {raw : List Char} (plain : ∀ c ∈ raw, c ≠ '<') :
    ReadsElement name (openTag name ++ (raw ++ closeTag name))
      (.opened name :: (textEvents raw ++ [.closed name])) := by
  have inside := reads_text plain [] startsMarkup_nil
  rw [List.append_nil] at inside
  exact .pair (piece_openTag named) inside (piece_closeTag named) (localName_of_named named)

namespace Reading

/-- The URI of a local path is read as itself from its written form if it has no dots left over,
    and a path without tabs and line breaks leaves none over.  A document in which the paths of
    links are replaced by such URIs gives the same description, and has the same problems, but for
    those of the replaced texts. -/
theorem ofText_relocated [Uri.DomainNames] :
    (∀ (p : String) (u : Uri), Uri.ofLocalPath p = .ok u →
      (u.NoDots → Uri.ofText u.render = .ok u) ∧
        ((∀ c ∈ p.toList, Uri.isBreak c = false) → u.NoDots)) ∧
    ∀ (gone : List Problem) (content content' : String),
      Relocations gone (dropMark content.toList) (dropMark content'.toList) →
        (ofText content').description? = (ofText content).description? ∧
          (problemsFromEnd content').Sublist (problemsFromEnd content) ∧
          (problemsFromEnd content).Perm (gone ++ problemsFromEnd content') := by
  refine ⟨fun p u accepted => ?_, fun gone content content' relocated => ?_⟩
  · exact ⟨(LocalPath.ofText_render_iff accepted).2, LocalPath.noDots_of_unbroken accepted⟩
  · have agrees := relocated.agrees rfl rfl
    exact ⟨agrees.description, agrees.sublist, agrees.perm⟩

/-- The URI of a path that cannot be unescaped, in a document that breaks off behind the link. -/
theorem ofText_relocated_unescaped :
    let front := "<projectDescription><linkedResources><link><name>a</name>"
    let content := front ++ "<location>/a&b</location>" ++ "</link><"
    let content' := front ++ "<locationURI>file:///a&amp;b</locationURI>" ++ "</link><"
    let gone : List Problem := [.unresolvedText "location" (.unterminated 2 4)]
    ∃ u : Uri, Uri.ofLocalPath "/a&b" = .ok u ∧ (∀ c ∈ "/a&b".toList, Uri.isBreak c = false) ∧
      u.NoDots ∧ Uri.ofText u.render = .ok u ∧
      Relocations gone (dropMark content.toList) (dropMark content'.toList) ∧
      (ofText content').description? = (ofText content).description? ∧
      (problemsFromEnd content').Sublist (problemsFromEnd content) ∧
      (problemsFromEnd content).Perm (gone ++ problemsFromEnd content') := by
  intro front content content' gone
  let u := Uri.ofSegments ["a&b".toList]
  have accepted : Uri.ofLocalPath "/a&b" = .ok u := by decide +kernel
  have unbroken : ∀ c ∈ "/a&b".toList, Uri.isBreak c = false := by simp [Uri.isBreak]
  obtain ⟨again, noDots⟩ := ofText_relocated.1 "/a&b" u accepted
  have stops : stop front.toList = (["link".toList, "linkedResources".toList,
      "projectDescription".toList], []) := by decide +kernel
  have inLink : openNames [] (scan front.toList).events = some linkNames := by decide +kernel
  have reads := reads_stop front.toList
  rw [stops] at reads
  have isPath := @readsElement_text "location" (by decide) "/a&b".toList (by simp)
  have isUri := @readsElement_text "locationURI" (by decide) (escape u.render.toList)
    fun c hc => ne_open_of_mem_escape hc
  have text : Uri.ofLocalPath (trim (Tree.directTexts 0 (textEvents "/a&b".toList))) = .ok u := by
    decide +kernel
  -- The element of the path is replaced by that of its URI.
  have change := @Relocates.of_elements _ _ _ "</link><".toList _ _ _ _ reads inLink isPath text
    (noDots unbroken) isUri
  have before : dropMark content.toList = dropMark front.toList ++
      ((openTag "location" ++ ("/a&b".toList ++ closeTag "location")) ++ "</link><".toList) := by
    decide +kernel
  have after : dropMark content'.toList = dropMark front.toList ++
      ((openTag "locationURI" ++ (escape u.render.toList ++ closeTag "locationURI")) ++
        "</link><".toList) := by
    decide +kernel
  have problems : textProblems keepsChildren (unresolvedTexts ("location" :: linkNames)
      (textEvents "/a&b".toList)) = gone := by decide +kernel
  rw [problems, ← before, ← after] at change
  have relocated : Relocations gone (dropMark content.toList) (dropMark content'.toList) :=
    Relocations.tail (.refl _) change
  exact ⟨u, accepted, unbroken, noDots unbroken, again (noDots unbroken), relocated,
    ofText_relocated.2 gone content content' relocated⟩

/-- A drive that is broken by a tab keeps dots behind it, and they are taken back where its URI is
    read.  A text that cannot be unescaped has a problem as a path, and a fault behind a URI is
    found later in the document. -/
theorem location_ne_locationURI :
    let linked (location back : String) :=
      "<projectDescription><linkedResources><link><name>a</name><type>2</type>" ++ location ++
        "</link></linkedResources>" ++ back
    let asPath (p back : String) := linked ("<location>" ++ p ++ "</location>") back
    let asUri (u : Uri) (back : String) := linked
      ("<locationURI>" ++ String.ofList (escape u.render.toList) ++ "</locationURI>") back
    (∃ u, Uri.ofLocalPath "/C:\t.." = .ok u ∧ Uri.ofText u.render ≠ .ok u ∧
      (ofText (asUri u "</projectDescription>")).description? ≠
        (ofText (asPath "/C:\t.." "</projectDescription>")).description?) ∧
    (∃ u, Uri.ofLocalPath "/a&b" = .ok u ∧
      (ofText (asPath "/a&b" "</projectDescription>")).problems =
        [.unresolvedText "location" (.unterminated 2 4)] ∧
      (ofText (asUri u "</projectDescription>")).problems = []) ∧
    (∃ u, Uri.ofLocalPath "/a" = .ok u ∧
      (ofText (asPath "/a" "<")).problems = [.malformed "projectDescription" 120 .tagNotClosed] ∧
      (ofText (asUri u "<")).problems = [.malformed "projectDescription" 133 .tagNotClosed]) := by
  intro linked asPath asUri
  -- A link at another place; a problem that goes with its text; and a position that moves.
  refine ⟨⟨.ofSegments ["C:".toList, "..".toList], ?_, ?_, ?_⟩,
    ⟨.ofSegments ["a&b".toList], ?_, ?_, ?_⟩, ⟨.ofSegments ["a".toList], ?_, ?_, ?_⟩⟩
  all_goals decide +kernel

end Reading

end ProjectFile
