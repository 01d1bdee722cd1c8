import ProjectFile.Proofs.Description.Entries
import ProjectFile.Proofs.Document.Normal

/-!
# Writing what has been read

Whatever a description is read from, even a broken document, it is in normal form: its texts are
trimmed, its arguments have values, and its links stand in the order of their paths.  So writing
it and reading it again changes nothing, and no problem is found but links without a type.

## Key results

- `Element.normalized_description`: a description that is read is in normal form
- `Reading.problems_document`: the problems of a document that is written from a description
- `Reading.ofText_document_of_read`: what is written of a description that was read
-/

namespace ProjectFile

open ProjectFile.Markup ProjectFile.Text

/-! ## What is read is in normal form -/

namespace Element

variable {e : Element} {name : String}

/-- The value of an element is trimmed. -/
private theorem trim_value (e : Element) : trim e.value = e.value :=
  trim_trim e.text

/-- A value that is given is trimmed. -/
private theorem trim_of_lastValue? {text : String} (h : e.lastValue? name = some text) :
    trim text = text := by
  obtain ⟨child, -, rfl⟩ := Option.map_eq_some_iff.1 h
  exact trim_value child

/-- A value is trimmed, given or not. -/
private theorem trim_lastValue (e : Element) (name : String) :
    trim (e.lastValue name) = e.lastValue name := by
  rw [lastValue]
  cases eq : e.lastValue? name with
  | none => decide
  | some text => exact trim_of_lastValue? eq

/-- All values are trimmed. -/
private theorem map_trim_values (e : Element) (name : String) :
    (e.values name).map trim = e.values name := by
  rw [values, List.map_map]
  apply List.map_congr_left
  intro child _
  exact trim_value child

/-- An argument that is read is in normal form. -/
private theorem normalEntry_setting {entry : String × Option String} (h : e.setting? = some entry) :
    normalEntry entry = entry := by
  unfold setting? at h
  split at h
  · obtain ⟨key, eq, rfl⟩ := Option.map_eq_some_iff.1 h
    simp only [normalEntry, Option.getD_some, trim_lastValue, trim_of_lastValue? eq]
  · simp at h

/-- A command that is read is in normal form. -/
private theorem normalized_command {c : BuildCommand} (h : e.command? = some c) :
    c.normalized = c := by
  unfold command? at h
  split at h
  · obtain ⟨name, eq, rfl⟩ := Option.map_eq_some_iff.1 h
    -- Entries that are normal keep their keys, so none takes the place of another.
    have entries : ∀ a : Arguments, (∀ entry ∈ a.entries, normalEntry entry = entry) →
        Arguments.ofList (a.entries.map normalEntry) = a := by
      intro a normal
      rw [List.map_congr_left normal, List.map_id'', Arguments.ofList_entries]
      exact fun _ => rfl
    rw [BuildCommand.normalized, trim_of_lastValue? eq, entries]
    intro entry mem
    obtain ⟨setting, -, eq⟩ := List.mem_filterMap.1 (Arguments.mem_of_mem_ofList mem)
    exact normalEntry_setting eq
  · simp at h

/-- A link that is read is in normal form. -/
private theorem normalized_link [Uri.DomainNames] {l : Link} (h : e.link = .ok l) :
    l.normalized = l := by
  unfold link at h
  split at h
  · simp at h
  · rename_i path eq
    split at h
    · simp at h
    · split at h
      · simp at h
      · rw [Except.ok.injEq] at h
        rw [← h, Link.normalized, trim_of_lastValue? eq]

/-- A filter that is read is in normal form. -/
private theorem normalized_filter (e : Element) : e.filter.normalized = e.filter := by
  have matchers : (e.last? "matcher").map (Matcher.normalized ∘ matcher) =
      (e.last? "matcher").map matcher := by
    cases e.last? "matcher" with
    | none => rfl
    | some m => simp [matcher, Matcher.normalized, trim_lastValue]
  simp only [filter, Filter.normalized, trim_lastValue, Option.map_map, matchers]

/-- If each list is in normal form, the one of the last container is. -/
private theorem map_fromLast {α : Type _} (root : Element) (name : String) {f : Element → List α}
    {normal : α → α} (fixed : ∀ e, (f e).map normal = f e) :
    (root.fromLast name f).map normal = root.fromLast name f := by
  unfold fromLast
  split
  · exact fixed _
  · rfl

/-- All links that are listed are in normal form. -/
private theorem normalized_of_mem_allLinks [Uri.DomainNames] {root : Element} {l : Link}
    (h : l ∈ root.allLinks) : l.normalized = l := by
  obtain ⟨container, -, h⟩ := List.mem_flatMap.1 h
  obtain ⟨element, -, eq⟩ := List.mem_filterMap.1 h
  cases read : element.link with
  | error p => simp [read, Except.toOption] at eq
  | ok link =>
    simp only [read, Except.toOption, Option.some.injEq] at eq
    exact eq ▸ normalized_link read

/-- A list of things in normal form is in normal form. -/
theorem map_eq_self_of_mem {α : Type _} {as : List α} {normal : α → α}
    (fixed : ∀ a ∈ as, normal a = a) : as.map normal = as := by
  rw [List.map_congr_left fixed, List.map_id']

/-- A description that is read is in normal form. -/
theorem normalized_description [Uri.DomainNames] (root : Element) :
    root.description.normalized = root.description := by
  have name : (((root.lastValue? "name").filter (· ≠ "")).map trim).filter (· ≠ "") =
      (root.lastValue? "name").filter (· ≠ "") := by
    cases eq : root.lastValue? "name" with
    | none => rfl
    | some text =>
      by_cases empty : text = ""
      · -- An empty name is no name, before and after.
        rw [empty]
        decide
      · have kept : (some text).filter (· ≠ "") = some text := by
          rw [Option.filter_some, if_pos (by simpa using empty)]
        rw [kept, Option.map_some, trim_of_lastValue? eq, kept]
  have projects := root.map_fromLast "projects" fun e => map_trim_values e "project"
  have natures := root.map_fromLast "natures" fun e => map_trim_values e "nature"
  have buildSpec : (root.fromLast "buildSpec" (·.children.filterMap command?)).map
      BuildCommand.normalized = root.fromLast "buildSpec" (·.children.filterMap command?) := by
    refine root.map_fromLast "buildSpec" fun e => map_eq_self_of_mem fun c mem => ?_
    obtain ⟨child, -, eq⟩ := List.mem_filterMap.1 mem
    exact normalized_command eq
  have filters : (root.fromLast "filteredResources" fun e => (e.named "filter").map filter).map
      Filter.normalized =
        root.fromLast "filteredResources" fun e => (e.named "filter").map filter := by
    refine root.map_fromLast "filteredResources" fun e => map_eq_self_of_mem fun f mem => ?_
    obtain ⟨child, -, rfl⟩ := List.mem_map.1 mem
    exact normalized_filter child
  have links : ∀ l ∈ (Links.empty.insertMany root.allLinks).toList, l.normalized = l := by
    intro l mem
    rcases Links.mem_of_mem_insertMany mem with mem | mem
    · simp [Links.empty] at mem
    · exact normalized_of_mem_allLinks mem
  -- Each field is in normal form, so all of them are.
  simp only [Description.normalized, description, name, trim_lastValue, projects, natures,
    buildSpec, filters, map_eq_self_of_mem links, Links.insertMany_toList]

end Element

/-- The description of a root is in normal form. -/
private theorem normalized_of_descriptionOf? [Uri.DomainNames] {root? : Option Element}
    {d : Description} (h : descriptionOf? root? = some d) : d.normalized = d := by
  obtain ⟨root, -, h⟩ := Option.bind_eq_some_iff.1 h
  split at h
  · rw [Option.some.injEq] at h
    exact h ▸ root.normalized_description
  · simp at h

/-! ## Problems of a written document -/

/-- The event of a text holds this text. -/
private theorem eq_of_mem_textEvents {raw raw' : List Char} (h : Event.text raw ∈ textEvents raw') :
    raw = raw' := by
  unfold textEvents at h
  split at h
  · simp at h
  · simpa using h

mutual

/-- The texts of a written part can be resolved, if those between its lines can. -/
theorem Node.resolve_of_mem_events {separator raw : List Char}
    (plain : ∀ c ∈ separator, c ≠ '&') (depth : Nat) (node : Node)
    (h : Event.text raw ∈ node.events separator depth) : ∃ text, resolve raw = .ok text := by
  match node with
  | .leaf name text =>
    simp only [Node.events, List.mem_cons, List.mem_append, reduceCtorEq, List.not_mem_nil,
      or_false, false_or] at h
    rw [eq_of_mem_textEvents h]
    exact ⟨_, resolve_escape _⟩
  | .block name children =>
    simp only [Node.events, List.mem_cons, List.mem_append, reduceCtorEq, List.not_mem_nil,
      or_false, false_or] at h
    rcases h with h | h
    · exact Node.resolve_of_mem_allEvents plain (depth + 1) children h
    · rw [eq_of_mem_textEvents h]
      exact ⟨_, resolve_of_plain (forall_mem_gap plain (by decide) depth)⟩

/-- The texts of written parts can be resolved, if those between their lines can. -/
theorem Node.resolve_of_mem_allEvents {separator raw : List Char}
    (plain : ∀ c ∈ separator, c ≠ '&') (depth : Nat) (nodes : List Node)
    (h : Event.text raw ∈ Node.allEvents separator depth nodes) :
    ∃ text, resolve raw = .ok text := by
  match nodes with
  | [] => simp [Node.allEvents] at h
  | node :: rest =>
    rw [Node.allEvents, List.mem_append, List.mem_append] at h
    rcases h with (h | h) | h
    · rw [eq_of_mem_textEvents h]
      exact ⟨_, resolve_of_plain (forall_mem_gap plain (by decide) depth)⟩
    · exact Node.resolve_of_mem_events plain depth node h
    · exact Node.resolve_of_mem_allEvents plain depth rest h

end

/-- Every text of a written document can be resolved, if the separator has no reference. -/
private theorem unresolvedTexts_document (d : Description) {separator : List Char}
    (plain : ∀ c ∈ separator, c ≠ '&') : unresolvedTexts [] (d.events separator) = [] := by
  apply unresolvedTexts_eq_nil
  intro raw h
  simp only [Description.events, List.mem_cons, List.mem_append, reduceCtorEq, false_or] at h
  rcases h with h | h | h
  · rw [eq_of_mem_textEvents h]
    exact ⟨_, resolve_of_plain plain⟩
  · exact Node.resolve_of_mem_events plain 0 d.node h
  · rw [eq_of_mem_textEvents h]
    exact ⟨_, resolve_of_plain plain⟩

/-- Links whose paths differ do not take the place of one another. -/
private theorem duplicateProblems_eq_nil {links : List Link} {set : Links}
    (fresh : ∀ l ∈ links, set.get? l.path = none) (sorted : links.Pairwise Link.Before) :
    duplicateProblems set links = [] := by
  -- Each link is set behind those before it, and no later one has its path.
  induction links generalizing set with
  | nil => rfl
  | cons link rest ih =>
    rw [List.pairwise_cons] at sorted
    have later : duplicateProblems (set.insert link) rest = [] := by
      refine ih ?_ sorted.2
      intro l h
      have other : ¬ l.path = link.path := by
        intro same
        have before : link.path < l.path := sorted.1 l h
        rw [same] at before
        exact String.lt_irrefl _ before
      rw [Links.get?_insert, if_neg other]
      exact fresh l (by simp [h])
    rw [duplicateProblems, later, fresh link (by simp)]
    rfl

/-- The links of a description in normal form have trimmed paths: they are set with trimmed
    paths. -/
private theorem normalized_of_mem_links {d : Description} (normal : d.normalized = d) {l : Link}
    (h : l ∈ d.links.toList) : l.normalized = l := by
  rw [← normal] at h
  rcases Links.mem_of_mem_insertMany h with h | h
  · simp [Links.empty] at h
  · obtain ⟨link, -, rfl⟩ := List.mem_map.1 h
    simp [Link.normalized]

namespace Reading

section

variable [Uri.DomainNames]

/-- The problems of a document that is written from a description in normal form: one for each
    link without a type. -/
theorem problems_document {d : Description} {s : String} (markup : ∀ c ∈ s.toList, c ≠ '<')
    (references : ∀ c ∈ s.toList, c ≠ '&') (normal : d.normalized = d)
    (stable : ∀ l ∈ d.links.toList, l.location.writtenPath? = none →
      Uri.parse l.location.render = .ok l.location) :
    (ofText (d.document s)).problems =
      (d.links.toList.filter (·.type?.isNone)).map fun l => .badType l.path "" := by
  have links : (d.links.toList.filterMap fun l => l.reread.toOption) = d.links.toList := by
    have each : ∀ l ∈ d.links.toList, l.reread.toOption = some l := by
      intro l h
      rw [Link.reread_eq_normalized (stable l h), normalized_of_mem_links normal h]
      rfl
    rw [List.filterMap_congr each, List.filterMap_some]
  have duplicates : duplicateProblems .empty d.links.toList = [] :=
    duplicateProblems_eq_nil (fun _ _ => rfl) d.links.sorted
  have paths : ((d.links.toList.filter (·.type?.isNone)).map fun l =>
      Problem.badType (trim l.path) "") =
      (d.links.toList.filter (·.type?.isNone)).map fun l => .badType l.path "" := by
    apply List.map_congr_left
    intro l h
    have path := congrArg Link.path (normalized_of_mem_links normal (List.mem_filter.1 h).1)
    rw [show trim l.path = l.path from path]
  -- The texts and the end of the document have no problem; only those of links are left.
  rw [problems_ofText, notesOn_document markup, links, duplicates, flatMap_rereadProblems stable,
    paths, scan_document d markup, unresolvedTexts_document d references, openNames_events]
  simp [textProblems, endProblems, List.filterMap_map, Function.comp_def, Note.problem?]

/-- What is written of a description that was read, from whatever document, reads as the same
    description. -/
theorem description?_document_of_read {content separator : String} {d : Description}
    (read : (ofText content).description? = some d) (markup : ∀ c ∈ separator.toList, c ≠ '<')
    (stable : ∀ l ∈ d.links.toList, l.location.writtenPath? = none →
      Uri.parse l.location.render = .ok l.location) :
    (ofText (d.document separator)).description? = some d := by
  rw [description?_ofText] at read
  rw [description?_ofText, descriptionOf?_document markup, Description.reread_eq_normalized stable,
    normalized_of_descriptionOf? read]

/-- What is written of a description that was read, from whatever document, reads as the same
    description; it is written in the same way again, and has no problem but links without a
    type. -/
theorem ofText_document_of_read (content separator : String) (d : Description)
    (read : (ofText content).description? = some d)
    (plain : ∀ c ∈ separator.toList, c ≠ '<' ∧ c ≠ '&')
    (stable : ∀ l ∈ d.links.toList, l.location.writtenPath? = none →
      Uri.parse l.location.render = .ok l.location) :
    (ofText (d.document separator)).description? = some d ∧
      (ofText (d.document separator)).description?.map (·.document separator) =
        some (d.document separator) ∧
      (ofText (d.document separator)).problems =
        (d.links.toList.filter (·.type?.isNone)).map fun l => .badType l.path "" := by
  -- What was read is in normal form, so writing it loses nothing.
  have normal : d.normalized = d := by
    rw [description?_ofText] at read
    exact normalized_of_descriptionOf? read
  have markup : ∀ c ∈ separator.toList, c ≠ '<' := fun c h => (plain c h).1
  have same := description?_document_of_read read markup stable
  refine ⟨same, ?_, ?_⟩
  · rw [same, Option.map_some]
  · exact problems_document markup (fun c h => (plain c h).2) normal stable

end

/-- A document that breaks off inside of a link without a type, with a reference that is not
    closed. -/
theorem ofText_document_of_read_broken :
    let content := "<projectDescription><linkedResources><link><name>a</name><locationURI>x:&"
    let d : Description :=
      { links := Links.empty.insert
          { path := "a", location := { scheme := "x", path := .rootless "&" } } }
    ((ofText content).description? = some d ∧ (∀ c ∈ "\n".toList, c ≠ '<' ∧ c ≠ '&') ∧
      ∀ l ∈ d.links.toList, l.location.writtenPath? = none →
        Uri.parse l.location.render = .ok l.location) ∧
    (ofText (d.document "\n")).description? = some d ∧
      (ofText (d.document "\n")).problems = [.badType "a" ""] := by
  intro content d
  have read : (ofText content).description? = some d := by decide +kernel
  have plain : ∀ c ∈ "\n".toList, c ≠ '<' ∧ c ≠ '&' := by simp
  have stable : ∀ l ∈ d.links.toList, l.location.writtenPath? = none →
      Uri.parse l.location.render = .ok l.location := by
    intro l h _
    rw [List.mem_singleton.1 h]
    decide
  obtain ⟨same, -, problems⟩ := ofText_document_of_read content "\n" d read plain stable
  exact ⟨⟨read, plain, stable⟩, same, problems⟩

end Reading

end ProjectFile
