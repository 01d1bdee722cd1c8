import Mathlib.Data.List.Forall2
import ProjectFile.Proofs.Reading.Accounting
import ProjectFile.Proofs.Reading.Last
import ProjectFile.Proofs.Reading.Subjects
import ProjectFile.Proofs.Text.Decimal

/-!
# What becomes of the links that a document lists

Each element that lists a link has a fate: a link is kept of it, with its type or without one, or
it is dropped.  The last name, the last location in either form and the last type decide, in
whatever order they stand.  A link that is dropped has one problem, and so has one that is kept
without a type.

The links that are kept are set one after the other.  A link that takes the place of an earlier
one is recorded as well, so the elements that list links are accounted for by the links of the
description and the problems of links.

## Key results

- `Element.link_eq_ok_iff`, `Element.exists_link_eq_error_iff`: which link is kept, and when none
- `Element.hasFate`: what becomes of an element that lists a link
- `Reading.links_ofText`: what becomes of all of them, and how they are accounted for
-/

namespace ProjectFile

open ProjectFile.Text ProjectFile.Markup

/-- What becomes of an element that lists a link: the problems that it has, and the link that is
    kept of it. -/
structure LinkFate where
  problems : List Problem
  kept? : Option Link

namespace Element

/-! ## Locations and types -/

/-- An element holds a location, as a local path or as a URI. -/
def HoldsLocation (e : Element) : Prop :=
  e.name = "location" ∨ e.name = "locationURI"

instance (e : Element) : Decidable e.HoldsLocation :=
  inferInstanceAs (Decidable (_ ∨ _))

/-- What the location that an element holds is read as, which depends on its form. -/
def ReadsLocation [Uri.DomainNames] (e : Element) (result : Except LocationFault Uri) : Prop :=
  (e.name = "location" ∧ Uri.ofLocalPath e.value = result) ∨
    (e.name = "locationURI" ∧ Uri.ofText e.value = result)

variable {e holder : Element}

/-- What a location is read as, by its form. -/
private theorem location_eq_iff [Uri.DomainNames] (holds : holder.HoldsLocation)
    {result : Except LocationFault Uri} :
    holder.location = result ↔ holder.ReadsLocation result := by
  rcases holds with name | name
  · simp [location, ReadsLocation, name]
  · simp [location, ReadsLocation, name]

/-- The two forms of a location are told by their names. -/
private theorem isLocation_eq_decide : isLocation = fun e => decide e.HoldsLocation := by
  funext e
  rw [Bool.eq_iff_iff, decide_eq_true_iff]
  simp [isLocation, HoldsLocation]

/-- The last location in either form. -/
private theorem lastLocation_eq_some_iff :
    (e.children.filter isLocation).getLast? = some holder ↔
      IsLast HoldsLocation e.children holder := by
  rw [isLocation_eq_decide, getLast?_filter_eq_some_iff]

/-- There is no last location exactly if no child holds one. -/
private theorem lastLocation_eq_none_iff :
    (e.children.filter isLocation).getLast? = none ↔ ∀ c ∈ e.children, ¬ c.HoldsLocation := by
  rw [isLocation_eq_decide, getLast?_filter_eq_none_iff]

/-- A number is that of one type at the most. -/
private theorem ofCode?_eq_some_iff {n : Nat} {type : ResourceType} :
    ResourceType.ofCode? n = some type ↔ n = type.code := by
  constructor
  · intro h
    unfold ResourceType.ofCode? at h
    split at h
    · cases h
      rfl
    · cases h
      rfl
    · cases h
  · rintro rfl
    exact ResourceType.ofCode?_code type

/-- A text is read as a type exactly if it spells the number of the type. -/
private theorem typeOfText?_eq_some_iff {text : String} {type : ResourceType} :
    typeOfText? text = some type ↔ SpellsDecimal text.toList type.code := by
  have small : type.code < wordBound := by cases type <;> decide
  rw [typeOfText?, Option.bind_eq_some_iff]
  simp only [unsigned?_eq_some_iff (show 0 < wordBound by decide), ofCode?_eq_some_iff]
  constructor
  · rintro ⟨n, ⟨spells, -⟩, rfl⟩
    exact spells
  · intro spells
    exact ⟨_, ⟨spells, small⟩, rfl⟩

/-- Nothing spells no number. -/
private theorem not_spellsDecimal_nil (n : Nat) : ¬ SpellsDecimal [] n := by
  rintro ⟨digits, eq | eq, nonempty, -⟩
  · exact nonempty eq.symm
  · simp at eq

/-- The type of a link is spelled by the last type that is there. -/
private theorem typeOfText?_lastValue_eq_some_iff {type : ResourceType} :
    typeOfText? (e.lastValue "type") = some type ↔
      ∃ t, IsLast (·.name = "type") e.children t ∧ SpellsDecimal t.value.toList type.code := by
  rw [typeOfText?_eq_some_iff, lastValue]
  cases found : e.lastValue? "type" with
  -- Without a type the empty text is read, which spells no number.
  | none =>
    have untyped := lastValue?_eq_none_iff.1 found
    constructor
    · intro spells
      exact absurd spells (not_spellsDecimal_nil _)
    · rintro ⟨t, last, -⟩
      exact absurd last.holds (untyped t last.mem)
  | some text =>
    obtain ⟨t, last, rfl⟩ := lastValue?_eq_some_iff.1 found
    constructor
    · intro spells
      exact ⟨t, last, spells⟩
    · rintro ⟨t', last', spells⟩
      rwa [Option.getD_some, last.unique last']

/-! ## One link -/

section

variable [Uri.DomainNames]

/-- An element gives a link exactly if it has a name, and the last location in it is one. -/
theorem link_eq_ok_iff {link : Link} :
    e.link = .ok link ↔
      (∃ n, IsLast (·.name = "name") e.children n ∧ n.value = link.path) ∧
      (∃ holder, IsLast HoldsLocation e.children holder ∧
        holder.ReadsLocation (.ok link.location)) ∧
      typeOfText? (e.lastValue "type") = link.type? := by
  unfold Element.link
  -- The last children are stated as the function looks them up, and then it is followed case by
  -- case.
  rw [← lastValue?_eq_some_iff]
  simp only [← lastLocation_eq_some_iff]
  split
  · rename_i nameless
    simp [nameless]
  · rename_i path named
    split
    · rename_i nowhere
      simp [nowhere]
    · rename_i holder located
      have holds := (lastLocation_eq_some_iff.1 located).holds
      simp only [located, Option.some.injEq, exists_eq_left', ← location_eq_iff holds, named]
      split
      · rename_i fault fails
        simp [fails]
      · rename_i location resolves
        simp only [resolves, Except.ok.injEq]
        constructor
        · rintro rfl
          exact ⟨rfl, rfl, rfl⟩
        · rintro ⟨rfl, rfl, type⟩
          rw [type]

/-- An element gives no link: it has no name or no location, or the last location in it is
    none. -/
def GivesNoLink (e : Element) : Prop :=
  (∀ c ∈ e.children, c.name ≠ "name") ∨ (∀ c ∈ e.children, ¬ c.HoldsLocation) ∨
    ∃ holder fault, IsLast HoldsLocation e.children holder ∧ holder.ReadsLocation (.error fault)

/-- A link is dropped exactly if the element gives no link. -/
theorem exists_link_eq_error_iff : (∃ p, e.link = .error p) ↔ e.GivesNoLink := by
  unfold Element.link GivesNoLink
  rw [← lastValue?_eq_none_iff, ← lastLocation_eq_none_iff]
  simp only [← lastLocation_eq_some_iff]
  split
  · rename_i nameless
    simp [nameless]
  · rename_i path named
    split
    · rename_i nowhere
      simp [nowhere]
    · -- There is a path and a location, so only the location can fail.
      rename_i holder located
      have holds := (lastLocation_eq_some_iff.1 located).holds
      simp only [named, located, Option.some.injEq, exists_and_left, exists_eq_left',
        ← location_eq_iff holds, reduceCtorEq, false_or]
      split
      · rename_i fault fails
        simp [fails]
      · rename_i location resolves
        simp [resolves]

/-- The problem of an element that gives no link names that element. -/
private theorem element_of_link_eq_error {p : Problem} (h : e.link = .error p) :
    p.element = "link" := by
  unfold Element.link at h
  split at h
  · cases h
    rfl
  · split at h
    · cases h
      rfl
    · split at h
      · cases h
        rfl
      · simp at h

/-! ## Fates -/

/-- What an element that lists a link is read as. -/
def fate (e : Element) : LinkFate where
  problems := e.linkProblems
  kept? := e.link.toOption

/-- What becomes of an element that lists a link: it is dropped, or a link is kept of it. -/
structure HasFate (e : Element) (f : LinkFate) : Prop where
  dropped_iff : f.kept? = none ↔ e.GivesNoLink
  problem_of_dropped : f.kept? = none → ∃ p, f.problems = [p] ∧ p.element = "link"
  path : ∀ link, f.kept? = some link →
    ∃ n, IsLast (·.name = "name") e.children n ∧ n.value = link.path
  location : ∀ link, f.kept? = some link →
    ∃ holder, IsLast HoldsLocation e.children holder ∧ holder.ReadsLocation (.ok link.location)
  type_iff : ∀ link, f.kept? = some link → ∀ type, link.type? = some type ↔
    ∃ t, IsLast (·.name = "type") e.children t ∧ SpellsDecimal t.value.toList type.code
  problem_of_untyped : ∀ link, f.kept? = some link → link.type? = none →
    ∃ p, f.problems = [p] ∧ p.element = "link/type"
  no_problem_of_typed : ∀ link, f.kept? = some link → link.type? ≠ none → f.problems = []

/-- What an element that lists a link is read as is its fate. -/
theorem hasFate (e : Element) : e.HasFate e.fate := by
  have dropped : (∃ p, e.link = .error p) ↔ e.GivesNoLink := exists_link_eq_error_iff
  unfold fate linkProblems
  cases result : e.link with
  -- The element gives no link, so what is said of its link holds of none.
  | error p =>
    rw [result] at dropped
    have nothing : ∀ link, Except.toOption (.error p : Except Problem Link) ≠ some link :=
      fun _ => Option.some_ne_none _ |>.symm
    exact
      { dropped_iff := ⟨fun _ => dropped.1 ⟨p, rfl⟩, fun _ => rfl⟩
        problem_of_dropped := fun _ => ⟨p, rfl, element_of_link_eq_error result⟩
        path := fun link kept => absurd kept (nothing link)
        location := fun link kept => absurd kept (nothing link)
        type_iff := fun link kept => absurd kept (nothing link)
        problem_of_untyped := fun link kept => absurd kept (nothing link)
        no_problem_of_typed := fun link kept => absurd kept (nothing link) }
  -- The element gives a link, and its type decides about the problem.
  | ok link =>
    rw [result] at dropped
    obtain ⟨path, location, type⟩ := link_eq_ok_iff.1 result
    have kept : ∀ other, Except.toOption (.ok link : Except Problem Link) = some other →
        other = link := fun other eq => (Option.some.inj eq).symm
    refine
      { dropped_iff := ⟨nofun, fun none => ?_⟩
        problem_of_dropped := nofun
        path := fun other eq => kept other eq ▸ path
        location := fun other eq => kept other eq ▸ location
        type_iff := fun other eq => ?_
        problem_of_untyped := fun other eq untyped => ?_
        no_problem_of_typed := fun other eq typed => ?_ }
    · obtain ⟨p, ⟨⟩⟩ := dropped.2 none
    · intro t
      rw [kept other eq, ← type]
      exact typeOfText?_lastValue_eq_some_iff
    · rw [kept other eq] at untyped
      exact ⟨_, if_pos untyped, rfl⟩
    · rw [kept other eq] at typed
      exact if_neg typed

/-- An element is accounted for by its link, or by a problem that names the element. -/
private theorem HasFate.accounted {f : LinkFate} (h : e.HasFate f) :
    f.kept?.toList.length + f.problems.countP (·.element = "link") = 1 := by
  cases kept : f.kept? with
  | none =>
    obtain ⟨p, eq, element⟩ := h.problem_of_dropped kept
    simp [eq, element]
  | some link =>
    -- The problem of a type that is missing names the type, not the element.
    by_cases type : link.type? = none
    · obtain ⟨p, eq, element⟩ := h.problem_of_untyped link kept type
      simp [eq, element]
    · simp [h.no_problem_of_typed link kept type]

end

end Element

/-! ## All links of a document -/

/-- Of the problems that name the element of a link, those of elements that list links are about
    the element, and the others are about a link that takes the place of an earlier one. -/
private theorem Problem.names_link_iff (p : Problem) :
    (p.subject ≠ .document ∧ p.element = "link") ↔
      (p.subject = .link ∧ p.element = "link") ∨ p.subject = .duplicate := by
  -- The problems of build commands name their elements by a path that starts otherwise.
  have inside : ∀ container name : String, container.toList.head? ≠ some 'l' →
      container.toList ≠ [] → container ++ name ≠ "link" := by
    intro container name other nonempty eq
    have := congrArg (fun s => s.toList.head?) eq
    rw [String.toList_append, List.head?_append_of_ne_nil _ nonempty] at this
    exact other this
  cases p with
  | notACommand name => simp [subject, element, inside "buildSpec/" name (by decide) (by decide)]
  | strayArgument name => simp [subject, element, inside "arguments/" name (by decide) (by decide)]
  | _ => simp [subject, element]

/-- Of the problems that name the element of a link, those of links and those of duplicates. -/
private theorem countP_names_link (ps : List Problem) :
    (ps.countP fun p => p.subject ≠ .document ∧ p.element = "link") =
      (ps.filter (·.subject = .link)).countP (·.element = "link") +
        (ps.filter (·.subject = .duplicate)).length := by
  simp only [Problem.names_link_iff]
  induction ps with
  | nil => rfl
  | cons p ps ih =>
    rw [List.countP_cons, ih]
    -- A problem has one subject, so it is counted once.
    by_cases link : p.subject = .link
    · by_cases named : p.element = "link"
      · simp [link, named]
        omega
      · simp [link, named]
    · by_cases duplicate : p.subject = .duplicate
      · simp [duplicate]
        omega
      · simp [link, duplicate]

/-- Elements are accounted for by the links that are kept and the problems that name them. -/
private theorem length_of_fates [Uri.DomainNames] {es : List Element} {fates : List LinkFate}
    (h : List.Forall₂ Element.HasFate es fates) :
    es.length = (fates.filterMap LinkFate.kept?).length +
      (fates.flatMap LinkFate.problems).countP (·.element = "link") := by
  -- One element is accounted for at a time, along with its fate.
  induction h with
  | nil => rfl
  | @cons e f es fates fate _ ih =>
    have one := fate.accounted
    rw [List.length_cons, ih, List.filterMap_cons, List.flatMap_cons, List.countP_append]
    cases kept : f.kept? with
    | none =>
      rw [kept, Option.toList_none, List.length_nil] at one
      simp only
      omega
    | some link =>
      rw [kept, Option.toList_some, List.length_singleton] at one
      simp only [List.length_cons]
      omega

namespace Reading

/-- The elements of a document that list links, in order, have fates that are all there is to the
    links of the description and to the problems of links.  Each element is accounted for: by a
    link of the description, or by a problem of the element or of a link that takes the place of
    its link. -/
theorem links_ofText [Uri.DomainNames] (content : String) (root : Element)
    (read : (Tree.whole (scan content.toList)).root? = some root)
    (name : root.name = "projectDescription") :
    ∃ (d : Description) (fates : List LinkFate),
      (ofText content).description? = some d ∧
      List.Forall₂ Element.HasFate (root.listed "linkedResources" "link") fates ∧
      d.links = Links.empty.insertMany (fates.filterMap LinkFate.kept?) ∧
      (ofText content).problems.filter (·.subject = .link) = fates.flatMap LinkFate.problems ∧
      (root.listed "linkedResources" "link").length = d.links.size +
        (ofText content).problems.countP
          fun p => p.subject ≠ .document ∧ p.element = "link" := by
  have fates : List.Forall₂ Element.HasFate (root.listed "linkedResources" "link")
      ((root.listed "linkedResources" "link").map Element.fate) := by
    rw [List.forall₂_map_right_iff, List.forall₂_same]
    exact fun e _ => e.hasFate
  have kept : ((root.listed "linkedResources" "link").map Element.fate).filterMap
      LinkFate.kept? = root.allLinks := by
    rw [List.filterMap_map, Element.listed, List.filterMap_flatMap]
    rfl
  have problems : (ofText content).problems.filter (·.subject = .link) =
      ((root.listed "linkedResources" "link").map Element.fate).flatMap LinkFate.problems := by
    rw [filter_subject_problems read name (by decide), List.flatMap_map, Element.listed,
      List.flatMap_assoc]
    rfl
  have duplicates : (ofText content).problems.filter (·.subject = .duplicate) =
      duplicateProblems .empty root.allLinks := by
    rw [filter_subject_problems read name (by decide)]
    rfl
  refine ⟨root.description, _, ?_, fates, ?_, problems, ?_⟩
  · rw [description?_ofText, read, descriptionOf?, Option.bind_some, if_pos name]
  · rw [kept]
    rfl
  · -- The links that are kept are set one by one, and each that is set is one more or a duplicate.
    have set := Links.size_insertMany_add_length .empty root.allLinks
    have listed := length_of_fates fates
    have size : root.description.links.size = (Links.empty.insertMany root.allLinks).size := rfl
    have none : Links.empty.size = 0 := rfl
    rw [kept] at listed
    rw [countP_names_link, problems, duplicates]
    omega

/-- Two links with one path are listed; the second one takes the place of the first. -/
theorem links_ofText_replaced :
    let content := "<projectDescription><linkedResources><link><name>a</name><location>/b" ++
      "</location></link><link><location>/c</location><name> a </name><type>+02</type></link>" ++
      "</linkedResources></projectDescription>"
    ∃ root d, (Tree.whole (scan content.toList)).root? = some root ∧
      root.name = "projectDescription" ∧ (ofText content).description? = some d ∧
      (root.listed "linkedResources" "link").length = d.links.size +
        (ofText content).problems.countP
          fun p => p.subject ≠ .document ∧ p.element = "link" := by
  intro content
  have rootName : (Tree.whole (scan content.toList)).root?.map Element.name =
      some "projectDescription" := by decide +kernel
  obtain ⟨root, read, name⟩ := Option.map_eq_some_iff.1 rootName
  obtain ⟨d, -, description, -, -, -, accounted⟩ := links_ofText content root read name
  exact ⟨root, d, read, name, description, accounted⟩

end Reading

end ProjectFile
