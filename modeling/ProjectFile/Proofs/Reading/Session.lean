import ProjectFile.Reading.Reader

/-!
# One reader over many documents

A reader reads one source after the other.  What it makes of a source does not depend on those
before it: a source with a text is read as a new reader reads it, and its problems are then all
that the reader holds.  A source without a text gives a fault and changes nothing.  So at the end
the reader holds the problems of the last source with a text.

## Key results

- `Source.text_of_failure`, `Source.text_of_invalid`, `Source.text_of_bytes`: what a source gives
- `Reader.problems_foldl_record`: notes are recorded one after the other, behind what is there
- `Reader.read_of_text`, `Reader.read_of_fault`: one step of a run
- `Reader.problems_afterAll`: what is held after a run
- `Reader.readAll_isolated`: every step of a run, and its end
-/

namespace ProjectFile

/-! ## What a source gives -/

namespace Source

variable {s : Source}

/-- A source that fails gives no text, whatever the bytes before that are. -/
theorem text_of_failure {reason : String} (h : s.failure? = some reason) :
    s.text = .error (.failed reason) := by
  rw [text, h]

/-- A source that is read to its end but is not UTF-8 is no text. -/
theorem text_of_invalid (whole : s.failure? = none) (h : ¬ s.bytes.IsValidUTF8) :
    s.text = .error .notText := by
  rw [text, whole, String.fromUTF8?, dif_neg h]

/-- A source that gives the bytes of a text gives that text. -/
theorem text_of_bytes {text : String} (whole : s.failure? = none) (h : s.bytes = text.toUTF8) :
    s.text = .ok text := by
  have valid : s.bytes.IsValidUTF8 := h ▸ text.isValidUTF8
  have same : String.fromUTF8 s.bytes valid = text := String.toByteArray_inj.1 h
  rw [Source.text, whole, String.fromUTF8?, dif_pos valid, same]

/-- The source of a text gives that text. -/
private theorem text_ofText (text : String) : (ofText text).text = .ok text :=
  text_of_bytes rfl rfl

end Source

namespace Reader

/-! ## Recording -/

/-- A note adds its problem at the end, if it is one. -/
private theorem problems_record (r : Reader) (n : Note) :
    (r.record n).problems = r.problems ++ n.problem?.toList := by
  unfold record
  cases n.problem? with
  | none => exact (List.append_nil _).symm
  | some p => exact List.reverse_cons

/-- What is recorded stands behind what was there, in its order. -/
theorem problems_foldl_record (r : Reader) (notes : List Note) :
    (notes.foldl record r).problems = r.problems ++ notes.filterMap Note.problem? := by
  induction notes generalizing r with
  | nil => exact (List.append_nil _).symm
  | cons n rest ih =>
    rw [List.foldl_cons, ih, problems_record, List.append_assoc, List.filterMap_cons]
    cases n.problem? <;> rfl

/-! ## One document -/

variable {s : Source}

section

variable [Uri.DomainNames]

/-- What comes of a text, and what is held then, is the same for every reader. -/
theorem next_of_text {text : String} (h : s.text = .ok text) :
    ∃ after : Reader, after.problems = (Reading.ofText text).problems ∧
      ∀ r : Reader, r.next s = (after, .ok (Reading.ofText text)) := by
  refine ⟨(Reading.ofText text).notes.foldl record {}, problems_foldl_record _ _, fun r => ?_⟩
  rw [next, Reading.ofSource, h]

/-- A source without a text gives its fault, and the reader stays as it is. -/
theorem next_of_fault {cause : SourceFault} (h : s.text = .error cause) (r : Reader) :
    r.next s = (r, .error ⟨cause⟩) := by
  rw [next, Reading.ofSource, h]

/-- A text is read in the same way by all readers, and then its problems are all that is held. -/
theorem read_of_text {text : String} (h : s.text = .ok text) :
    ∃ after : Reader, after.problems = (Reading.ofText text).problems ∧
      ∀ r : Reader, r.read s = (after, .ok (Reading.ofText text).description?) := by
  obtain ⟨after, problems, next⟩ := next_of_text h
  refine ⟨after, problems, fun r => ?_⟩
  rw [read, next]
  rfl

/-- The fault of a source is what its read gives. -/
theorem read_of_fault {cause : SourceFault} (h : s.text = .error cause) (r : Reader) :
    r.read s = (r, .error ⟨cause⟩) := by
  rw [read, next_of_fault h]
  rfl

/-! ## A run -/

/-- Each source has its step. -/
private theorem length_readAll (r : Reader) (sources : List Source) :
    (r.readAll sources).length = sources.length := by
  induction sources generalizing r with
  | nil => rfl
  | cons s rest ih => rw [readAll, List.length_cons, List.length_cons, ih]

/-- A run over two lists is a run over one and then over the other. -/
private theorem afterAll_append (r : Reader) (earlier later : List Source) :
    r.afterAll (earlier ++ later) = (r.afterAll earlier).afterAll later := by
  rw [afterAll, List.foldl_append]
  rfl

/-- A step of a run is one read, by the reader as it is after the sources before. -/
private theorem getElem?_readAll (r : Reader) (earlier : List Source) (s : Source)
    (later : List Source) :
    (r.readAll (earlier ++ s :: later))[earlier.length]? = some ((r.afterAll earlier).read s) := by
  induction earlier generalizing r with
  | nil => rfl
  | cons first rest ih =>
    rw [List.cons_append, readAll, List.length_cons, List.getElem?_cons_succ, ih]
    rfl

/-- The problems held after a run are those of the last source with a text. -/
theorem problems_afterAll (r : Reader) (sources : List Source) :
    (r.afterAll sources).problems =
      ((sources.filterMap fun s => s.text.toOption).getLast?.map fun text =>
        (Reading.ofText text).problems).getD r.problems := by
  induction sources generalizing r with
  | nil => rfl
  | cons s rest ih =>
    rw [show r.afterAll (s :: rest) = (r.read s).1.afterAll rest from rfl, ih]
    cases h : s.text with
    | error cause =>
      -- Nothing is recorded, and the source is none of those with a text.
      rw [read_of_fault h, List.filterMap_cons_none (by rw [h]; rfl)]
    | ok text =>
      obtain ⟨after, problems, read⟩ := read_of_text h
      -- This text counts, unless a later one does.
      rw [read, problems, List.filterMap_cons_some (b := text) (by rw [h]; rfl), List.getLast?_cons]
      cases (rest.filterMap fun s => s.text.toOption).getLast? <;> rfl

/-- Each read of a run by one reader: a source that fails, or has no text, gives its fault, the
    failure before the other, and leaves what is held; a text is read as by a new reader, whose
    problems are then held.  After the run the problems are those of the last text, or none. -/
theorem readAll_isolated (sources : List Source) :
    (({} : Reader).readAll sources).length = sources.length ∧
    (∀ earlier s later, sources = earlier ++ s :: later →
      let before := ({} : Reader).afterAll earlier
      ∃ after result, (({} : Reader).readAll sources)[earlier.length]? = some (after, result) ∧
        after = ({} : Reader).afterAll (earlier ++ [s]) ∧
        (∀ reason, s.failure? = some reason →
          result = .error ⟨.failed reason⟩ ∧ after.problems = before.problems) ∧
        (s.failure? = none → ¬ s.bytes.IsValidUTF8 →
          result = .error ⟨.notText⟩ ∧ after.problems = before.problems) ∧
        (∀ text : String, s.failure? = none → s.bytes = text.toUTF8 →
          (after, result) = ({} : Reader).read s ∧
            result = .ok (Reading.ofText text).description? ∧
            after.problems = (Reading.ofText text).problems)) ∧
    (({} : Reader).afterAll sources).problems =
      ((sources.filterMap fun s => s.text.toOption).getLast?.map fun text =>
        (Reading.ofText text).problems).getD [] := by
  refine ⟨length_readAll _ _, ?_, problems_afterAll _ _⟩
  rintro earlier s later rfl
  intro before
  -- The step of a source is the read of the reader that the earlier ones leave.
  refine ⟨(before.read s).1, (before.read s).2, getElem?_readAll _ _ _ _, ?_, ?_, ?_, ?_⟩
  · rw [afterAll_append]
    rfl
  · intro reason failed
    rw [read_of_fault (Source.text_of_failure failed)]
    exact ⟨rfl, rfl⟩
  · intro whole invalid
    rw [read_of_fault (Source.text_of_invalid whole invalid)]
    exact ⟨rfl, rfl⟩
  · intro text whole bytes
    obtain ⟨after, problems, read⟩ := read_of_text (Source.text_of_bytes whole bytes)
    rw [read, read]
    exact ⟨rfl, rfl, problems⟩

end

/-- A document with a problem, a source that fails after what is no text, one that just is no text,
    and a document with another root. -/
theorem readAll_isolated_mixed :
    let bad := "<projectDescription><buildSpec><a/></buildSpec></projectDescription>"
    let sources : List Source :=
      [.ofText bad, { bytes := ⟨#[0xff]⟩, failure? := some "disk on fire" }, { bytes := ⟨#[0xff]⟩ },
        .ofText "<b>"]
    let steps := ({} : Reader).readAll sources
    (∃ after, steps[1]? = some (after, .error ⟨.failed "disk on fire"⟩) ∧
        after.problems = [.notACommand "a"]) ∧
      (∃ after, steps[2]? = some (after, .error ⟨.notText⟩) ∧
        after.problems = [.notACommand "a"]) ∧
      ∃ after, steps[3]? = some (after, .ok none) ∧ after.problems = [.unclosed "b"] := by
  intro bad sources steps
  have first : (Reading.ofText bad).problems = [.notACommand "a"] := by decide +kernel
  have last : (Reading.ofText "<b>").problems = [.unclosed "b"] := by decide +kernel
  have nothing : (Reading.ofText "<b>").description? = none := by decide +kernel
  have held : (({} : Reader).afterAll [.ofText bad]).problems = [.notACommand "a"] := by
    rw [problems_afterAll, List.filterMap_cons_some (by rw [Source.text_ofText]; rfl)]
    exact first
  have invalid : ¬ (⟨#[0xff]⟩ : ByteArray).IsValidUTF8 := by decide +kernel
  have run := (readAll_isolated sources).2.1
  obtain ⟨after₁, _, step₁, now₁, failed, -, -⟩ := run [.ofText bad] _ _ rfl
  -- The failure comes before the other fault, and both leave the problems of the first source.
  obtain ⟨rfl, kept₁⟩ := failed _ rfl
  obtain ⟨after₂, _, step₂, -, -, unread, -⟩ := run [.ofText bad, _] _ _ rfl
  obtain ⟨rfl, kept₂⟩ := unread rfl invalid
  obtain ⟨after₃, _, step₃, -, -, -, read⟩ := run [.ofText bad, _, _] (.ofText "<b>") [] rfl
  -- The last source is read as by a new reader.
  obtain ⟨-, rfl, problems⟩ := read "<b>" rfl rfl
  rw [nothing] at step₃
  have held₁ : after₁.problems = [.notACommand "a"] := kept₁.trans held
  exact ⟨⟨after₁, step₁, held₁⟩, ⟨after₂, step₂, (kept₂.trans (now₁ ▸ rfl)).trans held₁⟩,
    ⟨after₃, step₃, problems.trans last⟩⟩

end Reader

end ProjectFile
