import ProjectFile.Proofs.Toml.Datum
import ProjectFile.Settings.Decode

/-!
# Settings do not depend on each other, nor on the rest of a file

What a settings file gives is decided by the datum of each setting and by nothing else: not by other
keys and tables, nor by the order and the form in which the keys are written.  Each setting that is
absent has its default, and each that is invalid makes the file fail.

The one thing that also counts is the range of the numbers: a number that is out of range makes the
file fail wherever it stands, as the values of all keys are looked at.  A text that is not read at
all, such as one with too many arrays inside of each other, has no data and no settings.

## Key results

- `decodeEntry_eq_ok_iff`: a table gives what stands under its one key, or the default
- `Settings.ofText_eq_ok_iff`: the settings that a text gives, by the data of the two settings
- `Settings.ofText_independent`: two files with the same data of the settings give the same
- `Settings.ofText_eq_ok_iff_of_same_data`: so do two files with the same data of all keys
-/

namespace ProjectFile

open ProjectFile.Toml ProjectFile.Toml.TableOf

/-! ## Parts of a settings file -/

/-- Whether all numbers among values are in range. -/
def InRange (vs : List (Spanned Value)) : Prop :=
  ∀ v ∈ vs, v.value.overflow? = none

instance (vs : List (Spanned Value)) : Decidable (InRange vs) :=
  inferInstanceAs (Decidable (∀ v ∈ vs, v.value.overflow? = none))

/-- The data of the settings: nothing for one that is absent. -/
structure SettingsData where
  separator? : Option Datum
  strict? : Option Datum

namespace Toml.TableOf

/-- Whether what stands under a key is a table, or nothing. -/
def hasSection (file : Table) (name : String) : Bool :=
  match file.get? name with
  | none => true
  | some ⟨_, .table _⟩ => true
  | some _ => false

/-- The table under a key: an empty one, if there is none. -/
def sectionAt (file : Table) (name : String) : Table :=
  match file.get? name with
  | some ⟨_, .table t⟩ => t
  | _ => { origin := .implied }

/-- The datum under a key of the table under another one. -/
def setting? (file : Table) (name key : String) : Option Datum :=
  ((file.sectionAt name).get? key).map (·.value.datum)

/-- The data of the two settings in a file, if the tables that they belong to are tables or
    absent. -/
def settings? (file : Table) : Option SettingsData :=
  if file.hasSection "writer" && file.hasSection "reader" then
    some ⟨file.setting? "writer" "line_separator", file.setting? "reader" "strict"⟩
  else none

/-- The values without parts that belong to no setting. -/
def strays (file : Table) : List (Spanned Value) :=
  leavesOfTable ((file.remove "reader").remove "writer") ++
    leavesOfTable ((file.sectionAt "writer").remove "line_separator") ++
    leavesOfTable ((file.sectionAt "reader").remove "strict")

/-- What is said of the settings is said in tables, or it is nothing. -/
private theorem settings?_eq_some_iff {file : Table} {d : SettingsData} :
    file.settings? = some d ↔
      (file.hasSection "writer" ∧ file.hasSection "reader") ∧
        file.setting? "writer" "line_separator" = d.separator? ∧
        file.setting? "reader" "strict" = d.strict? := by
  obtain ⟨separator?, strict?⟩ := d
  simp [settings?]

end Toml.TableOf

/-- The separator that the datum of its setting gives: the one with a name, which may also be the
    key of an empty table. -/
def Settings.separatorOf? : Option Datum → Option LineSeparator
  | none => some ({} : Settings).lineSeparator
  | some (.string name) => LineSeparator.ofName? name
  | some (.table [(name, d)]) => if d.isEmpty then LineSeparator.ofName? name else none
  | some _ => none

/-- The strictness that the datum of its setting gives. -/
def Settings.strictOf? : Option Datum → Option Bool
  | none => some ({} : Settings).strict
  | some (.boolean b) => some b
  | some _ => none

/-! ## One value -/

section

variable {v : Spanned Value}

/-- Two steps succeed if the first one does, and the second one with what it gave. -/
private theorem bind_eq_ok_iff {x : Except ε α} {f : α → Except ε β} {b : β} :
    x >>= f = .ok b ↔ ∃ a, x = .ok a ∧ f a = .ok b := by
  cases x with
  | error e => exact ⟨nofun, fun ⟨_, no, _⟩ => nomatch no⟩
  | ok a => exact ⟨fun h => ⟨a, rfl, h⟩, fun ⟨_, same, h⟩ => by cases same; exact h⟩

/-- Numbers in two lists are in range if those in each of them are. -/
private theorem inRange_append {vs vs' : List (Spanned Value)} :
    InRange (vs ++ vs') ↔ InRange vs ∧ InRange vs' :=
  List.forall_mem_append

/-- A value of a key that is not known is fine if the numbers in it are in range. -/
private theorem decodeIgnored_eq_ok_iff :
    decodeIgnored v = .ok () ↔ InRange (v.value.leaves v.span) := by
  have noFault : (v.value.leaves v.span).findSome? rangeFault? = none ↔
      InRange (v.value.leaves v.span) := by
    simp [List.findSome?_eq_none_iff, rangeFault?, InRange]
  rw [decodeIgnored, ← noFault]
  split
  · rename_i found
    simp [found]
  · rename_i notFound
    simp [notFound]

/-- A boolean is given by a datum that is one. -/
private theorem decodeBoolean_eq_ok_iff {b : Bool} :
    decodeBoolean v = .ok b ↔ v.value.datum = .boolean b := by
  obtain ⟨span, v⟩ := v
  cases v <;> simp [decodeBoolean, Value.datum]

/-- A separator is given by its name. -/
private theorem decodeName_eq_ok_iff {key : Spanned String} {l : LineSeparator} :
    decodeName key = .ok l ↔ LineSeparator.ofName? key.value = some l := by
  rw [decodeName]
  split <;> simp [*]

/-- What is empty, is so whatever its form.  An array of tables never is. -/
private theorem decodeNothing_eq_ok_iff (wf : v.value.WellFormed) :
    decodeNothing v = .ok () ↔ v.value.datum.isEmpty := by
  obtain ⟨span, v⟩ := v
  cases wf with
  | @array items _ => cases items <;> simp [decodeNothing, Value.datum, dataOfItems, Datum.isEmpty]
  | @tables items nonempty _ =>
    cases items with
    | nil => exact absurd rfl nonempty
    | cons => simp [decodeNothing, Value.datum, dataOfTables, Datum.isEmpty]
  | @table t _ =>
    obtain ⟨origin, entries⟩ := t
    cases entries <;> simp [decodeNothing, Value.datum, dataOfTable, dataOfEntries, Datum.isEmpty]
  | _ => simp [decodeNothing, Value.datum, Datum.isEmpty]

/-- A separator is given by the datum of its value, in whatever form that is written. -/
private theorem decodeSeparator_eq_ok_iff (wf : v.value.WellFormed) {l : LineSeparator} :
    decodeSeparator v = .ok l ↔ Settings.separatorOf? (some v.value.datum) = some l := by
  obtain ⟨span, v⟩ := v
  cases wf with
  | string s => exact decodeName_eq_ok_iff
  | @table t wf =>
    obtain ⟨origin, entries⟩ := t
    match entries, wf.each with
    | [], _ =>
      simp [decodeSeparator, Settings.separatorOf?, Value.datum, dataOfTable, dataOfEntries]
    | [(key, value)], each =>
      have empty := decodeNothing_eq_ok_iff (each (key, value) List.mem_cons_self)
      -- With one entry, the key names the separator and the value has to be empty.
      have steps : decodeSeparator ⟨span, .table ⟨origin, [(key, value)]⟩⟩ =
          decodeName key >>= fun l => decodeNothing value >>= fun () => pure l := rfl
      have given : decodeSeparator ⟨span, .table ⟨origin, [(key, value)]⟩⟩ = .ok l ↔
          LineSeparator.ofName? key.value = some l ∧ value.value.datum.isEmpty := by
        simp only [steps, bind_eq_ok_iff, decodeName_eq_ok_iff]
        constructor
        · rintro ⟨_, named, _, nothing, done⟩
          cases done
          exact ⟨named, empty.mp nothing⟩
        · rintro ⟨named, nothing⟩
          exact ⟨l, named, (), empty.mpr nothing, rfl⟩
      rw [given, and_comm]
      simp [Settings.separatorOf?, Value.datum, dataOfTable, dataOfEntries]
    | _ :: _ :: _, _ =>
      simp [decodeSeparator, Settings.separatorOf?, Value.datum, dataOfTable, dataOfEntries]
  | _ => simp [decodeSeparator, Settings.separatorOf?, Value.datum]

end

/-! ## One table -/

section

variable {origin : Origin} {k : Spanned String} {v : Spanned Value}
  {rest : List (Spanned String × Spanned Value)} {key : String}

/-- The numbers in a table are those in its first value and those in the others. -/
private theorem inRange_leavesOfTable_cons :
    InRange (leavesOfTable ⟨origin, (k, v) :: rest⟩) ↔
      InRange (v.value.leaves v.span) ∧ InRange (leavesOfTable ⟨origin, rest⟩) := by
  rw [leavesOfTable, leavesOfEntries, leavesOfTable, inRange_append]

/-- The value of the key is decoded, and what it gives takes the place of the default. -/
private theorem decodeEntry_cons_of_eq {default x : α} {decode : Spanned Value → Decoded α}
    (here : k.value = key) :
    decodeEntry key default decode ⟨origin, (k, v) :: rest⟩ = .ok x ↔
      ∃ found, decode v = .ok found ∧ decodeEntry key found decode ⟨origin, rest⟩ = .ok x := by
  simp only [decodeEntry, List.foldlM_cons, if_pos here, bind_eq_ok_iff]

/-- The value of another key is only looked at for its range. -/
private theorem decodeEntry_cons_of_ne {default x : α} {decode : Spanned Value → Decoded α}
    (other : k.value ≠ key) :
    decodeEntry key default decode ⟨origin, (k, v) :: rest⟩ = .ok x ↔
      InRange (v.value.leaves v.span) ∧
        decodeEntry key default decode ⟨origin, rest⟩ = .ok x := by
  simp only [decodeEntry, List.foldlM_cons, if_neg other, bind_eq_ok_iff,
    ← decodeIgnored_eq_ok_iff]
  -- Decoding the value gives nothing, but it may fail.
  cases decodeIgnored v with
  | error fault => exact iff_of_false (fun ⟨_, no, _⟩ => nomatch no) fun ⟨no, _⟩ => nomatch no
  | ok u =>
    constructor
    · rintro ⟨_, same, h⟩
      cases same
      exact ⟨rfl, h⟩
    · rintro ⟨-, h⟩
      exact ⟨default, rfl, h⟩

/-- A table gives what stands under its one key, or the default, if the numbers under its other
    keys are in range. -/
theorem decodeEntry_eq_ok_iff {t : Table} (ascend : KeysAscend t.entries) {default x : α}
    {decode : Spanned Value → Decoded α} :
    decodeEntry key default decode t = .ok x ↔
      InRange (leavesOfTable (t.remove key)) ∧
        (t.get? key).elim (.ok default) decode = .ok x := by
  obtain ⟨origin, entries⟩ := t
  -- The default changes once the key is found, so the statement is for all of them.
  induction entries generalizing default with
  | nil => exact ⟨fun h => ⟨nofun, h⟩, fun h => h.2⟩
  | cons e rest ih =>
    obtain ⟨k, v⟩ := e
    have ih (default : α) := @ih default (List.pairwise_cons.mp ascend).2
    by_cases here : k.value = key
    · rw [decodeEntry_cons_of_eq here, remove_cons_of_eq here, get?_cons_of_eq here]
      -- The keys ascend, so the key does not occur again.
      simp only [ih, get?_behind ascend here, Option.elim_none, Option.elim_some]
      exact ⟨fun ⟨_, found, range, same⟩ => ⟨range, found.trans same⟩,
        fun ⟨range, found⟩ => ⟨x, found, range, rfl⟩⟩
    · rw [decodeEntry_cons_of_ne here, remove_cons_of_ne here, get?_cons_of_ne here, ih,
        inRange_leavesOfTable_cons, and_assoc]
      rfl

/-- The table under a name is well-formed, as is the empty one in its place. -/
private theorem wellFormed_sectionAt {file : Table} (wf : file.WellFormed) (name : String) :
    (file.sectionAt name).WellFormed := by
  rw [TableOf.sectionAt]
  split
  · rename_i found
    exact wf.of_get?_table found
  · exact .empty _

/-- The one setting of the table under a name, or its default. -/
private theorem decodeField_section_eq_ok_iff {file : Table} {name : String} (wf : file.WellFormed)
    (isTable : file.hasSection name) {expected : Expected} {default x : α}
    {decode : Spanned Value → Decoded α} :
    (file.get? name).elim (.ok default) (decodeField key expected default decode) = .ok x ↔
      InRange (leavesOfTable ((file.sectionAt name).remove key)) ∧
        ((file.sectionAt name).get? key).elim (.ok default) decode = .ok x := by
  -- The table is absent, or it is a table; anything else is ruled out.
  rw [TableOf.sectionAt]
  rw [TableOf.hasSection] at isTable
  split at isTable
  · rename_i absent
    rw [absent]
    exact ⟨fun h => ⟨nofun, h⟩, fun h => h.2⟩
  · rename_i t found
    rw [found]
    exact decodeEntry_eq_ok_iff (wf.of_get?_table found).ascend
  · cases isTable

end

/-! ## Files with the same data -/

/-- The entries of a datum that is a table. -/
def Toml.Datum.entries? : Datum → Option (List (String × Datum))
  | .table entries => some entries
  | _ => none

namespace Toml.TableOf

/-- The data of a file say whether a table stands under a key. -/
theorem hasSection_eq (file : Table) (name : String) :
    file.hasSection name = ((file.get? name).map (·.value.datum)).all (·.entries?.isSome) := by
  rw [hasSection]
  cases file.get? name with
  | none => rfl
  | some v =>
    obtain ⟨span, value⟩ := v
    cases value <;> rfl

/-- The data of a file hold those of the table under a key. -/
theorem dataOfTable_sectionAt (file : Table) (name : String) :
    dataOfTable (file.sectionAt name) =
      (((file.get? name).map (·.value.datum)).bind Datum.entries?).getD [] := by
  rw [sectionAt]
  cases file.get? name with
  | none => rfl
  | some v =>
    obtain ⟨span, value⟩ := v
    cases value <;> rfl

/-- Files with the same data say the same of the settings. -/
theorem settings?_congr {file file' : Table} (wf : file.WellFormed) (wf' : file'.WellFormed)
    (same : dataOfTable file = dataOfTable file') : file.settings? = file'.settings? := by
  have alike := (wf.dataOfTable_eq_iff wf').1 same
  have setting (name key : String) : file.setting? name key = file'.setting? name key := by
    have sections : dataOfTable (file.sectionAt name) = dataOfTable (file'.sectionAt name) := by
      rw [dataOfTable_sectionAt, dataOfTable_sectionAt, alike]
    exact ((wellFormed_sectionAt wf name).dataOfTable_eq_iff
      (wellFormed_sectionAt wf' name)).1 sections key
  simp only [settings?, hasSection_eq, alike, setting]

end Toml.TableOf

/-! ## The whole file -/

namespace Settings

/-- The separator that the table of the writer gives, if there is one. -/
def ofWriter (default : LineSeparator) (table? : Option (Spanned Value)) : Decoded LineSeparator :=
  table?.elim (.ok default)
    (decodeField "line_separator" .writerSettings default decodeSeparator)

/-- The strictness that the table of the reader gives, if there is one. -/
def ofReader (default : Bool) (table? : Option (Spanned Value)) : Decoded Bool :=
  table?.elim (.ok default) (decodeField "strict" .readerSettings default decodeBoolean)

section

variable {s s' : Settings} {k : Spanned String} {v : Spanned Value} {file : Table}

/-- The table of the reader gives the strictness and leaves the separator. -/
private theorem withEntry_reader_eq_ok_iff (reader : k.value = "reader") :
    s.withEntry k v = .ok s' ↔
      ofReader s.strict (some v) = .ok s'.strict ∧ s'.lineSeparator = s.lineSeparator := by
  rw [withEntry, if_pos reader, bind_eq_ok_iff]
  constructor
  · rintro ⟨b, given, same⟩
    cases same
    exact ⟨given, rfl⟩
  · rintro ⟨given, same⟩
    exact ⟨s'.strict, given, by rw [← same]; rfl⟩

/-- The table of the writer gives the separator and leaves the strictness. -/
private theorem withEntry_writer_eq_ok_iff (writer : k.value = "writer") :
    s.withEntry k v = .ok s' ↔
      ofWriter s.lineSeparator (some v) = .ok s'.lineSeparator ∧ s'.strict = s.strict := by
  rw [withEntry, if_neg (by simp [writer]), if_pos writer, bind_eq_ok_iff]
  constructor
  · rintro ⟨l, given, same⟩
    cases same
    exact ⟨given, rfl⟩
  · rintro ⟨given, same⟩
    exact ⟨s'.lineSeparator, given, by rw [← same]; rfl⟩

/-- Any other key leaves both settings, if the numbers under it are in range. -/
private theorem withEntry_other_eq_ok_iff (notReader : k.value ≠ "reader")
    (notWriter : k.value ≠ "writer") :
    s.withEntry k v = .ok s' ↔ InRange (v.value.leaves v.span) ∧ s' = s := by
  rw [withEntry, if_neg notReader, if_neg notWriter, bind_eq_ok_iff, ← decodeIgnored_eq_ok_iff]
  constructor
  · rintro ⟨_, ignored, same⟩
    cases same
    exact ⟨ignored, rfl⟩
  · rintro ⟨ignored, rfl⟩
    exact ⟨(), ignored, rfl⟩

/-- Each setting is given by its own table, whatever entries come before and after it. -/
private theorem foldlM_withEntry_eq_ok_iff (ascend : KeysAscend file.entries) :
    file.entries.foldlM (fun s (k, v) => s.withEntry k v) s = .ok s' ↔
      InRange (leavesOfTable ((file.remove "reader").remove "writer")) ∧
        ofWriter s.lineSeparator (file.get? "writer") = .ok s'.lineSeparator ∧
        ofReader s.strict (file.get? "reader") = .ok s'.strict := by
  obtain ⟨origin, entries⟩ := file
  -- The settings so far are the invariant; each of the three kinds of keys changes one of the
  -- parts.
  induction entries generalizing s with
  | nil =>
    constructor
    · intro same
      cases same
      exact ⟨nofun, rfl, rfl⟩
    · rintro ⟨-, separator, strict⟩
      obtain ⟨l, b⟩ := s
      cases separator
      cases strict
      rfl
  | cons e rest ih =>
    obtain ⟨k, v⟩ := e
    have ih (s : Settings) := @ih s (List.pairwise_cons.mp ascend).2
    dsimp only at ih ⊢
    simp only [List.foldlM_cons, bind_eq_ok_iff, ih]
    by_cases reader : k.value = "reader"
    · -- Behind the key of the reader it does not occur again, as the keys ascend.
      have notWriter : k.value ≠ "writer" := by simp [reader]
      rw [remove_cons_of_eq reader, get?_cons_of_eq reader, get?_cons_of_ne notWriter]
      simp only [withEntry_reader_eq_ok_iff reader, get?_behind ascend reader]
      constructor
      · rintro ⟨s₁, ⟨strict, same⟩, range, separator, kept⟩
        exact ⟨range, same ▸ separator, strict.trans kept⟩
      · rintro ⟨range, separator, strict⟩
        exact ⟨⟨s.lineSeparator, s'.strict⟩, ⟨strict, rfl⟩, range, separator, rfl⟩
    by_cases writer : k.value = "writer"
    · rw [remove_cons_of_ne reader, remove_cons_of_eq writer, get?_cons_of_eq writer,
        get?_cons_of_ne reader]
      simp only [withEntry_writer_eq_ok_iff writer, get?_behind ascend writer]
      constructor
      · rintro ⟨s₁, ⟨separator, same⟩, range, kept, strict⟩
        exact ⟨range, separator.trans kept, same ▸ strict⟩
      · rintro ⟨range, separator, strict⟩
        exact ⟨⟨s'.lineSeparator, s.strict⟩, ⟨separator, rfl⟩, range, rfl, strict⟩
    · rw [remove_cons_of_ne reader, remove_cons_of_ne writer, get?_cons_of_ne writer,
        get?_cons_of_ne reader, inRange_leavesOfTable_cons]
      simp only [withEntry_other_eq_ok_iff reader writer]
      constructor
      · rintro ⟨_, ⟨range, rfl⟩, ranges, given⟩
        exact ⟨⟨range, ranges⟩, given⟩
      · rintro ⟨⟨range, ranges⟩, given⟩
        exact ⟨s, ⟨range, rfl⟩, ranges, given⟩

/-- What the table of the writer gives is decided by the datum of its setting. -/
private theorem ofWriter_eq_ok_iff (wf : file.WellFormed) (isTable : file.hasSection "writer")
    {l : LineSeparator} :
    ofWriter ({} : Settings).lineSeparator (file.get? "writer") = .ok l ↔
      InRange (leavesOfTable ((file.sectionAt "writer").remove "line_separator")) ∧
        separatorOf? (file.setting? "writer" "line_separator") = some l := by
  rw [ofWriter, decodeField_section_eq_ok_iff wf isTable, TableOf.setting?]
  refine and_congr_right fun _ => ?_
  cases found : (file.sectionAt "writer").get? "line_separator" with
  | none => exact ⟨fun same => by cases same; rfl, fun same => by cases same; rfl⟩
  | some v => exact decodeSeparator_eq_ok_iff ((wellFormed_sectionAt wf "writer").of_get? found)

/-- What the table of the reader gives is decided by the datum of its setting. -/
private theorem ofReader_eq_ok_iff (wf : file.WellFormed) (isTable : file.hasSection "reader")
    {b : Bool} : ofReader ({} : Settings).strict (file.get? "reader") = .ok b ↔
      InRange (leavesOfTable ((file.sectionAt "reader").remove "strict")) ∧
        strictOf? (file.setting? "reader" "strict") = some b := by
  rw [ofReader, decodeField_section_eq_ok_iff wf isTable, TableOf.setting?]
  refine and_congr_right fun _ => ?_
  cases (file.sectionAt "reader").get? "strict" with
  | none => exact ⟨fun same => by cases same; rfl, fun same => by cases same; rfl⟩
  | some v =>
    rw [Option.elim_some, decodeBoolean_eq_ok_iff, Option.map_some]
    cases v.value.datum <;> simp [strictOf?]

/-- The settings that the table of a file gives. -/
private theorem ofTable_eq_ok_iff (wf : file.WellFormed) (writer : file.hasSection "writer")
    (reader : file.hasSection "reader") :
    ofTable file = .ok s ↔
      InRange file.strays ∧
        separatorOf? (file.setting? "writer" "line_separator") = some s.lineSeparator ∧
        strictOf? (file.setting? "reader" "strict") = some s.strict := by
  rw [ofTable, foldlM_withEntry_eq_ok_iff wf.ascend, ofWriter_eq_ok_iff wf writer,
    ofReader_eq_ok_iff wf reader, TableOf.strays, inRange_append, inRange_append]
  tauto

/-- A text that is not read at all gives no settings. -/
private theorem ofText_of_isNone_parse {text : String} (unparsed : (Toml.parse text).isNone) :
    ofText text = .error .unreadable := by
  rw [ofText, Option.isNone_iff_eq_none.mp unparsed]

/-- A text with a table gives its settings or is refused for the shape of a value. -/
private theorem ofText_cases {text : String} (parsed : Toml.parse text = some file) :
    (∃ s, ofTable file = .ok s ∧ ofText text = .ok s) ∨
      ∃ fault, ofTable file = .error fault ∧ ofText text = .error (.shape text file fault) := by
  have same : ofText text = (ofTable file).mapError (.shape text file) := by rw [ofText, parsed]
  rw [same]
  cases ofTable file with
  | ok s => exact .inl ⟨s, rfl, rfl⟩
  | error fault => exact .inr ⟨fault, rfl, rfl⟩

/-- A text gives settings if and only if each of the two is absent or valid, and the numbers
    outside of them are in range.  An absent one has its default. -/
theorem ofText_eq_ok_iff {text : String} {d : SettingsData} (parsed : Toml.parse text = some file)
    (said : file.settings? = some d) :
    ofText text = .ok s ↔
      InRange file.strays ∧ separatorOf? d.separator? = some s.lineSeparator ∧
        strictOf? d.strict? = some s.strict := by
  obtain ⟨⟨writer, reader⟩, separator, strict⟩ := settings?_eq_some_iff.mp said
  rw [← separator, ← strict, ← ofTable_eq_ok_iff (wellFormed_of_parse parsed) writer reader]
  obtain ⟨s', ofTable, ofText⟩ | ⟨fault, ofTable, ofText⟩ := ofText_cases parsed
  · rw [ofTable, ofText, Except.ok.injEq, Except.ok.injEq]
  · rw [ofTable, ofText]
    exact iff_of_false nofun nofun

end

/-- A file can be written in another way: with the same data in all, whatever their order and form,
    it gives the same settings. -/
theorem ofText_eq_ok_iff_of_same_data {text text' : String} {file file' : Table} {d : SettingsData}
    (parsed : Toml.parse text = some file) (parsed' : Toml.parse text' = some file')
    (said : file.settings? = some d) (same : dataOfTable file = dataOfTable file')
    (range : InRange file.strays ↔ InRange file'.strays) (s : Settings) :
    ofText text = .ok s ↔ ofText text' = .ok s := by
  have said' : file'.settings? = some d := by
    rw [← settings?_congr (wellFormed_of_parse parsed) (wellFormed_of_parse parsed') same, said]
  rw [ofText_eq_ok_iff parsed said, ofText_eq_ok_iff parsed' said', range]

/-- Two files that say the same of each setting give the same, whatever else they hold and however
    it is written, if all other numbers are in range in both of them or in neither.  Either both
    are refused for the shape of a value, or both give what is said of each setting, or its
    default. -/
theorem ofText_independent {text text' : String} {file file' : Table} {d : SettingsData}
    (parsed : Toml.parse text = some file) (parsed' : Toml.parse text' = some file')
    (said : file.settings? = some d) (said' : file'.settings? = some d)
    (range : InRange file.strays ↔ InRange file'.strays) :
    ((∃ s, ofText text = .ok s ∧ ofText text' = .ok s) ∨
        ∃ fault fault', ofText text = .error (.shape text file fault) ∧
          ofText text' = .error (.shape text' file' fault')) ∧
      ∀ s, ofText text = .ok s ↔
        InRange file.strays ∧ separatorOf? d.separator? = some s.lineSeparator ∧
          strictOf? d.strict? = some s.strict := by
  -- For each of the texts, what it gives is decided by the data and the range.
  have given (s : Settings) := @ofText_eq_ok_iff s _ _ _ parsed said
  have agree (s : Settings) : ofText text = .ok s ↔ ofText text' = .ok s := by
    rw [given, ofText_eq_ok_iff parsed' said', range]
  -- A text that is read gives settings or a fault of shape, and both texts do the same.
  refine ⟨?_, given⟩
  obtain ⟨s, -, ok⟩ | ⟨fault, -, error⟩ := ofText_cases parsed
  · exact .inl ⟨s, ok, (agree s).mp ok⟩
  obtain ⟨s, -, ok'⟩ | ⟨fault', -, error'⟩ := ofText_cases parsed'
  · exact .inl ⟨s, (agree s).mpr ok', ok'⟩
  · exact .inr ⟨fault, fault', error, error'⟩

/-- A dotted key in one file, and in the other one a header, with another key before it. -/
theorem ofText_independent_dotted :
    let text := "reader.strict = true"
    let text' := "x = 4.5\n[reader]\nstrict = true\n"
    let d : SettingsData := ⟨none, some (.boolean true)⟩
    ∃ file file', Toml.parse text = some file ∧ Toml.parse text' = some file' ∧
      file.settings? = some d ∧ file'.settings? = some d ∧
      (InRange file.strays ↔ InRange file'.strays) ∧
      ofText text = .ok { strict := true } ∧ ofText text' = .ok { strict := true } := by
  intro text text' d
  have read : (Toml.parse text).isSome ∧ (Toml.parse text').isSome := by decide +kernel
  obtain ⟨file, parsed⟩ := Option.isSome_iff_exists.mp read.1
  obtain ⟨file', parsed'⟩ := Option.isSome_iff_exists.mp read.2
  -- Both texts say the same of the two settings, one by a dotted key.
  have said : ∀ file ∈ Toml.parse text, file.settings? = some d := by
    simp only [settings?_eq_some_iff]
    decide +kernel
  have said' : ∀ file ∈ Toml.parse text', file.settings? = some d := by
    simp only [settings?_eq_some_iff]
    decide +kernel
  have inRange : ∀ file ∈ Toml.parse text, InRange file.strays := by decide +kernel
  have inRange' : ∀ file ∈ Toml.parse text', InRange file.strays := by decide +kernel
  have range := iff_of_true (inRange file parsed) (inRange' file' parsed')
  obtain ⟨alike, given⟩ :=
    ofText_independent parsed parsed' (said file parsed) (said' file' parsed') range
  have ok := (given { strict := true }).mpr ⟨inRange file parsed, rfl, rfl⟩
  refine ⟨file, file', parsed, parsed', said file parsed, said' file' parsed', range, ok, ?_⟩
  obtain ⟨s, ok₁, ok'⟩ | ⟨fault, fault', error, -⟩ := alike
  · rw [ok', ← ok₁, ok]
  · rw [ok] at error
    cases error

/-- Other parts of a file can make it fail: unlike the empty file, one with a number that is out of
    range gives no settings, nor does one with too many arrays inside of each other. -/
theorem ofText_strayNumber :
    ∃ file file', Toml.parse "" = some file ∧ Toml.parse "x = 1e309" = some file' ∧
      file.settings? = some ⟨none, none⟩ ∧ file'.settings? = some ⟨none, none⟩ ∧
      ofText "" = .ok {} ∧
      (∃ fault, ofText "x = 1e309" = .error (.shape "x = 1e309" file' fault)) ∧
      ofText (String.ofList ("x = ".toList ++ List.replicate (depthLimit + 1) '[' ++
        List.replicate (depthLimit + 1) ']')) = .error .unreadable := by
  have read' : (Toml.parse "x = 1e309").isSome := by decide +kernel
  obtain ⟨file', parsed'⟩ := Option.isSome_iff_exists.mp read'
  have said : ∀ file ∈ Toml.parse "x = 1e309", file.settings? = some ⟨none, none⟩ := by
    simp only [settings?_eq_some_iff]
    decide +kernel
  have outOfRange : ∀ file ∈ Toml.parse "x = 1e309", ¬ InRange file.strays := by decide +kernel
  have said' := said file' parsed'
  refine ⟨_, file', rfl, parsed', rfl, said', rfl, ?_, ?_⟩
  · -- The number is not in range, so the text does not give settings.
    obtain ⟨s, -, ok⟩ | ⟨fault, -, error⟩ := ofText_cases parsed'
    · exact absurd ((ofText_eq_ok_iff parsed' said').mp ok).1 (outOfRange file' parsed')
    · exact ⟨fault, error⟩
  · exact ofText_of_isNone_parse (by decide +kernel)

end Settings

end ProjectFile
