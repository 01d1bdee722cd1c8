import ProjectFile.Proofs.Document.Normal

/-!
# Writing and reading a description

What a description is written as reads as the normal form of the description, at the locations
that the written ones lead to.  Nothing is lost but what the normal form leaves out, as long as
each location that has no local path is what its own spelling is parsed as.

## Key results

- `Reading.ofText_document`: what the document of a description reads as
- `Reading.ofText_document_brokenDrive`: a location that is parsed differently from its spelling
-/

namespace ProjectFile

open ProjectFile.Markup ProjectFile.Text

namespace Reading

/-- The document of a description reads as the normal form of the description at the locations
    that are read again, whatever stands between the lines that is no markup.  It reads as the
    normal form itself if the locations without a local path are parsed from their spelling. -/
theorem ofText_document [Uri.DomainNames] (d : Description) (separator : String)
    (plain : ∀ c ∈ separator.toList, c ≠ '<') :
    (ofText (d.document separator)).description? = some d.reread ∧
      ((∀ l ∈ d.links.toList, l.location.writtenPath? = none →
          Uri.parse l.location.render = .ok l.location) →
        (ofText (d.document separator)).description? = some d.normalized) := by
  have read : (ofText (d.document separator)).description? = some d.reread := by
    rw [description?_ofText]
    exact descriptionOf?_document plain
  refine ⟨read, fun stable => ?_⟩
  rw [read, Description.reread_eq_normalized stable]

/-- A description with a link is read back, with its texts trimmed. -/
theorem ofText_document_linked :
    let d : Description :=
      { name? := some " p "
        links := Links.empty.insert
          { path := "a", type? := some .file, location := { scheme := "x", path := .rooted ["b"] } } }
    (∀ c ∈ "\n".toList, c ≠ '<') ∧
      (∀ l ∈ d.links.toList, l.location.writtenPath? = none →
        Uri.parse l.location.render = .ok l.location) ∧
      (ofText (d.document "\n")).description? = some d.normalized := by
  intro d
  have plain : ∀ c ∈ "\n".toList, c ≠ '<' := by simp
  -- The only link has a location that is parsed as itself.
  have stable : ∀ l ∈ d.links.toList, l.location.writtenPath? = none →
      Uri.parse l.location.render = .ok l.location := by
    intro l h _
    rw [List.mem_singleton.1 h]
    decide
  exact ⟨plain, stable, (ofText_document d "\n" plain).2 stable⟩

/-- A location with dots behind a broken drive is not read back. -/
theorem ofText_document_brokenDrive :
    let u : Uri :=
      { scheme := "file", authority := some { host := .name "" }, path := .rooted ["C:", ".."] }
    let d : Description :=
      { name? := some "p"
        links := Links.empty.insert { path := "a", type? := some .folder, location := u } }
    Uri.parse "file:/C:\t.." = .ok u ∧ (∀ c ∈ "\n".toList, c ≠ '<') ∧
      (ofText (d.document "\n")).description? ≠ some d.normalized := by
  intro u d
  have plain : ∀ c ∈ "\n".toList, c ≠ '<' := by simp
  refine ⟨by decide, plain, fun h => ?_⟩
  -- The local path of `u` has dots that are resolved when it is read, so `u` is written as it is
  -- spelled; its spelling is parsed as `v`.
  let v : Uri := { u with path := .rooted ["C:", ""] }
  have unwritten : u.writtenPath? = none := by
    have path : u.localPath? = some "C:/.." := by decide +kernel
    have back : Uri.ofLocalPath "C:/.." = .ok v := by decide
    rw [Uri.writtenPath?, path, Option.filter_some, back]
    decide
  have reread : u.reread = .ok v := by
    rw [Uri.reread, unwritten]
    decide
  have links : (d.links.toList.filterMap fun l => l.reread.toOption) =
      [{ path := "a", type? := some .folder, location := v }] := by
    rw [show d.links.toList = [{ path := "a", type? := some .folder, location := u }] from rfl,
      List.filterMap_cons, Link.reread, reread]
    decide
  rw [description?_ofText, descriptionOf?_document plain, Option.some.injEq] at h
  have read := congrArg Description.links h
  rw [Description.reread, links] at read
  exact absurd read (by decide)

end Reading

end ProjectFile
