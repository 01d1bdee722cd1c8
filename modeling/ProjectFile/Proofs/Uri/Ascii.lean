import ProjectFile.Uri.Parse

/-!
# Parsed URIs are ASCII

Whatever text a URI is read from, its written form is ASCII: characters beyond ASCII are encoded
where they are taken, and refused elsewhere.

## Key results

- `isAscii_encode`: an encoded text is ASCII
- `Uri.isAscii_render`: the written form of a URI whose parts are ASCII is ASCII
- `Uri.ascii_of_parse`: the parts of a parsed URI are ASCII
-/

namespace ProjectFile

/-- Whether a text is ASCII. -/
def IsAscii (s : List Char) : Prop :=
  ∀ c ∈ s, c.toNat < 0x80

theorem isAscii_nil : IsAscii [] := by
  intro c h
  simp at h

/-- A text is ASCII if it is put together from two that are. -/
theorem IsAscii.append {s t : List Char} (hs : IsAscii s) (ht : IsAscii t) : IsAscii (s ++ t) := by
  intro c h
  rcases List.mem_append.1 h with h | h
  · exact hs c h
  · exact ht c h

/-- A text is ASCII if all its characters occur in one that is. -/
theorem IsAscii.mono {s t : List Char} (h : IsAscii t) (sub : ∀ c ∈ s, c ∈ t) : IsAscii s :=
  fun c hc => h c (sub c hc)

/-! ## Encoded texts -/

namespace Uri

/-- A hexadecimal digit is ASCII. -/
private theorem toNat_upperHexDigit_lt {n : Nat} (h : n < 16) : (upperHexDigit n).toNat < 0x80 := by
  have all : ∀ n < 16, (upperHexDigit n).toNat < 0x80 := by decide
  exact all n h

/-- A byte is encoded as `%` and two digits. -/
private theorem isAscii_encodeByte (b : UInt8) : IsAscii (encodeByte b) := by
  -- The bound of a byte keeps both digits in range.
  have byte : b.toNat < 256 := b.toNat_lt
  intro c h
  simp only [encodeByte, List.mem_cons, List.not_mem_nil, or_false] at h
  rcases h with rfl | rfl | rfl
  · decide
  · exact toNat_upperHexDigit_lt (by omega)
  · exact toNat_upperHexDigit_lt (by omega)

/-- An encoded text is ASCII, whatever set it is encoded with. -/
theorem isAscii_encode (set : EncodeSet) (s : List Char) : IsAscii (encode set s) := by
  intro c h
  obtain ⟨d, -, h⟩ := List.mem_flatMap.1 h
  unfold encodeChar at h
  split at h
  · -- A character is kept only if it is ASCII and not in the set.
    rename_i plain
    rw [List.mem_singleton.1 h]
    simp only [Bool.and_eq_true, decide_eq_true_eq] at plain
    exact plain.1
  · obtain ⟨b, -, h⟩ := List.mem_flatMap.1 h
    exact isAscii_encodeByte b c h

/-! ## Numbers -/

/-- The digits of numbers are ASCII in every base, as the characters beyond the digits are stars. -/
private theorem toNat_digitChar_lt (n : Nat) : (Nat.digitChar n).toNat < 0x80 := by
  have small : ∀ n < 16, (Nat.digitChar n).toNat < 0x80 := by decide
  by_cases h : n < 16
  · exact small n h
  · have noDigit : Nat.digitChar n = '*' := by
      unfold Nat.digitChar
      repeat rw [if_neg (by omega)]
    rw [noDigit]
    decide

/-- Digits are put in front of an accumulator, which stays ASCII. -/
private theorem isAscii_toDigitsCore (base fuel n : Nat) {acc : List Char} (h : IsAscii acc) :
    IsAscii (Nat.toDigitsCore base fuel n acc) := by
  -- The induction is on the fuel, with the accumulator as its invariant.
  induction fuel generalizing n acc with
  | zero => exact h
  | succ fuel ih =>
    have more : IsAscii (Nat.digitChar (n % base) :: acc) := by
      intro c hc
      rcases List.mem_cons.1 hc with rfl | hc
      · exact toNat_digitChar_lt _
      · exact h c hc
    rw [Nat.toDigitsCore]
    split
    · exact more
    · exact ih _ more

/-- The digits of a number are ASCII. -/
private theorem isAscii_toDigits (base n : Nat) : IsAscii (Nat.toDigits base n) :=
  isAscii_toDigitsCore base _ n isAscii_nil

/-- A number is written in ASCII. -/
theorem isAscii_toString (n : Nat) : IsAscii (toString n).toList := by
  have digits : (toString n).toList = Nat.toDigits 10 n := by
    simp [toString, Nat.repr]
  rw [digits]
  exact isAscii_toDigits 10 n

/-- Groups of an address of 128 bits are written in digits with colons between them. -/
private theorem isAscii_renderGroups (groups : List Nat) :
    IsAscii (renderGroups groups).toList := by
  have digits : ∀ s ∈ groups.map fun g => Nat.toDigits 16 g, IsAscii s := by
    intro s h
    obtain ⟨g, -, rfl⟩ := List.mem_map.1 h
    exact isAscii_toDigits 16 g
  -- The colons are ASCII, so joining keeps texts ASCII.
  have between : ∀ parts : List (List Char), (∀ s ∈ parts, IsAscii s) →
      IsAscii ([':'].intercalate parts) := by
    intro parts h
    induction parts with
    | nil => exact isAscii_nil
    | cons part rest ih =>
      have others := ih fun s hs => h s (by simp [hs])
      cases rest with
      | nil => simpa using h part (by simp)
      | cons next rest =>
        rw [List.intercalate_cons_cons]
        exact ((h part (by simp)).append (by simp [IsAscii])).append others
  have chars : (renderGroups groups).toList =
      [':'].intercalate (groups.map fun g => Nat.toDigits 16 g) := by
    simp [renderGroups, Function.comp_def]
  rw [chars]
  exact between _ digits

end Uri

/-! ## Written forms -/

/-- Whether the host of a URI is ASCII. -/
def Host.Ascii : Host → Prop
  | .name text => IsAscii text.toList
  | _ => True

/-- Whether the parts of an authority are ASCII. -/
structure Authority.Ascii (a : Authority) : Prop where
  user : IsAscii a.user.toList
  password : ∀ p, a.password = some p → IsAscii p.toList
  host : a.host.Ascii

/-- Whether a path is ASCII. -/
def UriPath.Ascii : UriPath → Prop
  | .rooted segments => ∀ s ∈ segments, IsAscii s.toList
  | .rootless text => IsAscii text.toList

/-- Whether the parts of a URI are ASCII. -/
structure Uri.Ascii (u : Uri) : Prop where
  scheme : IsAscii u.scheme.toList
  authority : ∀ a, u.authority = some a → a.Ascii
  path : u.path.Ascii
  query : ∀ q, u.query = some q → IsAscii q.toList
  fragment : ∀ f, u.fragment = some f → IsAscii f.toList

/-- A part that is written after a mark, if it is there, is ASCII. -/
private theorem isAscii_marked {mark : String} (h : IsAscii mark.toList) {part : Option String}
    (ascii : ∀ p, part = some p → IsAscii p.toList) :
    IsAscii (match part with | some p => mark ++ p | none => "").toList := by
  cases part with
  | none => exact isAscii_nil
  | some p =>
    rw [String.toList_append]
    exact h.append (ascii p rfl)

/-- A host is written in ASCII if its name is ASCII; an address always is. -/
theorem Host.isAscii_render {h : Host} (ascii : h.Ascii) : IsAscii h.render.toList := by
  cases h with
  | name text => exact ascii
  | ipv4 address =>
    simp only [render, renderIpv4, String.toList_append]
    have byte := Uri.isAscii_toString
    have dot : IsAscii ".".toList := by simp [IsAscii]
    exact ((((((byte _).append dot).append (byte _)).append dot).append (byte _)).append
      dot).append (byte _)
  | ipv6 groups =>
    have address : IsAscii (renderIpv6 groups).toList := by
      -- The longest run of zeros is left out, which leaves one list of groups or two.
      unfold renderIpv6
      split
      split
      · exact Uri.isAscii_renderGroups _
      · simp only [String.toList_append]
        exact ((Uri.isAscii_renderGroups _).append (by simp [IsAscii])).append
          (Uri.isAscii_renderGroups _)
    simp only [render, String.toList_append]
    exact (IsAscii.append (by simp [IsAscii]) address).append (by simp [IsAscii])

/-- An authority is written in ASCII if its parts are ASCII. -/
theorem Authority.isAscii_render {a : Authority} (ascii : a.Ascii) : IsAscii a.render.toList := by
  simp only [render, String.toList_append]
  refine IsAscii.append (IsAscii.append ?_ (Host.isAscii_render ascii.host)) ?_
  · -- Credentials are written only if there are some, and the port likewise.
    split
    · exact isAscii_nil
    · simp only [String.toList_append]
      exact (ascii.user.append (isAscii_marked (by simp [IsAscii]) ascii.password)).append
        (by simp [IsAscii])
  · cases a.port with
    | none => exact isAscii_nil
    | some p =>
      simp only [String.toList_append]
      exact IsAscii.append (by simp [IsAscii]) (Uri.isAscii_toString p)

/-- A path is written in ASCII if its segments are ASCII. -/
theorem UriPath.isAscii_render {p : UriPath} (ascii : p.Ascii) : IsAscii p.render.toList := by
  cases p with
  | rootless text => exact ascii
  | rooted segments =>
    intro c h
    simp only [render, String.toList_join, List.mem_flatMap, List.mem_map] at h
    -- Each character comes from one segment or from the `/` before it.
    obtain ⟨_, ⟨s, mem, rfl⟩, h⟩ := h
    rw [String.toList_append] at h
    exact IsAscii.append (by simp [IsAscii]) (ascii s mem) c h

/-- The written form of a URI whose parts are ASCII is ASCII. -/
theorem Uri.isAscii_render {u : Uri} (ascii : u.Ascii) : IsAscii u.render.toList := by
  simp only [render, String.toList_append]
  refine ((((ascii.scheme.append (by simp [IsAscii])).append ?_).append
    (UriPath.isAscii_render ascii.path)).append
    (isAscii_marked (by simp [IsAscii]) ascii.query)).append
    (isAscii_marked (by simp [IsAscii]) ascii.fragment)
  cases eq : u.authority with
  | none =>
    simp only
    split <;> simp [IsAscii]
  | some a =>
    simp only [String.toList_append]
    exact IsAscii.append (by simp [IsAscii]) (Authority.isAscii_render (ascii.authority a eq))

/-! ## Parsed parts -/

namespace Uri

/-- A letter is ASCII. -/
theorem toNat_lt_of_isAlpha {c : Char} (h : c.isAlpha = true) : c.toNat < 0x80 := by
  have value : c.toNat = c.val.toNat := rfl
  rcases Bool.or_eq_true_iff.1 h with upper | lower
  · -- `Char.isAlpha` compares words, so the bounds are moved to numbers.
    have range : c.val ≥ 'A'.val ∧ c.val ≤ 'Z'.val := of_decide_eq_true upper
    have last := UInt32.le_iff_toNat_le.1 range.2
    have : ('Z'.val).toNat = 90 := rfl
    omega
  · have last : c.val ≤ 'z'.val := of_decide_eq_true (Bool.and_eq_true_iff.1 lower).2
    rw [UInt32.le_iff_toNat_le] at last
    have : ('z'.val).toNat = 122 := rfl
    omega

/-- The characters of a scheme are ASCII. -/
private theorem toNat_lt_of_isSchemeChar {c : Char} (h : isSchemeChar c = true) :
    c.toNat < 0x80 := by
  simp only [isSchemeChar, Char.isAlphanum, Bool.or_eq_true, beq_iff_eq] at h
  rcases h with ((h | rfl) | rfl) | rfl
  · rcases h with h | h
    · exact toNat_lt_of_isAlpha h
    · simp only [Char.isDigit, Bool.and_eq_true, decide_eq_true_eq, UInt32.le_iff_toNat_le] at h
      have value : c.toNat = c.val.toNat := rfl
      have : ('9'.val).toNat = 57 := rfl
      omega
  · decide
  · decide
  · decide

/-- An ASCII character stays ASCII in lower case. -/
private theorem toNat_toLower_lt {c : Char} (h : c.toNat < 0x80) : c.toLower.toNat < 0x80 := by
  -- There are only so many ASCII characters: each of them is looked at.
  have all : ∀ n < 0x80, (Char.ofNat n).toLower.toNat < 0x80 := by decide
  have := all c.toNat h
  rwa [Char.ofNat_toNat] at this

/-- A scheme that is read is ASCII, as its characters are checked before it is put in lower case. -/
private theorem isAscii_scheme? {s : List Char} {scheme : String} (h : scheme? s = some scheme) :
    IsAscii scheme.toList := by
  cases s with
  | nil => simp [scheme?] at h
  | cons c rest =>
    simp only [scheme?] at h
    split at h
    · rename_i letters
      rw [Option.some.injEq] at h
      subst h
      rw [Bool.and_eq_true] at letters
      intro d hd
      -- The scheme is written in lower case, which leaves letters ASCII.
      rw [String.toList_ofList, List.mem_map] at hd
      obtain ⟨e, he, rfl⟩ := hd
      apply toNat_toLower_lt
      rcases List.mem_cons.1 he with rfl | he
      · exact toNat_lt_of_isAlpha letters.1
      · exact toNat_lt_of_isSchemeChar (List.all_eq_true.1 letters.2 e he)
    · simp at h

/-! ### Paths -/

/-- Whether the segments that are read so far are ASCII. -/
def Walk.Ascii (w : Walk) : Prop :=
  ∀ s ∈ w.segments, IsAscii s

/-- A walk stays ASCII when an ASCII segment is added. -/
private theorem Walk.Ascii.push {w : Walk} (h : w.Ascii) {segment : List Char}
    (ascii : IsAscii segment) : (w.push segment).Ascii := by
  intro s hs
  rcases List.mem_cons.1 hs with rfl | hs
  · exact ascii
  · exact h s hs

/-- A walk stays ASCII when its last segment is taken away. -/
private theorem Walk.Ascii.pop {w : Walk} (h : w.Ascii) : w.pop.Ascii := by
  unfold Walk.pop
  split
  · exact h
  · rename_i last before eq
    split
    · exact h
    · intro s hs
      exact h s (by rw [eq]; exact List.mem_cons_of_mem _ hs)

/-- The drive that is cut off from a segment is a letter and a colon. -/
private theorem isAscii_of_afterBrokenDrive? {raw drive after : List Char}
    (h : afterBrokenDrive? raw = some (drive, after)) : IsAscii drive := by
  unfold afterBrokenDrive? at h
  split at h
  · simp at h
  · split at h
    · simp at h
    · rename_i letter _ _ mark _ _
      simp only at h
      split at h
      · rename_i isDrive
        simp only [Option.some.injEq, Prod.mk.injEq] at h
        simp only [Bool.and_eq_true, beq_iff_eq] at isDrive
        -- The test on the cut names the letter and the mark, and nothing else is kept.
        obtain ⟨⟨⟨letters, rfl⟩, -⟩, -⟩ := isDrive
        rw [← h.1]
        intro c hc
        simp only [List.mem_cons, List.not_mem_nil, or_false] at hc
        rcases hc with rfl | rfl
        · exact toNat_lt_of_isAlpha letters
        · decide
      · simp at h

/-- A walk stays ASCII over each raw segment, as it is encoded before it is added. -/
private theorem Walk.Ascii.segment {w : Walk} (h : w.Ascii) (kind : SchemeKind) (isLast : Bool)
    (raw : List Char) : (w.segment kind isLast raw).Ascii := by
  -- A dot segment at the end leaves an empty segment behind.
  have close : ∀ w : Walk, w.Ascii → (if isLast then w.push [] else w).Ascii := by
    intro w h
    split
    · exact h.push isAscii_nil
    · exact h
  unfold Walk.segment
  simp only
  split
  · rename_i drive after eq
    -- Only a file URI looks for a drive with a break in it.
    have broken : afterBrokenDrive? raw = some (drive, after) := by
      split at eq
      · exact eq
      · simp at eq
    exact (h.push (isAscii_of_afterBrokenDrive? broken)).push (isAscii_encode _ _)
  · split
    · exact close _ h.pop
    · split
      · exact close _ h
      · split
        · -- The segment is a drive, and is written with a colon.
          intro s hs
          rw [List.mem_singleton.1 hs]
          have letter : IsAscii ((encode pathSet (dropBreaks raw)).take 1) :=
            (isAscii_encode _ _).mono fun c hc => List.mem_of_mem_take hc
          exact letter.append (by simp [IsAscii])
        · exact h.push (isAscii_encode _ _)

/-- A walk stays ASCII over all the raw segments. -/
private theorem Walk.Ascii.run {w : Walk} (h : w.Ascii) (kind : SchemeKind)
    (raws : List (List Char)) : (w.run kind raws).Ascii := by
  induction raws generalizing w with
  | nil => exact h
  | cons raw rest ih => exact ih (h.segment kind _ raw)

/-- The segments that are read are ASCII. -/
private theorem isAscii_readSegments (kind : SchemeKind) (s : List Char) :
    ∀ segment ∈ (readSegments kind s).1, IsAscii segment := by
  have walk : (Walk.run kind {} (pieces kind s)).Ascii :=
    Walk.Ascii.run (by simp [Walk.Ascii]) kind _
  intro segment h
  simp only [readSegments] at h
  -- Only a file URI drops an empty start, and what is left is a part of the walk.
  split at h
  · unfold dropEmptyStart at h
    split at h
    · rw [List.mem_singleton.1 h]
      exact isAscii_nil
    · have mem := (List.dropWhile_sublist _).subset h
      exact walk segment (List.mem_reverse.1 mem)
  · exact walk segment (List.mem_reverse.1 h)

/-- A path is ASCII if the segments that it is made from are. -/
private theorem isAscii_segmentStrings {segments : List (List Char)}
    (h : ∀ segment ∈ segments, IsAscii segment) :
    (UriPath.rooted (segments.map String.ofList)).Ascii := by
  intro s hs
  obtain ⟨segment, mem, rfl⟩ := List.mem_map.1 hs
  rw [String.toList_ofList]
  exact h segment mem

/-- An encoded part of a URI is ASCII. -/
private theorem isAscii_encodePart (set : EncodeSet) (raw : List Char) :
    IsAscii (encodePart set raw).toList := by
  rw [encodePart, String.toList_ofList]
  exact isAscii_encode _ _

/-! ### Authorities -/

/-- A host in brackets is an address. -/
private theorem ascii_of_bracketedHost {s : List Char} {host : Host}
    (h : bracketedHost s = .ok host) : host.Ascii := by
  unfold bracketedHost at h
  split at h
  · split at h
    · rw [Except.ok.injEq] at h
      exact h ▸ trivial
    · simp at h
  · simp at h

/-- A domain that is accepted is ASCII, whatever is made of the names that are not. -/
theorem ascii_of_domainHost [DomainNames] {s : List Char} {host : Host}
    (h : domainHost s = .ok host) : host.Ascii := by
  unfold domainHost at h
  split at h
  · simp at h
  split at h
  · simp at h
  · split at h
    · simp at h
    · rename_i allowed
      split at h
      · split at h
        · rw [Except.ok.injEq] at h
          exact h ▸ trivial
        · simp at h
      · rw [Except.ok.injEq] at h
        rw [← h]
        simp only [Host.Ascii, String.toList_ofList]
        intro c hc
        simp only [Bool.not_eq_true', Bool.not_eq_false, List.all_eq_true] at allowed
        -- What is not ASCII is not allowed in a domain.
        have domain := allowed c hc
        simp only [inDomain, Bool.not_eq_true', Bool.or_eq_false_iff, decide_eq_false_iff_not]
          at domain
        omega

/-- A host of any kind is ASCII: a general one is encoded, with its forbidden characters refused. -/
private theorem ascii_of_readHost [DomainNames] {kind : SchemeKind} {s : List Char} {host : Host}
    (h : readHost kind s = .ok host) : host.Ascii := by
  unfold readHost at h
  split at h
  · exact ascii_of_bracketedHost h
  · split at h
    · exact ascii_of_domainHost h
    · unfold generalHost at h
      split at h
      · simp at h
      · rw [Except.ok.injEq] at h
        rw [← h]
        simp only [Host.Ascii, String.toList_ofList]
        exact isAscii_encode _ _

/-- The empty host is ASCII. -/
private theorem ascii_noHost : (Host.name "").Ascii :=
  isAscii_nil

section

variable [DomainNames]

/-- The host of a file URI is ASCII, and stays so when it is dropped because it is the local one. -/
private theorem ascii_of_readFileHost {s : List Char} {host : Host}
    (h : readFileHost s = .ok host) : host.Ascii := by
  unfold readFileHost at h
  split at h
  · rw [Except.ok.injEq] at h
    exact h ▸ ascii_noHost
  · cases eq : readHost .file s with
    | error fault => simp [eq, Except.map] at h
    | ok read =>
      simp only [eq, Except.map, Except.ok.injEq] at h
      subst h
      split
      · exact ascii_noHost
      · exact ascii_of_readHost eq

/-- An authority is ASCII if its credentials are, as its port is a number. -/
private theorem ascii_of_readHostPort {kind : SchemeKind} {credentials : Credentials}
    {s left : List Char} {a : Authority} (user : IsAscii credentials.user.toList)
    (password : ∀ p, credentials.password = some p → IsAscii p.toList)
    (h : readHostPort kind credentials s = .ok (a, left)) : a.Ascii := by
  simp only [readHostPort, bind, Except.bind, pure, Except.pure, throw, throwThe,
    MonadExceptOf.throw] at h
  split at h
  · simp at h
  · split at h
    · simp at h
    · rename_i host read
      split at h
      · simp at h
      · split at h
        · simp at h
        · -- Of all the ways through, only the last one gives an authority.
          split at h
          · simp at h
          · simp only [Except.ok.injEq, Prod.mk.injEq] at h
            rw [← h.1]
            exact ⟨user, password, ascii_of_readHost read⟩

/-- An authority is ASCII, as its credentials are encoded. -/
private theorem ascii_of_readAuthority {kind : SchemeKind} {more : Bool} {s left : List Char}
    {a : Authority} (h : readAuthority kind more s = .ok (a, left)) : a.Ascii := by
  have noUser : IsAscii ({} : Credentials).user.toList := isAscii_nil
  unfold readAuthority at h
  split at h
  · exact ascii_of_readHostPort noUser (by simp) h
  · split at h
    · simp at h
    · exact ascii_of_readHostPort noUser (by simp) h
  · rename_i before hostText _ _
    -- Both the user name and the password are encoded when they are read.
    refine ascii_of_readHostPort ?_ ?_ h
    · rw [readCredentials, String.toList_ofList]
      exact isAscii_encode _ _
    · intro p eq
      simp only [readCredentials] at eq
      split at eq
      · rw [Option.some.injEq] at eq
        rw [← eq, String.toList_ofList]
        exact isAscii_encode _ _
      · simp at eq

end

/-! ### URIs -/

/-- A file URI with an ASCII host is ASCII. -/
private theorem ascii_filePath {host : Host} (ascii : host.Ascii) (s : List Char) :
    (filePath host s).Ascii where
  scheme := by simp [filePath, IsAscii]
  authority := by
    intro a eq
    simp only [filePath, Option.some.injEq] at eq
    rw [← eq]
    refine ⟨isAscii_nil, by simp, ?_⟩
    simp only
    split
    · exact ascii_noHost
    · exact ascii
  path := isAscii_segmentStrings (isAscii_readSegments .file s)
  query := by simp [filePath]
  fragment := by simp [filePath]

section

variable [DomainNames]

/-- A file URI is ASCII if two slashes start it, with a host or with a drive behind them. -/
private theorem ascii_of_readFileAuthority {s : List Char} {u : Uri}
    (h : readFileAuthority s = .ok u) : u.Ascii := by
  simp only [readFileAuthority, bind, Except.bind, pure, Except.pure] at h
  split at h
  · rw [Except.ok.injEq] at h
    exact h ▸ ascii_filePath ascii_noHost _
  · split at h
    · simp at h
    · rename_i host read
      split at h
      · rw [Except.ok.injEq] at h
        exact h ▸ ascii_filePath (ascii_of_readFileHost read) _
      · rw [Except.ok.injEq] at h
        exact h ▸ ascii_filePath (ascii_of_readFileHost read) _

/-- A file URI is ASCII, however many slashes start it. -/
private theorem ascii_of_readFileBody {s : List Char} {u : Uri} (h : readFileBody s = .ok u) :
    u.Ascii := by
  -- Wherever no host is read, the path has an empty one.
  have localPath : ∀ {s : List Char},
      (Except.ok (filePath (.name "") s) : Except UriFault Uri) = .ok u → u.Ascii := by
    intro s h
    rw [Except.ok.injEq] at h
    exact h ▸ ascii_filePath ascii_noHost _
  unfold readFileBody at h
  split at h
  · exact localPath h
  · split at h
    · split at h
      · exact localPath h
      · split at h
        · exact ascii_of_readFileAuthority h
        · exact localPath h
    · exact localPath h

/-- A URI with an authority is ASCII if its scheme is. -/
private theorem ascii_of_readAuthorityBody {scheme : String} {kind : SchemeKind} {more : Bool}
    {s : List Char} {u : Uri} (ascii : IsAscii scheme.toList)
    (h : readAuthorityBody scheme kind more s = .ok u) : u.Ascii := by
  simp only [readAuthorityBody, bind, Except.bind, pure, Except.pure] at h
  split at h
  · simp at h
  · rename_i read eq
    rw [Except.ok.injEq] at h
    subst h
    refine ⟨ascii, ?_, ?_, by simp, by simp⟩
    · -- The authority and the path are read from separate parts of the text.
      intro a ha
      rw [Option.some.injEq] at ha
      exact ha ▸ ascii_of_readAuthority eq
    · simp only
      split
      · split <;> simp [UriPath.Ascii, IsAscii]
      · exact isAscii_segmentStrings (isAscii_readSegments _ _)

/-- A URI of a general scheme is ASCII if its scheme is, with an authority, a path from the root
    or any other text behind the scheme. -/
private theorem ascii_of_readGeneralBody {scheme : String} {more : Bool} {s : List Char} {u : Uri}
    (ascii : IsAscii scheme.toList) (h : readGeneralBody scheme more s = .ok u) : u.Ascii := by
  unfold readGeneralBody at h
  split at h
  · split at h
    · exact ascii_of_readAuthorityBody ascii h
    · rw [Except.ok.injEq] at h
      rw [← h]
      exact ⟨ascii, by simp, isAscii_segmentStrings (isAscii_readSegments _ _), by simp, by simp⟩
  · rw [Except.ok.injEq] at h
    rw [← h]
    exact ⟨ascii, by simp, isAscii_encodePart _ _, by simp, by simp⟩

/-- A URI is ASCII if its scheme is, whatever kind of scheme that is. -/
private theorem ascii_of_readBody {scheme : String} {more : Bool} {s : List Char} {u : Uri}
    (ascii : IsAscii scheme.toList) (h : readBody scheme more s = .ok u) : u.Ascii := by
  unfold readBody at h
  simp only at h
  split at h
  · exact ascii_of_readFileBody h
  · exact ascii_of_readAuthorityBody ascii h
  · exact ascii_of_readGeneralBody ascii h

end

/-- A fragment is encoded. -/
private theorem isAscii_of_readFragment {s : List Char} {f : String} (h : readFragment s = some f) :
    IsAscii f.toList := by
  unfold readFragment at h
  split at h
  · simp at h
  · rw [Option.some.injEq] at h
    exact h ▸ isAscii_encodePart _ _

/-- A URI stays ASCII when its query and its fragment are added. -/
private theorem ascii_withEnd {u : Uri} (h : u.Ascii) (kind : SchemeKind) (s : List Char) :
    (withEnd kind u s).Ascii := by
  unfold withEnd
  split
  · refine ⟨h.scheme, h.authority, h.path, ?_, fun f hf => isAscii_of_readFragment hf⟩
    intro q hq
    simp only [Option.some.injEq] at hq
    exact hq ▸ isAscii_encodePart _ _
  · exact ⟨h.scheme, h.authority, h.path, h.query, fun f hf => isAscii_of_readFragment hf⟩

/-- The parts of a parsed URI are ASCII. -/
theorem ascii_of_parse [DomainNames] {text : String} {u : Uri} (h : parse text = .ok u) :
    u.Ascii := by
  simp only [parse, bind, Except.bind, pure, Except.pure] at h
  split at h
  · rename_i scheme _ _ eq _
    split at h
    · simp at h
    · rename_i body read
      rw [Except.ok.injEq] at h
      exact h ▸ ascii_withEnd (ascii_of_readBody (isAscii_scheme? eq) read) _ _
  · simp at h

end Uri

end ProjectFile
