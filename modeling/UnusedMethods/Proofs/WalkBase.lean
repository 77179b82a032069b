import UnusedMethods.Proofs.GlobLanguage
import UnusedMethods.Proofs.NeverEntered
import UnusedMethods.Proofs.Relocation

/-!
# The base of a walk

The files that an include entry matches are sought below a base, the part of the entry before its
first pattern. The glob of the entry begins with the text of the base and a slash, whatever follows,
and so does each text that it matches. So no match is missed because a walk starts too far down.

An entry without patterns may stand for all below a directory, which its glob and its base decide on
their own. They decide alike, except for an entry that looks like a directory by its name and is
none: its glob takes it for one and its base does not, but then there is nothing to match.
-/

namespace UnusedMethods

/-! ### Texts that begin with a stem -/

namespace Glob

/-- A text in which no pattern begins. Braces that close one may stand in it. -/
def NoPattern (text : String) : Prop :=
  ∀ c ∈ text.toList, c ∉ ['*', '?', '[', '\x7b', '\\']

/-- What comes after the bytes of a text is a text if all of it is: the later bytes start where the
earlier text ends. -/
theorem exists_back {text start : String} {back : List UInt8}
    (bytes : bytesOf text = bytesOf start ++ back) : ∃ rest : String, text = start ++ rest := by
  simp only [bytesOf, Text.toList_eq_data, String.toUTF8] at bytes
  have whole : text.toByteArray = start.toByteArray ++ ⟨back.toArray⟩ := by
    apply ByteArray.ext
    apply Array.toList_inj.mp
    simp [bytes]
  have sizeBack : (ByteArray.mk back.toArray).size = back.length := rfl
  have size : text.utf8ByteSize = start.utf8ByteSize + back.length := by
    rw [← String.size_toByteArray, whole, ByteArray.size_append, String.size_toByteArray, sizeBack]
  -- What stands before is a whole string, so the cut falls between two characters.
  have ends : String.Pos.Raw.IsValid text ⟨start.utf8ByteSize⟩ := by
    rw [String.Pos.Raw.isValid_iff_isValidUTF8_extract_zero, String.Pos.Raw.le_iff,
      String.byteIdx_rawEndPos, whole, ByteArray.extract_append_eq_left (by simp)]
    exact ⟨size ▸ Nat.le_add_right .., start.isValidUTF8⟩
  have valid := (String.Pos.Raw.isValid_iff_isValidUTF8_extract_utf8ByteSize.mp ends).2
  rw [whole, ByteArray.extract_append_eq_right (by simp) (by simp [size, sizeBack])] at valid
  refine ⟨.ofByteArray _ valid, String.toByteArray_inj.mp ?_⟩
  rw [whole, String.toByteArray_append]

/-- A glob that can be read closes no braces before it opens some. -/
theorem NoPattern.plain_of_parse {stem rest : String} {pieces : List Piece} (literal : NoPattern stem)
    (read : parse (stem ++ rest) = .ok pieces) : ∀ c ∈ stem.toList, isSpecial c = false := by
  have other {c : Char} (member : c ∈ stem.toList) (opens : c ≠ '\x7d') : isSpecial c = false := by
    have plain := literal c member
    simp_all [isSpecial]
  intro c member
  apply other member
  rintro rfl
  -- Up to the first brace that closes one, all letters stand for themselves.
  obtain ⟨before, after, whole, first⟩ := List.eq_append_cons_of_mem member
  have plain : ∀ d ∈ before, isSpecial d = false := fun d earlier =>
    other (whole ▸ List.mem_append_left _ earlier) fun same => first (same ▸ earlier)
  rw [parse, String.toList_append, whole, List.append_assoc, readFrom_plains _ rfl before plain,
    List.cons_append, readFrom.eq_def] at read
  simp at read

/-- Whatever a joint stands for begins with a separator. -/
theorem IsJoint.exists_separator {joint : Piece} (isJoint : IsJoint joint) {run : List UInt8}
    (spells : Spells joint run) : ∃ below, run = bytesOf "/" ++ below := by
  have slash : bytesOf "/" = [separator] := by decide +kernel
  rw [slash]
  cases isJoint with
  | slash =>
    cases spells
    exact ⟨[], by rw [List.append_nil]; decide +kernel⟩
  | between =>
    cases spells with
    | betweenNone => exact ⟨[], rfl⟩
    | betweenDirs dirs => exact ⟨_, rfl⟩
  | trailing =>
    cases spells with
    | trailing below => exact ⟨below, rfl⟩

/-- What a glob matches begins with the plain stem and the separator that the glob begins with. -/
theorem exists_below_of_matches {stem rest : String} {pieces : List Piece}
    (plain : ∀ c ∈ stem.toList, isSpecial c = false)
    (read : parse (stem ++ "/" ++ rest) = .ok pieces) {text : String}
    (matched : matchesPieces pieces text = true) : ∃ more, text = stem ++ "/" ++ more := by
  rcases parse_stem stem plain rest with ⟨_, _, after⟩ | ⟨joint, later, isJoint, _, after⟩
  · cases read.symm.trans after
  rw [List.reverse_reverse] at after
  cases read.symm.trans after
  rcases (matchesPieces_iff _ _).mp matched with alone | ⟨spells, _⟩
  · -- The two stars that match everything come first in a glob, after no separator.
    cases letters : stem.toList with
    | nil =>
      rw [letters] at alone
      obtain ⟨rfl, _⟩ := List.cons_eq_cons.mp alone
      cases isJoint
    | cons c cs =>
      rw [letters] at alone
      simp at alone
  · obtain ⟨front, back, whole, spelled, others⟩ := spells.split
    obtain ⟨run, left, rfl, first, _⟩ := spellAll_cons.mp others
    obtain ⟨below, rfl⟩ := isJoint.exists_separator first
    rw [(spellAll_literals _ _).mp spelled, String.ofList_toList, ← List.append_assoc,
      ← List.append_assoc, ← bytesOf_append, List.append_assoc] at whole
    exact exists_back whole

end Glob

/-! ### Texts of plain paths -/

namespace Path

theorem mem_trail (names : List String) (c : Char) :
    c ∈ (trail names).toList ↔ ∃ name ∈ names, c = '/' ∨ c ∈ name.toList := by
  induction names with
  | nil => simp [trail]
  | cons name names ih =>
    rw [trail, String.toList_append, String.toList_append, List.mem_append, List.mem_append, ih]
    simp

/-- What is written below a plain path lies below it. -/
theorem startsWith_trail (names : List String) (all : ∀ n ∈ names, IsName n) (more : String) :
    startsWith (trail names ++ "/" ++ more) (ofNames names) = true := by
  have absolute : isAbsolute (trail names ++ "/" ++ more) = true := by
    rw [isAbsolute_iff]
    cases names with
    | nil => exact ⟨more, by simp [trail]⟩
    | cons name names =>
      exact ⟨name ++ trail names ++ "/" ++ more, by simp only [trail, String.append_assoc]⟩
  have begins : steps (trail names) = names.map .name := by
    cases names with
    | nil => rfl
    | cons name names =>
      rw [← ofNames_eq_trail _ all (by simp)]
      exact steps_ofNames _ all
  rw [startsWith, components_ofNames names all, components_of_isAbsolute _ absolute, steps_append,
    begins, List.isPrefixOf_iff_prefix]
  exact ⟨steps more, rfl⟩

end Path

/-! ### What lies below a path -/

namespace Disk

/-- Without links, a path below which something is found leads to a directory. -/
theorem hasDir_of_entry_below {disk : Disk} (free : disk.root.linkFree = true) {p : Path}
    (absolute : Path.isAbsolute p = true) {more : String} {found : Entry}
    (below : disk.entry (p ++ "/" ++ more) = .ok found) : disk.hasDir p = true := by
  have absoluteBelow : Path.isAbsolute (p ++ "/" ++ more) = true := by
    rw [String.append_assoc]
    exact Path.isAbsolute_append p _ absolute
  have written : p ≠ "" := by
    rintro rfl
    cases absolute
  obtain ⟨names, resolved, _⟩ := entry_eq_ok.mp below
  obtain ⟨text, _, short, followed⟩ := resolve_eq_ok.mp resolved
  obtain ⟨jump, step⟩ : ∃ jump,
      follow disk.root true linkLimit = followWith disk.root true jump := ⟨_, rfl⟩
  have clear := fun names target => Entry.descend_ne_link free names target
  rw [absoluteBelow, if_pos rfl, Path.segments_append, step, followWith_append clear] at followed
  cases reached : followWith disk.root true jump [] (Path.segments p) with
  | error trouble =>
    rw [reached] at followed
    cases followed
  | ok here =>
    rw [reached] at followed
    -- The text goes on with at least one segment, which is followed from a directory only.
    cases further : Path.segments more with
    | nil => exact absurd (List.map_eq_nil_iff.mp further) (Path.pieces_ne_nil _ _)
    | cons segment rest =>
      rw [further, Except.bind, followWith] at followed
      split at followed
      next entries descended =>
        have resolvedHere : disk.resolve true p = .ok here.reverse := by
          rw [resolve_eq_ok, absolute, if_pos rfl, step, reached, List.reverse_reverse]
          refine ⟨fun listed => text ?_, written, ?_, rfl⟩
          · simp [listed]
          · simp only [String.utf8ByteSize_append] at short
            omega
        rw [hasDir, entry_eq_ok.mpr ⟨_, resolvedHere, descended⟩]
        rfl
      · cases followed
      · cases followed
      · cases followed

theorem Proper.hasDir_slash {disk : Disk} (proper : disk.Proper) : disk.hasDir "/" = true := by
  have root : disk.entry "/" = .ok disk.root := entry_eq_ok.mpr ⟨[], proper.resolve_slash, rfl⟩
  obtain ⟨entries, isDir⟩ := proper.rooted
  rw [hasDir, root, isDir]
  rfl

/-- Where something is found below a plain path, that path leads to a directory. -/
theorem Proper.hasDir_of_below {disk : Disk} (proper : disk.Proper)
    (free : disk.root.linkFree = true) {names : List String} (all : ∀ n ∈ names, Path.IsName n)
    {more : String} (found : disk.hasFile (Path.trail names ++ "/" ++ more) = true) :
    disk.hasDir (Path.ofNames names) = true := by
  cases names with
  | nil => exact proper.hasDir_slash
  | cons name names =>
    rw [← Path.ofNames_eq_trail _ all (by simp), hasFile] at found
    split at found
    next entry leads => exact hasDir_of_entry_below free (Path.isAbsolute_ofNames _) leads
    · cases found

end Disk

/-! ### Bases and globs of entries -/

namespace Gather

theorem withoutEndSlashes_eq_self {text : String} (last : text.toList.getLast? ≠ some '/') :
    withoutEndSlashes text = text := by
  have kept : text.toList.reverse.dropWhile (· == '/') = text.toList.reverse := by
    cases reversed : text.toList.reverse with
    | nil => rfl
    | cons c cs =>
      rw [List.getLast?_eq_head?_reverse, reversed] at last
      have other : ¬ (c == '/') = true := by simpa using last
      exact List.dropWhile_cons_of_neg other
  rw [withoutEndSlashes, kept, List.reverse_reverse, String.ofList_toList]

theorem withoutEndSlashes_trail (names : List String) (all : ∀ n ∈ names, Path.IsName n) :
    withoutEndSlashes (Path.trail names) = Path.trail names := by
  apply withoutEndSlashes_eq_self
  cases names using List.reverseRecOn with
  | nil => simp [Path.trail]
  | append_singleton names name =>
    have proper : Path.IsName name := all name (by simp)
    have letters : name.toList ≠ [] := fun none => proper.ne_empty (String.toList_inj.mp none)
    intro last
    simp only [Path.trail_append, Path.trail, String.append_empty, String.toList_append] at last
    rw [List.getLast?_append_of_ne_nil _ (by simp), List.getLast?_append_of_ne_nil _ letters] at last
    exact proper.single (List.mem_of_getLast? last)

/-- Whether an entry names a directory, by the letters of its last segment. -/
theorem namesDir_eq_letters (disk : Disk) (entry : Path) :
    namesDir disk entry =
      (!hasWildcard ((Path.segments entry.slashed).getLastD "") &&
        (!((Path.segments entry.slashed).getLastD "").toList.contains '.' || disk.hasDir entry)) := by
  simp [namesDir, String.contains_char_eq]

theorem namesDir_root {disk : Disk} (proper : disk.Proper) :
    namesDir disk (Path.ofNames []) = true := by
  have last : (Path.segments (Path.slashed "/")).getLastD "" = "" := by decide +kernel
  have plain : hasWildcard "" = false := by decide
  rw [namesDir, show Path.ofNames [] = "/" from rfl, last, plain, proper.hasDir_slash]
  simp

theorem baseNames_begins (isDir : Bool) (names : List String) : baseNames isDir names <+: names := by
  have taken := List.takeWhile_prefix (l := names) (!hasWildcard ·)
  rw [baseNames]
  split
  · exact taken
  · apply List.IsPrefix.trans _ taken
    exact List.dropLast_prefix _

theorem hasWildcard_of_mem_baseNames {isDir : Bool} {names : List String} {name : String}
    (member : name ∈ baseNames isDir names) : hasWildcard name = false := by
  have taken : name ∈ names.takeWhile (!hasWildcard ·) := by
    rw [baseNames] at member
    split at member
    · exact member
    · exact List.mem_of_mem_dropLast member
  simpa using List.mem_takeWhile_imp taken

theorem baseNames_of_plain (isDir : Bool) {names : List String}
    (plain : ∀ name ∈ names, hasWildcard name = false) :
    baseNames isDir names = if isDir then names else names.dropLast := by
  have taken : names.takeWhile (!hasWildcard ·) = names := by
    rw [List.takeWhile_eq_self_iff]
    intro name listed
    rw [plain name listed]
    rfl
  simp only [baseNames, taken, Nat.lt_irrefl, decide_false, Bool.false_or]

/-- The base of an entry that is no directory ends before its last name. -/
theorem baseNames_ne_self {names : List String} (some_ : names ≠ []) :
    baseNames false names ≠ names := by
  intro whole
  have plain : ∀ name ∈ names, hasWildcard name = false := by
    intro name listed
    apply hasWildcard_of_mem_baseNames
    rwa [whole]
  have shorter := congrArg List.length whole
  rw [baseNames_of_plain false plain, if_neg Bool.false_ne_true, List.length_dropLast] at shorter
  have written : 0 < names.length := List.length_pos_iff.mpr some_
  omega

/-- The names of an entry before the first pattern, without the last one if there is no pattern and
the entry is no directory, lead to its base. -/
theorem walkBase_eq {disk : Disk} (proper : disk.Proper) (names : List String)
    (all : ∀ n ∈ names, Path.IsName n) :
    walkBase disk (Path.ofNames names) =
      Path.ofNames (baseNames (disk.hasDir (Path.ofNames names)) names) := by
  have literal : Path.IsLiteral (Path.ofNames []) := by
    intro c member
    obtain rfl : c = '/' := by simpa [Path.ofNames] using member
    decide
  have base := walkBase_ofNames names all (List.forall_mem_nil _) literal proper.hasDir_slash
  rwa [List.nil_append, List.nil_append] at base

section

variable {disk : Disk} {names : List String} (all : ∀ n ∈ names, Path.IsName n)
  (forward : '\\' ∉ (Path.ofNames names).toList)
include all forward

/-- An entry names a directory by its last name: that is no pattern, and has no dot unless there is
such a directory. -/
theorem namesDir_ofNames {before : List String} {name : String} (split_ : names = before ++ [name]) :
    namesDir disk (Path.ofNames names) =
      (!hasWildcard name && (!name.contains '.' || disk.hasDir (Path.ofNames names))) := by
  subst split_
  rw [namesDir, Path.slashed_eq_self forward, Path.segments_ofNames before name all,
    ← List.cons_append, List.getLastD_concat]

/-- Names that are no patterns make a text in which none begins. -/
theorem noPattern_trail {base : List String} (within : base ⊆ names)
    (plain : ∀ name ∈ base, hasWildcard name = false) : Glob.NoPattern (Path.trail base) := by
  intro c member
  obtain ⟨name, listed, rfl | letter⟩ := (Path.mem_trail base c).mp member
  · decide
  · have noWildcard := plain name listed
    rw [hasWildcard, List.any_eq_false] at noWildcard
    -- A backslash is no wildcard to the walk, but it escapes in a glob.
    have other : c ≠ '\\' := by
      rintro rfl
      rw [Path.ofNames_eq_trail names all (List.ne_nil_of_mem (within listed))] at forward
      exact forward ((Path.mem_trail names _).mpr ⟨name, within listed, .inr letter⟩)
    have here := noWildcard c letter
    simp_all

variable (proper : disk.Proper)
include proper

/-- The glob of an entry is its names, those of a directory with stars after them. -/
theorem includeGlob_ofNames :
    includeGlob disk (Path.ofNames names) =
      Path.trail (if namesDir disk (Path.ofNames names) then names ++ ["**", "*"] else names) := by
  rw [includeGlob, Path.slashed_eq_self forward]
  cases names with
  | nil =>
    rw [namesDir_root proper]
    decide +kernel
  | cons name names =>
    rw [Path.ofNames_eq_trail _ all (by simp)]
    split
    · rw [withoutEndSlashes_trail _ all, Path.trail_append]
      rfl
    · rfl

/-- An entry that is all base names a directory. -/
theorem namesDir_of_baseNames
    (whole : baseNames (disk.hasDir (Path.ofNames names)) names = names) :
    namesDir disk (Path.ofNames names) = true := by
  cases names using List.reverseRecOn with
  | nil => exact namesDir_root proper
  | append_singleton names name =>
    have plain : hasWildcard name = false := by
      apply hasWildcard_of_mem_baseNames
      rw [whole]
      simp
    have isDir : disk.hasDir (Path.ofNames (names ++ [name])) = true := by
      by_contra noDir
      rw [Bool.not_eq_true] at noDir
      rw [noDir] at whole
      exact baseNames_ne_self (by simp) whole
    rw [namesDir_ofNames all forward rfl, plain, isDir]
    simp

/-- The glob of an entry goes on below its base. -/
theorem includeGlob_below : ∃ rest, includeGlob disk (Path.ofNames names) =
    Path.trail (baseNames (disk.hasDir (Path.ofNames names)) names) ++ "/" ++ rest := by
  have alone := namesDir_of_baseNames all forward proper
  obtain ⟨tail, whole⟩ := baseNames_begins (disk.hasDir (Path.ofNames names)) names
  rw [includeGlob_ofNames all forward proper]
  generalize baseNames (disk.hasDir (Path.ofNames names)) names = base at alone whole
  have further (more : List String) (some_ : more ≠ []) :
      ∃ rest, Path.trail (base ++ more) = Path.trail base ++ "/" ++ rest := by
    cases more with
    | nil => exact absurd rfl some_
    | cons first more =>
      refine ⟨first ++ Path.trail more, ?_⟩
      rw [Path.trail_append, Path.trail]
      simp only [String.append_assoc]
  -- A name or the stars of a directory follow: an entry that ends with its base names one.
  split
  · rw [← whole, List.append_assoc]
    apply further
    simp
  next other =>
    rw [← whole]
    apply further
    rintro rfl
    rw [List.append_nil] at whole
    exact other (alone whole)

end

/-! ### What the globs of entries match -/

/-- What a glob matches that goes on below names without patterns is written below them. -/
theorem exists_below_of_isMatch {base : List String} (literal : Glob.NoPattern (Path.trail base))
    {rest : String} {globs : Glob.AnyOf}
    (read : Targets.readGlobs [Path.trail base ++ "/" ++ rest] = .ok globs) {f : String}
    (matched : globs.isMatch f = true) : ∃ more, f = Path.trail base ++ "/" ++ more := by
  rw [Targets.readGlobs_eq_ok, Glob.AnyOf.ofTexts_eq_ok] at read
  obtain ⟨pieces, none, ⟨parsed, _⟩, ⟨⟩, only⟩ := List.forall₂_cons_left_iff.mp read
  rw [Glob.AnyOf.isMatch, only, List.any_cons, List.any_nil, Bool.or_false] at matched
  have plain := literal.plain_of_parse (by rwa [String.append_assoc] at parsed)
  exact Glob.exists_below_of_matches plain parsed matched

/-- How an entry without patterns is read: its glob and its base both take it for a directory, or
both for a file, or, if only its name is like that of a directory, the glob takes it for one and the
base does not, and the glob matches no file. -/
inductive EntryReading (disk : Disk) (entry : Path) (globs : Glob.AnyOf) : Prop where
  | directory (isDir : disk.hasDir entry = true)
      (glob : includeGlob disk entry = Path.join entry "**/*")
      (base : walkBase disk entry = entry)
  | file {name : String} (noDir : disk.hasDir entry = false)
      (last : Path.fileName? entry = some name) (dotted : name.contains '.' = true)
      (glob : includeGlob disk entry = entry)
      (base : Path.parent? entry = some (walkBase disk entry))
  | nameOnly {name : String} (noDir : disk.hasDir entry = false)
      (last : Path.fileName? entry = some name) (undotted : name.contains '.' = false)
      (glob : includeGlob disk entry = Path.join entry "**/*")
      (base : Path.parent? entry = some (walkBase disk entry))
      (unmatched : ∀ f, disk.hasFile f = true → globs.isMatch f = false)

theorem hasWildcard_of_mem {names : List String} (all : ∀ n ∈ names, Path.IsName n)
    (literal : hasWildcard (Path.ofNames names) = false) :
    ∀ name ∈ names, hasWildcard name = false := by
  intro name listed
  rw [Path.ofNames_eq_trail names all (List.ne_nil_of_mem listed), hasWildcard,
    List.any_eq_false] at literal
  rw [hasWildcard, List.any_eq_false]
  intro c letter
  exact literal c ((Path.mem_trail names c).mpr ⟨name, listed, .inr letter⟩)

theorem trail_stars (names : List String) (all : ∀ n ∈ names, Path.IsName n) :
    Path.trail (names ++ ["**", "*"]) = Path.join (Path.ofNames names) "**/*" := by
  rw [Config.join_all names all, Path.ofNames_eq_trail _ _ (by simp)]
  exact List.forall_mem_append.mpr ⟨all, Config.isName_stars⟩

section

variable {disk : Disk} (proper : disk.Proper) (free : disk.root.linkFree = true)
include proper free

/-- Where a plain path leads to no directory, nothing that its names with stars after them match is
a file: it would lie below the path. -/
theorem isMatch_of_noDir {names : List String} (all : ∀ n ∈ names, Path.IsName n)
    (literal : Glob.NoPattern (Path.trail names))
    (noDir : disk.hasDir (Path.ofNames names) = false) {globs : Glob.AnyOf}
    (read : Targets.readGlobs [Path.trail (names ++ ["**", "*"])] = .ok globs) {f : Path}
    (found : disk.hasFile f = true) : globs.isMatch f = false := by
  by_contra matched
  rw [Bool.not_eq_false] at matched
  have below : Path.trail (names ++ ["**", "*"]) = Path.trail names ++ "/" ++ "**/*" := by
    rw [Path.trail_append, String.append_assoc]
    rfl
  rw [below] at read
  obtain ⟨more, rfl⟩ := exists_below_of_isMatch literal read matched
  rw [proper.hasDir_of_below free all found] at noDir
  cases noDir

/-- An entry without patterns is read in one of three ways. -/
theorem entryReading {names : List String} (all : ∀ n ∈ names, Path.IsName n)
    (forward : '\\' ∉ (Path.ofNames names).toList)
    (noWildcard : hasWildcard (Path.ofNames names) = false) {globs : Glob.AnyOf}
    (read : Targets.readGlobs [includeGlob disk (Path.ofNames names)] = .ok globs) :
    EntryReading disk (Path.ofNames names) globs := by
  have plain := hasWildcard_of_mem all noWildcard
  have base := walkBase_eq proper names all
  have glob := includeGlob_ofNames all forward proper
  rw [baseNames_of_plain _ plain] at base
  cases isDir : disk.hasDir (Path.ofNames names) with
  | true =>
    have named : namesDir disk (Path.ofNames names) = true := by
      apply namesDir_of_baseNames all forward proper
      rw [baseNames_of_plain _ plain, isDir, if_pos rfl]
    rw [isDir, if_pos rfl] at base
    rw [named, if_pos rfl, trail_stars names all] at glob
    exact .directory isDir glob base
  | false =>
    rw [isDir, if_neg Bool.false_ne_true] at base
    cases names using List.reverseRecOn with
    | nil =>
      -- The root is a directory.
      rw [show Path.ofNames [] = "/" from rfl, proper.hasDir_slash] at isDir
      cases isDir
    | append_singleton names name =>
      have last : Path.fileName? (Path.ofNames (names ++ [name])) = some name := by
        rw [Path.fileName?, Path.components_ofNames _ all, List.map_append, ← List.cons_append,
          List.map_singleton, List.getLast?_concat]
      have parent := Path.parent_ofNames names name all
      rw [List.dropLast_concat] at base
      rw [← base] at parent
      -- What is no directory is taken for one by its name alone.
      rw [namesDir_ofNames all forward rfl, plain name (by simp), isDir] at glob
      cases dotted : name.contains '.' with
      | true =>
        rw [dotted, if_neg (by decide), ← Path.ofNames_eq_trail _ all (by simp)] at glob
        exact .file isDir last dotted glob parent
      | false =>
        rw [dotted, if_pos (by decide)] at glob
        have literal := noPattern_trail all forward (List.Subset.refl _) plain
        rw [glob] at read
        rw [trail_stars _ all] at glob
        apply EntryReading.nameOnly isDir last dotted glob parent
        intro f found
        exact isMatch_of_noDir proper free all literal isDir read found

end

/-- The base of an entry covers its glob: what the glob matches lies below the base, which is a
directory if there is such a file. An entry without patterns is read by both in the same way, but
for one that is a directory by its name only. -/
theorem walkBase_covers {disk : Disk} (proper : disk.Proper) (free : disk.root.linkFree = true)
    {entry : Path} (absolute : Path.isAbsolute entry = true) (cleaned : Path.clean entry = entry)
    (forward : '\\' ∉ entry.toList) {globs : Glob.AnyOf}
    (read : Targets.readGlobs [includeGlob disk entry] = .ok globs) :
    (∀ f : Path, globs.isMatch f = true →
      Path.startsWith f (walkBase disk entry) = true ∧
        (disk.hasFile f = true → disk.hasDir (walkBase disk entry) = true)) ∧
      (hasWildcard entry = false → EntryReading disk entry globs) := by
  have isPlain := Path.isPlain_clean entry absolute
  rw [cleaned] at isPlain
  obtain ⟨names, all, rfl⟩ := isPlain
  constructor
  -- The glob goes on from the base's own letters, which are no pattern.
  · intro f matched
    obtain ⟨rest, glob⟩ := includeGlob_below all forward proper
    rw [walkBase_eq proper names all]
    rw [glob] at read
    generalize disk.hasDir (Path.ofNames names) = isDir at read
    have within := (baseNames_begins isDir names).subset
    have allBase : ∀ n ∈ baseNames isDir names, Path.IsName n := by
      intro n member
      exact all n (within member)
    have literal := noPattern_trail all forward within fun _ => hasWildcard_of_mem_baseNames
    obtain ⟨more, rfl⟩ := exists_below_of_isMatch literal read matched
    constructor
    · exact Path.startsWith_trail _ allBase more
    · exact proper.hasDir_of_below free allBase
  · intro noWildcard
    exact entryReading proper free all forward noWildcard read

theorem walkBase_covers_packed :
    (∃ globs, Targets.readGlobs [includeGlob packedDisk "/p/a/**/[f-g].ts"] = .ok globs ∧
      globs.isMatch "/p/a/f/g.ts" = true ∧
      Path.startsWith "/p/a/f/g.ts" (walkBase packedDisk "/p/a/**/[f-g].ts") = true ∧
      packedDisk.hasFile "/p/a/f/g.ts" = true ∧
      packedDisk.hasDir (walkBase packedDisk "/p/a/**/[f-g].ts") = true) ∧
      ∀ entry ∈ ["/p/a", "/p/b.ts", "/p/lib"], ∃ globs,
        Targets.readGlobs [includeGlob packedDisk entry] = .ok globs ∧
          EntryReading packedDisk entry globs := by
  have free : packedDisk.root.linkFree = true := by decide +kernel
  constructor
  · obtain ⟨globs, read⟩ := exists_eq_ok (x := Targets.readGlobs
      [includeGlob packedDisk "/p/a/**/[f-g].ts"]) (by decide +kernel)
    have tested : (Targets.readGlobs [includeGlob packedDisk "/p/a/**/[f-g].ts"]).map
        (·.isMatch "/p/a/f/g.ts") = .ok true := by
      decide +kernel
    rw [read] at tested
    have matched : globs.isMatch "/p/a/f/g.ts" = true := Except.ok.inj tested
    have found : packedDisk.hasFile "/p/a/f/g.ts" = true := by decide +kernel
    obtain ⟨below, isDir⟩ := (walkBase_covers packedDisk_proper free (by decide +kernel)
      (by decide +kernel) (by decide +kernel) read).1 "/p/a/f/g.ts" matched
    exact ⟨globs, read, matched, below, found, isDir found⟩
  · have globs : ∀ entry ∈ ["/p/a", "/p/b.ts", "/p/lib"],
        (Targets.readGlobs [includeGlob packedDisk entry]).isOk = true := by
      simp only [includeGlob, namesDir_eq_letters]
      decide +kernel
    have admissible : ∀ entry ∈ ["/p/a", "/p/b.ts", "/p/lib"], Path.isAbsolute entry = true ∧
        Path.clean entry = entry ∧ '\\' ∉ entry.toList ∧ hasWildcard entry = false := by
      decide +kernel
    intro entry listed
    obtain ⟨absolute, cleaned, forward, noPattern⟩ := admissible entry listed
    obtain ⟨any, read⟩ := exists_eq_ok (globs entry listed)
    exact ⟨any, read,
      (walkBase_covers packedDisk_proper free absolute cleaned forward read).2 noPattern⟩

/-- An entry that is a directory by its name only has the base of a file, above the directory that
its glob names. A walk from there covers the bases of later entries, also where it never enters. -/
theorem namesDir_not_walkBase :
    libraryDisk.root.linkFree = true ∧
      Path.isAbsolute "/p/lib" = true ∧ Path.clean "/p/lib" = "/p/lib" ∧
      (Targets.readGlobs [includeGlob libraryDisk "/p/lib"]).isOk = true ∧
      ¬ (namesDir libraryDisk "/p/lib" = true ↔ walkBase libraryDisk "/p/lib" = "/p/lib") ∧
      gather libraryDisk (librarySet ["/p/node_modules/lib/*"]) =
        .ok ["/p/node_modules/lib/a.ts"] ∧
      gather libraryDisk (librarySet ["/p/lib", "/p/node_modules/lib/*"]) = .ok [] := by
  have named : namesDir libraryDisk "/p/lib" = true := by
    rw [namesDir_eq_letters]
    decide +kernel
  have glob : includeGlob libraryDisk "/p/lib" = "/p/lib/**/*" := by
    rw [includeGlob, named]
    decide +kernel
  have base : walkBase libraryDisk "/p/lib" = "/p" := by decide +kernel
  refine ⟨by decide +kernel, by decide +kernel, by decide +kernel, ?_, ?_, ?_, ?_⟩
  · rw [glob]
    decide +kernel
  · rw [base, named]
    decide
  · have alone : met libraryDisk (librarySet ["/p/node_modules/lib/*"]) enters =
        .ok ["/p/node_modules/lib/a.ts"] := by
      decide +kernel
    refine gather_eq_ok.mpr ⟨_, alone, ?_⟩
    simp [Path.distinct, Path.distinctBeyond]
  · have covered : met libraryDisk (librarySet ["/p/lib", "/p/node_modules/lib/*"]) enters =
        .ok [] := by
      simp only [met, librarySet, List.map_cons, glob]
      decide +kernel
    exact gather_eq_ok.mpr ⟨_, covered, rfl⟩

end Gather

end UnusedMethods
