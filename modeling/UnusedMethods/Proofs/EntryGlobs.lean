import Mathlib.Data.List.TakeWhile
import UnusedMethods.Proofs.GlobStem
import UnusedMethods.Proofs.Placement

/-!
# The globs of a manifest's entries

The entries of a manifest are put after the path of its directory before they are read as globs. A
path below the directory is written as the stem of the directory and what its names decide. If the
path of the directory has no character that globs give a meaning, the glob of an entry says about
paths below the directory what the entry alone decides, wherever the directory lies.
-/

namespace UnusedMethods

/-! ### The texts of paths below a directory -/

namespace Path

/-- Names one below the other, each after a slash. -/
def trail : List String → Path
  | [] => ""
  | name :: names => "/" ++ name ++ trail names

theorem trail_append (names more : List String) :
    trail (names ++ more) = trail names ++ trail more := by
  induction names with
  | nil => simp [trail]
  | cons name names ih => rw [List.cons_append, trail, trail, ih, ← String.append_assoc]

theorem ofNames_eq_trail (names : List String) (all : ∀ n ∈ names, IsName n)
    (below : names ≠ []) : ofNames names = trail names := by
  induction names using List.reverseRecOn with
  | nil => exact absurd rfl below
  | append_singleton names name ih =>
    have single := (all name (by simp)).single
    have before : ∀ n ∈ names, IsName n := fun n member => all n (List.mem_append_left _ member)
    rw [ofNames_concat, trail_append]
    -- Only the path of the root ends in a slash, so the first name is joined without one.
    cases names using List.reverseRecOn with
    | nil => simp [show ofNames [] = "/" from rfl, join_slash name single, trail]
    | append_singleton names last =>
      rw [join_of_last _ ("" :: names) last name (segments_ofNames names last before)
        (before last (by simp)).ne_empty single, ih before (by simp)]
      simp [trail, String.append_assoc]

theorem slashed_append (p q : Path) : slashed (p ++ q) = slashed p ++ slashed q := by
  rw [← String.toList_inj]
  simp [slashed, String.toList_map]

theorem slashed_slash : slashed "/" = "/" := by
  decide +kernel

/-- The text, with slashes only, that all paths below a directory begin with. -/
def stem (home : List String) : String :=
  slashed (trail home)

/-- A path below a directory is written as the stem, a slash, and what its names alone decide. -/
theorem exists_slashed_below (names : List String) (all : ∀ n ∈ names, IsName n)
    (below : names ≠ []) :
    ∃ rest, ∀ home, (∀ n ∈ home, IsName n) →
      slashed (ofNames (home ++ names)) = stem home ++ "/" ++ rest := by
  cases names with
  | nil => exact absurd rfl below
  | cons name names =>
    refine ⟨slashed (name ++ trail names), fun home proper => ?_⟩
    have whole : ∀ n ∈ home ++ name :: names, IsName n :=
      List.forall_mem_append.mpr ⟨proper, all⟩
    rw [ofNames_eq_trail _ whole (by simp), trail_append, slashed_append, trail,
      String.append_assoc, slashed_append "/", slashed_slash, ← String.append_assoc, stem]

/-- A path without characters that globs give a meaning. A backslash is no such character, since
paths are matched with slashes. -/
def IsLiteral (p : Path) : Prop :=
  ∀ c ∈ p.toList, c ∉ ['*', '?', '[', '\x7b', '\x7d']

theorem IsLiteral.slashed {p : Path} (literal : IsLiteral p) : IsLiteral (slashed p) := by
  intro c member
  simp only [Path.slashed, String.toList_map, List.mem_map] at member
  obtain ⟨original, listed, rfl⟩ := member
  split
  · decide
  · exact literal original listed

theorem not_mem_slashed (p : Path) : '\\' ∉ (slashed p).toList := by
  intro member
  simp only [slashed, String.toList_map, List.mem_map] at member
  obtain ⟨original, _, same⟩ := member
  split at same
  · cases same
  next other => simp [same] at other

/-- The stem of a literal path is plain for globs. -/
theorem IsLiteral.isSpecial_stem {home : List String} (literal : IsLiteral (ofNames home))
    (proper : ∀ n ∈ home, IsName n) (c : Char) (member : c ∈ (stem home).toList) :
    Glob.isSpecial c = false := by
  have plain : c ∉ ['*', '?', '[', '\x7b', '\x7d'] := by
    cases home with
    | nil => simp [stem, trail, Path.slashed] at member
    | cons name names =>
      rw [ofNames_eq_trail _ proper (by simp)] at literal
      exact literal.slashed c member
  have forward : c ≠ '\\' := fun same => not_mem_slashed _ (same ▸ member)
  simp_all [Glob.isSpecial]

theorem subset_of_mem_pieces (sep : Char) (xs piece : List Char) (member : piece ∈ pieces sep xs) :
    piece ⊆ xs := by
  induction xs generalizing piece with
  | nil => simp_all [pieces]
  | cons c xs ih =>
    rw [pieces] at member
    split at member
    · rcases List.mem_cons.mp member with rfl | later
      · exact List.nil_subset _
      · exact List.subset_cons_of_subset c (ih piece later)
    · split at member
      next none => exact absurd none (pieces_ne_nil sep xs)
      next first more equal =>
        rcases List.mem_cons.mp member with rfl | later
        · exact List.cons_subset_cons c (ih first (equal ▸ List.mem_cons_self))
        · exact List.subset_cons_of_subset c (ih piece (equal ▸ List.mem_cons_of_mem _ later))

theorem IsLiteral.hasWildcard_segment {p : Path} (literal : IsLiteral p) (segment : String)
    (member : segment ∈ segments p) : Gather.hasWildcard segment = false := by
  obtain ⟨piece, listed, rfl⟩ := List.mem_map.mp member
  rw [Gather.hasWildcard, String.toList_ofList, List.any_eq_false]
  intro c within
  have plain := literal c (subset_of_mem_pieces _ _ _ listed within)
  simp_all

theorem IsLiteral.hasWildcard_name {home : List String} (literal : IsLiteral (ofNames home))
    (proper : ∀ n ∈ home, IsName n) (name : String) (member : name ∈ home) :
    Gather.hasWildcard name = false := by
  apply literal.hasWildcard_segment
  cases home using List.reverseRecOn with
  | nil => cases member
  | append_singleton names last =>
    rw [segments_ofNames names last proper]
    exact List.mem_cons_of_mem _ member

end Path

/-! ### The globs of entries below a directory -/

namespace Gather

open UnusedMethods.Path (stem)

theorem withoutEndSlashes_append (text more : String) :
    withoutEndSlashes (text ++ more) =
      if withoutEndSlashes more = "" then withoutEndSlashes text
      else text ++ withoutEndSlashes more := by
  have empty (kept : List Char) : String.ofList kept.reverse = "" ↔ kept.isEmpty = true := by
    rw [← String.toList_inj, String.toList_ofList]
    simp
  simp only [withoutEndSlashes, String.toList_append, List.reverse_append, List.dropWhile_append,
    empty]
  split
  · rfl
  · rw [List.reverse_append, List.reverse_reverse, String.ofList_append, String.ofList_toList]

/-- What is taken off the end of a text is slashes. -/
theorem exists_endSlashes (text : String) :
    ∃ slashes, text = withoutEndSlashes text ++ slashes ∧ slashes ++ "/" = "/" ++ slashes := by
  have same : text.toList.reverse.takeWhile (· == '/') =
      List.replicate (text.toList.reverse.takeWhile (· == '/')).length '/' := by
    rw [List.eq_replicate_iff]
    refine ⟨rfl, fun c member => ?_⟩
    simpa using List.mem_takeWhile_imp member
  refine ⟨String.ofList (text.toList.reverse.takeWhile (· == '/')).reverse, ?_, ?_⟩
  · rw [withoutEndSlashes, ← String.ofList_append, ← List.reverse_append,
      List.takeWhile_append_dropWhile, List.reverse_reverse, String.ofList_toList]
  · rw [same, List.reverse_replicate, ← String.toList_inj]
    simp [← List.replicate_succ, ← List.replicate_succ']

theorem withoutEndSlashes_ofNames (names : List String) (all : ∀ n ∈ names, Path.IsName n) :
    withoutEndSlashes (Path.slashed (Path.ofNames names)) = withoutEndSlashes (stem names) := by
  cases names with
  | nil => decide +kernel
  | cons name names => rw [Path.ofNames_eq_trail _ all (by simp), stem]

/-- Without slashes at its end, an entry below a directory is the stem of the directory followed by
a slash and what the names decide, or, if the names are all slashes, no more than that stem. -/
theorem withoutEndSlashes_cases (names : List String) (all : ∀ n ∈ names, Path.IsName n) :
    (∃ rest, ∀ home, (∀ n ∈ home, Path.IsName n) →
      withoutEndSlashes (Path.slashed (Path.ofNames (home ++ names))) = stem home ++ "/" ++ rest) ∨
    ∀ home, (∀ n ∈ home, Path.IsName n) →
      withoutEndSlashes (Path.slashed (Path.ofNames (home ++ names))) =
        withoutEndSlashes (stem home) := by
  have text (home : List String) (proper : ∀ n ∈ home, Path.IsName n) :
      withoutEndSlashes (Path.slashed (Path.ofNames (home ++ names))) =
        if withoutEndSlashes (stem names) = "" then withoutEndSlashes (stem home)
        else stem home ++ withoutEndSlashes (stem names) := by
    have whole : ∀ n ∈ home ++ names, Path.IsName n :=
      List.forall_mem_append.mpr ⟨proper, all⟩
    rw [withoutEndSlashes_ofNames _ whole, ← withoutEndSlashes_append]
    simp only [stem, Path.trail_append, Path.slashed_append]
  by_cases empty : withoutEndSlashes (stem names) = ""
  · exact .inr fun home proper => by rw [text home proper, if_pos empty]
  · left
    -- What is left of the text of the names still begins with its slash.
    obtain ⟨slashes, whole, _⟩ := exists_endSlashes (stem names)
    cases names with
    | nil => exact absurd (by decide +kernel) empty
    | cons name names =>
      cases left : (withoutEndSlashes (stem (name :: names))).toList with
      | nil => exact absurd (String.toList_inj.mp left) empty
      | cons c rest =>
        have slash : c = '/' := by
          have written : (stem (name :: names)).toList.head? = some '/' := by
            simp [stem, Path.trail, Path.slashed_append, Path.slashed_slash]
          rw [whole, String.toList_append, left] at written
          exact Option.some.inj written
        have begins : withoutEndSlashes (stem (name :: names)) = "/" ++ String.ofList rest := by
          rw [← String.toList_inj, left, slash]
          simp
        refine ⟨String.ofList rest, fun home proper => ?_⟩
        rw [text home proper, if_neg empty, begins, String.append_assoc]

theorem testBelow_stem_append (stem : String)
    (plain : ∀ c ∈ stem.toList, Glob.isSpecial c = false) (rest more : String) :
    Glob.testBelow stem (stem ++ "/" ++ rest ++ more) =
      Glob.testBelow "" ("/" ++ (rest ++ more)) := by
  rw [String.append_assoc, Glob.testBelow_stem _ plain]

/-- The globs of the directory itself: below it, one that goes on with `**` matches everything, and
the bare path nothing. -/
theorem testBelow_withoutEndSlashes (stem : String)
    (plain : ∀ c ∈ stem.toList, Glob.isSpecial c = false) :
    Glob.testBelow stem (withoutEndSlashes stem ++ "/**/*") = some (fun _ => true) ∧
    Glob.testBelow stem (withoutEndSlashes stem ++ "/**") = some (fun _ => true) ∧
    Glob.testBelow stem (withoutEndSlashes stem) = some fun _ => false := by
  obtain ⟨slashes, whole, only⟩ := exists_endSlashes stem
  have short : ∀ c ∈ (withoutEndSlashes stem).toList, Glob.isSpecial c = false := by
    intro c member
    apply plain
    rw [whole, String.toList_append]
    exact List.mem_append_left _ member
  -- The slashes that the stem has more belong to what follows it.
  have more (glob : String) :
      Glob.testBelow stem glob = (Glob.testBelow (withoutEndSlashes stem) glob).map
        fun test rest => test (slashes ++ rest) := by
    rw [← Glob.testBelow_slashes _ _ _ only, ← whole]
  have files := Glob.testBelow_stem _ short "**/*"
  have all := Glob.testBelow_stem _ short "**"
  rw [String.append_assoc] at files all
  refine ⟨?_, ?_, ?_⟩
  · rw [more, show "/**/*" = "/" ++ "**/*" from rfl, files]
    exact congrArg _ Glob.testBelow_everyFile
  · rw [more, show "/**" = "/" ++ "**" from rfl, all]
    exact congrArg _ Glob.testBelow_everything
  · rw [more, Glob.testBelow_itself _ short]
    rfl

end Gather

/-- One tree at two places, neither of which globs take for a pattern. -/
structure Disk.Relocated (disk disk' : Disk) (home home' : List String) : Prop extends
    SameTree disk disk' home home' where
  literal : Path.IsLiteral (Path.ofNames home)
  literal' : Path.IsLiteral (Path.ofNames home')

namespace Gather

open UnusedMethods.Path (stem SamePlace SameBelow)

theorem namesDir_home (disk : Disk) (home : List String)
    (literal : Path.IsLiteral (Path.ofNames home))
    (isDir : disk.hasDir (Path.ofNames home) = true) :
    namesDir disk (Path.ofNames home) = true := by
  have segment : hasWildcard ((Path.segments (Path.ofNames home).slashed).getLastD "") = false := by
    cases last : (Path.segments (Path.ofNames home).slashed).getLast? with
    | none =>
      rw [List.getLastD_eq_getLast?, last]
      decide
    | some segment =>
      rw [List.getLastD_eq_getLast?, last]
      exact literal.slashed.hasWildcard_segment segment (List.mem_of_getLast? last)
  simp only [namesDir, segment, isDir, Bool.or_true, Bool.not_false, Bool.and_true]

section

variable {disk disk' : Disk} {home home' : List String} {p p' : Path}
  (moved : disk.Relocated disk' home home')
include moved

theorem namesDir_alike (place : SamePlace home home' p p') :
    namesDir disk p = namesDir disk' p' := by
  have directories := moved.hasDir place
  obtain ⟨names, all, rfl, rfl⟩ := place
  cases names with
  | nil =>
    simp only [List.append_nil]
    rw [namesDir_home disk home moved.literal moved.isDir,
      namesDir_home disk' home' moved.literal' moved.isDir']
  | cons name names =>
    -- The last segment is one of the names.
    obtain ⟨rest, text⟩ := Path.exists_slashed_below (name :: names) all (by simp)
    have last (home : List String) :
        (Path.segments (stem home ++ "/" ++ rest)).getLastD "" =
          (Path.segments rest).getLastD "" := by
      have some_ : Path.segments rest ≠ [] := by
        simpa [Path.segments, Path.splitText] using Path.pieces_ne_nil '/' rest.toList
      rw [Path.segments_append, List.getLastD_eq_getLast?, List.getLastD_eq_getLast?,
        List.getLast?_append_of_ne_nil _ some_]
    simp only [namesDir, text home moved.proper, text home' moved.proper', last, directories]

/-- The include glob of an entry says the same about paths below either place. -/
theorem includeGlob_alike (place : SamePlace home home' p p') :
    Glob.AlikeBelow (stem home) (stem home') (includeGlob disk p) (includeGlob disk' p') := by
  have directory := namesDir_alike moved place
  have plain := moved.literal.isSpecial_stem moved.proper
  have plain' := moved.literal'.isSpecial_stem moved.proper'
  obtain ⟨names, all, rfl, rfl⟩ := place
  rw [Glob.AlikeBelow, includeGlob, includeGlob, ← directory]
  split
  · rcases withoutEndSlashes_cases names all with ⟨rest, text⟩ | text
    · rw [text home moved.proper, text home' moved.proper', testBelow_stem_append _ plain,
        testBelow_stem_append _ plain']
    · rw [text home moved.proper, text home' moved.proper',
        (testBelow_withoutEndSlashes _ plain).1, (testBelow_withoutEndSlashes _ plain').1]
  next other =>
    -- The directory of the manifest itself names a directory, so the entry lies below it.
    have below : names ≠ [] := by
      rintro rfl
      rw [List.append_nil] at other
      exact other (namesDir_home disk home moved.literal moved.isDir)
    obtain ⟨rest, text⟩ := Path.exists_slashed_below names all below
    rw [text home moved.proper, text home' moved.proper', Glob.testBelow_stem _ plain,
      Glob.testBelow_stem _ plain']

/-- The exclude globs of an entry say the same about paths below either place. -/
theorem excludeGlobs_alike (place : SamePlace home home' p p') :
    List.Forall₂ (Glob.AlikeBelow (stem home) (stem home')) (excludeGlobs p)
      (excludeGlobs p') := by
  have plain := moved.literal.isSpecial_stem moved.proper
  have plain' := moved.literal'.isSpecial_stem moved.proper'
  obtain ⟨names, all, rfl, rfl⟩ := place
  rcases withoutEndSlashes_cases names all with ⟨rest, text⟩ | text
  · simp only [excludeGlobs, text home moved.proper, text home' moved.proper']
    refine .cons ?_ (.cons ?_ .nil)
    · rw [Glob.AlikeBelow, testBelow_stem_append _ plain, testBelow_stem_append _ plain']
    · rw [Glob.AlikeBelow, Glob.testBelow_stem _ plain, Glob.testBelow_stem _ plain']
  · simp only [excludeGlobs, text home moved.proper, text home' moved.proper']
    obtain ⟨_, all, itself⟩ := testBelow_withoutEndSlashes _ plain
    obtain ⟨_, all', itself'⟩ := testBelow_withoutEndSlashes _ plain'
    exact .cons (all.trans all'.symm) (.cons (itself.trans itself'.symm) .nil)

end

end Gather

end UnusedMethods
