import UnusedMethods.Proofs.EntryGlobs
import UnusedMethods.Proofs.GatherOutcome
import UnusedMethods.Proofs.GlobBelow

/-!
# Excluded directories

A directory that an exclude entry matches is not entered. That saves work and changes no result: the
entry stands for all that lies below what it matches, so none of the files there would be taken.
If files can be gathered when only the directories that are never entered are left out by name, the
same files are gathered. If they cannot, the failure is the same, or it is one that is spared here: a
directory that is excluded cannot be opened.
-/

namespace UnusedMethods

/-! ### What lies below an exclude entry -/

theorem Gather.last_withoutEndSlashes (text : String) :
    (withoutEndSlashes text).toList.getLast? ≠ some '/' := by
  rw [withoutEndSlashes, String.toList_ofList, List.getLast?_reverse]
  intro last
  have kept := List.head?_dropWhile_not (· == '/') text.toList.reverse
  rw [last] at kept
  simp at kept

/-- Exclude entries that match a directory match all that lies below it. -/
theorem Gather.isMatch_below {entries : List Path} {excludes : Glob.AnyOf}
    (read : Targets.readGlobs (entries.flatMap excludeGlobs) = .ok excludes) {dir : String}
    (matched : excludes.isMatch dir = true) (rest : String) :
    excludes.isMatch (dir ++ "/" ++ rest) = true := by
  rw [Targets.readGlobs_eq_ok, Glob.AnyOf.ofTexts_eq_ok] at read
  rw [Glob.AnyOf.isMatch] at matched ⊢
  generalize excludes.globs = globs at read matched
  induction entries generalizing globs with
  | nil =>
    cases read
    cases matched
  | cons entry entries ih =>
    -- The two globs of an entry are read from one text, with and without the ending.
    simp only [List.flatMap_cons, excludeGlobs, List.cons_append, List.nil_append] at read
    obtain ⟨below, _, ⟨parsedBelow, _⟩, later, rfl⟩ := List.forall₂_cons_left_iff.mp read
    obtain ⟨pieces, others, ⟨parsed, _⟩, readOthers, rfl⟩ := List.forall₂_cons_left_iff.mp later
    obtain ⟨below', again, isBelow⟩ := Glob.parse_below (last_withoutEndSlashes _) parsed
    cases parsedBelow.symm.trans again
    simp only [List.any_cons, Bool.or_eq_true] at matched ⊢
    rcases matched with followed | alone | other
    · exact .inl (isBelow.matches (.inr followed) rest)
    · exact .inl (isBelow.matches (.inl alone) rest)
    · exact .inr (.inr (ih others readOthers other))

theorem Gather.isMatch_below_join {entries : List Path} {excludes : Glob.AnyOf}
    (read : Targets.readGlobs (entries.flatMap excludeGlobs) = .ok excludes) {path : Path}
    {name : String} (named : Path.IsName name)
    (matched : excludes.isMatch (Path.join path name).slashed = true) {names : List String}
    (all : ∀ n ∈ names, Path.IsName n) :
    excludes.isMatch ((Path.join path name).below names).slashed = true := by
  by_cases none : names = []
  · rwa [none, Path.below_nil]
  · obtain ⟨rest, text⟩ := Path.exists_below_join path named none all
    have below := isMatch_below read matched rest.slashed
    rwa [← Path.slashed_slash, ← Path.slashed_append, ← Path.slashed_append, ← text] at below

/-! ### Walks that leave out directories -/

theorem filter_flatten_eq {keeps : Path → Bool} {lists lists' : List (List Path)}
    (alike : List.Forall₂ (fun files files' => files.filter keeps = files'.filter keeps) lists
      lists') : lists.flatten.filter keeps = lists'.flatten.filter keeps := by
  induction alike with
  | nil => rfl
  | cons same _ ih => rw [List.flatten_cons, List.flatten_cons, List.filter_append,
      List.filter_append, same, ih]

namespace Gather

/-- Whether a walk enters a directory that no exclude entry keeps it from. -/
def entersName (_path : Path) (name : String) : Bool :=
  !neverEntered.contains name

/-- A directory that is excluded cannot be opened. -/
def FailsExcluded (excludes : Glob.AnyOf) (failure : Failure) : Prop :=
  ∃ dir why, failure = .unreadable dir why ∧ excludes.isMatch dir.slashed = true

/-- The first of two walks ends as the second does, as far as files are admitted, or it is spared an
excluded directory. -/
abbrev EndPruned (includes excludes : Glob.AnyOf) (allowJs : Bool) :
    Except Failure (List Path) → Except Failure (List Path) → Prop :=
  EndSparing (FailsExcluded excludes) fun files files' =>
    files.filter (admits includes excludes allowJs) =
      files'.filter (admits includes excludes allowJs)

section

variable {disk : Disk} {entries : List Path} {excludes : Glob.AnyOf}
  (read : Targets.readGlobs (entries.flatMap excludeGlobs) = .ok excludes) (includes : Glob.AnyOf)
  (allowJs : Bool)
include read

/-- What is found at an entry if it is left out where it is excluded, and if it is not. -/
theorem found_sparing {path : Path} {name : String} (named : Path.IsName name) {child : Entry}
    (proper : child.Proper)
    (below : EndPruned includes excludes allowJs
      (child.walk disk.opens (enters excludes) (Path.join path name))
      (child.walk disk.opens entersName (Path.join path name))) :
    EndPruned includes excludes allowJs
      (Entry.found disk.opens (enters excludes) path (name, child)).files
      (Entry.found disk.opens entersName path (name, child)).files := by
  rcases Entry.found_files disk.opens (enters excludes) path name child with
    ⟨entered, same⟩ | ⟨isDir, skipped, nothing⟩
  · -- What is entered although it might be excluded is entered by name as well.
    have entered' : child.isDir = true → entersName (Path.join path name) name = true := by
      intro isDir
      have both := entered isDir
      simp only [enters, Bool.and_eq_true] at both
      exact both.1
    rw [same, Entry.found_files_of_entered entered']
    exact below
  · rw [nothing]
    rcases Entry.found_files disk.opens entersName path name child with
      ⟨entered, same⟩ | ⟨_, _, nothing'⟩
    · -- Only the walk by name enters the directory, which is excluded with all that lies below.
      have excluded : excludes.isMatch (Path.join path name).slashed = true := by
        have open_ := entered isDir
        simp only [entersName] at open_
        simpa only [enters, open_, Bool.true_and, Bool.not_eq_false'] using skipped
      rw [same]
      cases walked : child.walk disk.opens entersName (Path.join path name) with
      | ok files =>
        refine .done ?_
        rw [List.filter_nil, eq_comm, List.filter_eq_nil_iff]
        intro p met
        obtain ⟨names, walks, rfl⟩ := (Entry.mem_walk walked p).mp met
        simp [admits, isMatch_below_join read named excluded (walks.proper proper)]
      | error failure =>
        obtain ⟨names, _, reaches, _, shut⟩ := Entry.exists_of_walk_eq_error walked
        obtain ⟨why, rfl⟩ := Disk.exists_of_opens_eq_error shut
        exact .spared _ ⟨_, why, rfl,
          isMatch_below_join read named excluded (reaches.proper proper)⟩
    · rw [nothing']
      exact .done rfl

/-- A walk that leaves out excluded directories finds what one finds that does not, as far as it is
admitted, and fails with it unless it is spared. -/
theorem walk_sparing (entry : Entry) (proper : entry.Proper) (path : Path) :
    EndPruned includes excludes allowJs
      (entry.walk disk.opens (enters excludes) path) (entry.walk disk.opens entersName path) := by
  induction entry using Entry.induction generalizing path with
  | leaf entry leaf =>
    rw [Entry.walk_leaf leaf, Entry.walk_leaf leaf]
    exact .bind_same _ fun _ _ => .done rfl
  | dir entries ih =>
    cases proper with
    | dir _ names inside =>
      rw [Entry.walk_dir, Entry.walk_dir]
      refine .bind_same _ fun _ _ => ?_
      have each (e : String × Entry) (listed : e ∈ entries) :
          EndPruned includes excludes allowJs
            (Entry.found disk.opens (enters excludes) path e).files
            (Entry.found disk.opens entersName path e).files :=
        found_sparing read includes allowJs (names e listed) (inside e listed)
          (ih e.1 e.2 listed (inside e listed) _)
      refine (EndSparing.mapM (Entry.forall₂_mergeSort_found each)).bind fun _ _ alike => ?_
      exact .done (filter_flatten_eq alike)

end

end Gather

/-! ### Gathering without exclusion on the way -/

open Gather in
/-- The files that a file set describes, if exclude entries are tested on files alone. -/
def gatherByName (disk : Disk) (set : Config.FileSet) : Except Failure (List Path) := do
  return Path.distinct (← met disk set fun _ => entersName)

open Gather in
/-- Gathering files ends as it does by name, unless it is spared a directory that is excluded and
cannot be opened. -/
theorem gather_sparing {disk : Disk} (proper : disk.Proper) (set : Config.FileSet)
    {includes excludes : Glob.AnyOf}
    (readIncludes : Targets.readGlobs (set.includes.map (includeGlob disk)) = .ok includes)
    (readExcludes : Targets.readGlobs (set.excludes.flatMap excludeGlobs) = .ok excludes) :
    EndSparing (FailsExcluded excludes) Eq (gather disk set) (gatherByName disk set) := by
  have walked (base : Path) : EndPruned includes excludes set.allowJs
      (disk.walk (enters excludes) base) (disk.walk entersName base) := by
    unfold Disk.walk
    split
    · exact .failed _
    next tree leads =>
      exact walk_sparing readExcludes includes set.allowJs tree (proper.entry leads) base
  have all : EndSparing (FailsExcluded excludes) Eq (met disk set enters)
      (met disk set fun _ => entersName) := by
    simp only [met, readIncludes, readExcludes]
    refine (EndSparing.mapM (List.forall₂_same.mpr fun base _ => walked base)).bind ?_
    intro lists lists' alike
    exact .done (by rw [filter_flatten_eq alike])
  refine all.bind ?_
  rintro found _ rfl
  exact .done rfl

open Gather in
/-- Leaving out excluded directories cannot be observed in what is gathered: wherever files are
gathered with exclude entries tested on files alone, the same files are gathered, since an entry that
matches a directory matches all that lies below. A failure is the same as well, except that an
excluded directory need not be opened. -/
theorem gather_unpruned {disk : Disk} (proper : disk.Proper) (set : Config.FileSet)
    {includes excludes : Glob.AnyOf}
    (readIncludes : Targets.readGlobs (set.includes.map (includeGlob disk)) = .ok includes)
    (readExcludes : Targets.readGlobs (set.excludes.flatMap excludeGlobs) = .ok excludes) :
    (∀ files, gatherByName disk set = .ok files → gather disk set = .ok files) ∧
      (∀ failure, gatherByName disk set = .error failure → gather disk set = .error failure ∨
        ∃ dir why, failure = .unreadable dir why ∧ excludes.isMatch dir.slashed = true) ∧
      ∀ entry globs, Targets.readGlobs (excludeGlobs entry) = .ok globs →
        ∀ dir rest, globs.isMatch dir = true → globs.isMatch (dir ++ "/" ++ rest) = true := by
  have sparing := gather_sparing proper set readIncludes readExcludes
  refine ⟨?_, ?_, ?_⟩
  · intro files byName
    rw [byName] at sparing
    generalize gather disk set = gathered at sparing ⊢
    cases sparing with
    | done same => rw [same]
  · intro failure byName
    rw [byName] at sparing
    generalize gather disk set = gathered at sparing ⊢
    cases sparing with
    | failed => exact .inl rfl
    | spared _ without => exact .inr without
  · intro entry globs read dir rest matched
    have single : [entry].flatMap excludeGlobs = excludeGlobs entry := by simp
    exact isMatch_below (single ▸ read) matched rest

/-! ### A disk with an excluded directory -/

/-- A project with a directory of its own output and one of packages. -/
def packedTree : Entry :=
  .dir [
    ("b.ts", .file "".toUTF8),
    ("out", .dir [("c.ts", .file "".toUTF8)]),
    ("node_modules", .dir [("lib", .dir [("d.ts", .file "".toUTF8)])]),
    ("a", .dir [("f", .dir [("g.ts", .file "".toUTF8)]), ("e.ts", .file "".toUTF8)])]

def packedDisk : Disk :=
  ⟨.dir [("p", packedTree)], "/"⟩

theorem packedDisk_proper : packedDisk.Proper where
  entries := by
    refine .dir _ (by decide +kernel) (List.forall_mem_singleton.mpr ?_)
    have lib : Entry.Proper (.dir [("lib", .dir [("d.ts", .file "".toUTF8)])]) :=
      .dir _ (by decide +kernel) (List.forall_mem_singleton.mpr
        (.dir _ (by decide +kernel) (List.forall_mem_singleton.mpr (.file _))))
    have out : Entry.Proper (.dir [("c.ts", .file "".toUTF8)]) :=
      .dir _ (by decide +kernel) (List.forall_mem_singleton.mpr (.file _))
    have nested : Entry.Proper (.dir [("g.ts", .file "".toUTF8)]) :=
      .dir _ (by decide +kernel) (List.forall_mem_singleton.mpr (.file _))
    have sources : Entry.Proper
        (.dir [("f", .dir [("g.ts", .file "".toUTF8)]), ("e.ts", .file "".toUTF8)]) :=
      .dir _ (by decide +kernel)
        (List.forall_mem_cons.mpr ⟨nested, List.forall_mem_singleton.mpr (.file _)⟩)
    exact .dir _ (by decide +kernel) (List.forall_mem_cons.mpr ⟨.file _, List.forall_mem_cons.mpr
      ⟨out, List.forall_mem_cons.mpr ⟨lib, List.forall_mem_singleton.mpr sources⟩⟩⟩)
  rooted := ⟨_, rfl⟩
  current := Path.isAbsolute_slash

/-- All sources below the directory, without what a pattern excludes. -/
def packedSet : Config.FileSet where
  dir := "/p"
  files := []
  includes := ["/p/**/*"]
  excludes := ["/p/\x7bout,[x-z]**\x7d"]
  allowJs := false

open Gather in
theorem gather_unpruned_packed :
    (∃ files, gather packedDisk packedSet = .ok files ∧
      gatherByName packedDisk packedSet = .ok files) ∧
      packedDisk.hasFile "/p/out/c.ts" = true ∧
      ∃ globs, Targets.readGlobs (excludeGlobs "/p/\x7bout,[x-z]**\x7d") = .ok globs ∧
        globs.isMatch "/p/out" = true ∧ globs.isMatch ("/p/out" ++ "/" ++ "c.ts") = true := by
  obtain ⟨includes, readIncludes⟩ := exists_eq_ok (x := Targets.readGlobs
    (packedSet.includes.map (includeGlob packedDisk))) (by decide +kernel)
  obtain ⟨excludes, readExcludes⟩ := exists_eq_ok (x := Targets.readGlobs
    (packedSet.excludes.flatMap excludeGlobs)) (by decide +kernel)
  obtain ⟨same, _, below⟩ := gather_unpruned packedDisk_proper packedSet readIncludes readExcludes
  -- Even what is excluded can be opened.
  obtain ⟨found, succeeded⟩ := exists_met_of_allOpen packedDisk packedSet
    (by decide +kernel) (by decide +kernel) (by decide +kernel) fun _ => entersName
  have byName : gatherByName packedDisk packedSet = .ok (Path.distinct found) := by
    rw [gatherByName, succeeded]
    rfl
  -- The set has one entry to exclude.
  have entry : packedSet.excludes.flatMap excludeGlobs =
      excludeGlobs "/p/\x7bout,[x-z]**\x7d" := rfl
  have tested : (Targets.readGlobs (excludeGlobs "/p/\x7bout,[x-z]**\x7d")).map
      (·.isMatch "/p/out") = .ok true := by
    decide +kernel
  rw [entry] at readExcludes
  rw [readExcludes] at tested
  have matched : excludes.isMatch "/p/out" = true := Except.ok.inj tested
  exact ⟨⟨_, same _ byName, byName⟩, by decide +kernel, excludes, readExcludes, matched,
    below _ excludes readExcludes "/p/out" "c.ts" matched⟩

/-- A project with nothing but a directory of output, which cannot be opened. -/
def shutDisk : Disk :=
  ⟨.dir [("p", .dir [("out", .closed true .denied)])], "/"⟩

-- Only the search by name comes to open what is excluded.
example : gather shutDisk packedSet = .ok [] ∧
    gatherByName shutDisk packedSet =
      .error (.unreadable "/p/out" "Permission denied (os error 13)") := by
  decide +kernel

end UnusedMethods
