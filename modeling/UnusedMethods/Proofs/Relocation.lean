import UnusedMethods.Proofs.EntryGlobs

/-!
# The files of a project that is moved

The same tree at two places, neither of which globs take for a pattern, has the same files in the
same order: its manifest describes entries at the same places, the walks for them start at the same
places and meet the same files, and the globs say the same about each of them. A place that globs do
take for a pattern is read as one and need not match itself.
-/

namespace UnusedMethods

/-! ### Walks below two directories -/

namespace Gather

open UnusedMethods.Path (SamePlace)

/-- The names that lead to the walk base of an entry, out of those that lead to the entry. -/
def baseNames (isDir : Bool) (names : List String) : List String :=
  let literal := names.takeWhile (!hasWildcard ·)
  if literal.length < names.length || isDir then literal else literal.dropLast

section

variable {disk disk' : Disk} {home home' : List String} {p p' : Path}
  (moved : disk.Relocated disk' home home')
include moved

theorem startsWith_alike {q q' : Path} (place : SamePlace home home' p p')
    (other : SamePlace home home' q q') : Path.startsWith p q = Path.startsWith p' q' := by
  obtain ⟨names, all, rfl, rfl⟩ := place
  obtain ⟨others, allOthers, rfl, rfl⟩ := other
  -- Both paths begin with the names of the directory, so only the names after them count.
  have only (home : List String) (proper : ∀ n ∈ home, Path.IsName n) :
      Path.startsWith (Path.ofNames (home ++ names)) (Path.ofNames (home ++ others)) = true ↔
        others.map Path.Component.name <+: names.map .name := by
    have whole : ∀ n ∈ home ++ names, Path.IsName n :=
      List.forall_mem_append.mpr ⟨proper, all⟩
    have wholeOthers : ∀ n ∈ home ++ others, Path.IsName n :=
      List.forall_mem_append.mpr ⟨proper, allOthers⟩
    rw [Path.startsWith, Path.components_ofNames _ whole, Path.components_ofNames _ wholeOthers,
      List.isPrefixOf_iff_prefix, List.cons_prefix_cons, List.map_append, List.map_append,
      List.prefix_append_right_inj]
    exact and_iff_right rfl
  rw [Bool.eq_iff_iff, only home moved.proper, only home' moved.proper']

omit moved in
theorem walkBase_ofNames (names : List String) (all : ∀ n ∈ names, Path.IsName n)
    (proper : ∀ n ∈ home, Path.IsName n) (literal : Path.IsLiteral (Path.ofNames home))
    (isDir : disk.hasDir (Path.ofNames home) = true) :
    walkBase disk (Path.ofNames (home ++ names)) =
      Path.ofNames (home ++ baseNames (disk.hasDir (Path.ofNames (home ++ names))) names) := by
  have whole : ∀ n ∈ home ++ names, Path.IsName n :=
    List.forall_mem_append.mpr ⟨proper, all⟩
  have taken : (home ++ names).takeWhile (!hasWildcard ·) =
      home ++ names.takeWhile (!hasWildcard ·) := by
    refine List.takeWhile_append_of_pos fun n member => ?_
    rw [literal.hasWildcard_name proper n member]
    rfl
  simp only [walkBase, takeWhile_components _ whole, taken, Path.ofComponents_root]
  rw [Path.components_ofNames _ whole, baseNames]
  simp only [List.length_cons, List.length_map, List.length_append, Nat.add_lt_add_iff_right,
    Nat.add_lt_add_iff_left, Bool.or_eq_true, decide_eq_true_eq]
  split
  · rfl
  next complete =>
    -- An entry that is no directory is not the directory of the manifest, so it has a last name.
    rw [not_or, Nat.not_lt] at complete
    have same : names.takeWhile (!hasWildcard ·) = names :=
      (List.takeWhile_sublist _).eq_of_length_le complete.1
    rw [same]
    cases names using List.reverseRecOn with
    | nil => exact absurd isDir (by simpa using complete.2)
    | append_singleton names name =>
      rw [← List.append_assoc] at whole ⊢
      rw [Path.parent_ofNames _ name whole, List.dropLast_concat, Option.getD_some]

/-- The walk for an entry starts at the same place below both directories. -/
theorem walkBase_alike (place : SamePlace home home' p p') :
    SamePlace home home' (walkBase disk p) (walkBase disk' p') := by
  have directories := moved.hasDir place
  obtain ⟨names, all, rfl, rfl⟩ := place
  refine ⟨baseNames (disk.hasDir (Path.ofNames (home ++ names))) names, ?_, ?_, ?_⟩
  · intro n member
    apply all
    simp only [baseNames] at member
    split at member
    · exact List.takeWhile_subset _ member
    · exact List.takeWhile_subset _ (List.mem_of_mem_dropLast member)
  · exact walkBase_ofNames names all moved.proper moved.literal moved.isDir
  · rw [directories]
    exact walkBase_ofNames names all moved.proper' moved.literal' moved.isDir'

theorem walkBasesAfter_alike {walked walked' bases bases' : List Path}
    (before : List.Forall₂ (SamePlace home home') walked walked')
    (alike : List.Forall₂ (SamePlace home home') bases bases') :
    List.Forall₂ (fun base base' => SamePlace home home' base base' ∧ disk.hasDir base = true)
      (walkBasesAfter disk walked bases) (walkBasesAfter disk' walked' bases') := by
  induction alike generalizing walked walked' with
  | nil => exact .nil
  | @cons base base' bases bases' place alike ih =>
    -- A base is left out on one disk exactly when it is on the other: both walks cover it alike.
    have covered : walked.any (Path.startsWith base ·) = walked'.any (Path.startsWith base' ·) := by
      induction before with
      | nil => rfl
      | cons other before ih =>
        rw [List.any_cons, List.any_cons, startsWith_alike moved place other, ih]
    rw [walkBasesAfter, walkBasesAfter, moved.hasDir place, covered]
    split
    · exact ih before
    next kept =>
      simp only [Bool.or_eq_true, not_or, Bool.not_eq_true'] at kept
      refine .cons ⟨place, ?_⟩ (ih (List.rel_append before (.cons place .nil)))
      simpa [moved.hasDir place] using kept.1

theorem walkBases_alike {entries entries' : List Path}
    (alike : List.Forall₂ (SamePlace home home') entries entries') :
    List.Forall₂ (fun base base' => SamePlace home home' base base' ∧ disk.hasDir base = true)
      (walkBases disk entries) (walkBases disk' entries') := by
  apply walkBasesAfter_alike moved .nil
  exact List.rel_map (fun _ _ place => walkBase_alike moved place) alike

end

end Gather

namespace Entry

variable {home home' : List String} {opens opens' : Path → Except Failure Unit}
  {enters enters' : Path → String → Bool}

section

variable
  (opened : ∀ p p', Path.SamePlace home home' p p' → SucceedTogether Eq (opens p) (opens' p'))
  (agree : ∀ p p' name, Path.SameBelow home home' p p' → enters p name = enters' p' name)
include opened agree

/-- Walks of one directory from two places meet the same files, if those of its entries do. -/
theorem walk_dir_alike {p p' : Path} (place : Path.SamePlace home home' p p')
    {entries : List (String × Entry)} (names : ∀ e ∈ entries, Path.IsName e.1)
    (each : ∀ name child, (name, child) ∈ entries → ∀ p p', Path.SameBelow home home' p p' →
      SucceedTogether (List.Forall₂ (Path.SameBelow home home')) (child.walk opens enters p)
        (child.walk opens' enters' p')) :
    SucceedTogether (List.Forall₂ (Path.SameBelow home home'))
      ((dir entries).walk opens enters p) ((dir entries).walk opens' enters' p') := by
  rw [walk_dir, walk_dir]
  refine (opened p p' place).bind fun _ _ _ => ?_
  have alike (e : String × Entry) (listed : e ∈ entries) :
      SucceedTogether (List.Forall₂ (Path.SameBelow home home')) (found opens enters p e).files
        (found opens' enters' p' e).files := by
    have below := place.join (names e listed)
    simp only [found, agree _ _ e.1 below]
    split
    · exact .done .nil
    · exact each e.1 e.2 listed _ _ below
  refine (EndTogether.mapM (forall₂_mergeSort_found alike)).bind fun _ _ lists => ?_
  exact .done (List.rel_flatten lists)

/-- Walks of one tree from two places meet the same files, if they open and enter the same
directories. -/
theorem walk_alike (entry : Entry) (proper : entry.Proper) (p p' : Path)
    (below : Path.SameBelow home home' p p') :
    SucceedTogether (List.Forall₂ (Path.SameBelow home home')) (entry.walk opens enters p)
      (entry.walk opens' enters' p') := by
  induction entry using Entry.induction generalizing p p' with
  | leaf entry leaf =>
    rw [walk_leaf leaf, walk_leaf leaf]
    have first : SucceedTogether Eq (if entry.isDir then opens p else .ok ())
        (if entry.isDir then opens' p' else .ok ()) := by
      split
      · exact opened p p' below.samePlace
      · exact .done rfl
    refine first.bind fun _ _ _ => .done ?_
    split
    · exact .cons below .nil
    · exact .nil
  | dir entries ih =>
    cases proper with
    | dir _ names inside =>
      exact walk_dir_alike opened agree below.samePlace names fun name child listed =>
        ih name child listed (inside _ listed)

end

end Entry

theorem Disk.SameTree.opens {disk disk' : Disk} {home home' : List String}
    (tree : disk.SameTree disk' home home') {p p' : Path}
    (place : Path.SamePlace home home' p p') :
    SucceedTogether Eq (disk.opens p) (disk'.opens p') := by
  rcases (tree.entry place).eq_or with ⟨_, _, leads, leads'⟩ | ⟨found, leads, leads'⟩
  · rw [Disk.opens, Disk.opens, leads, leads']
    exact .failed trivial
  · rw [Disk.opens, Disk.opens, leads, leads']
    cases found with
    | closed isDir why => exact .failed trivial
    | file bytes => exact .done rfl
    | link target => exact .done rfl
    | dir entries => exact .done rfl

theorem Disk.SameTree.walk {disk disk' : Disk} {home home' : List String}
    (tree : disk.SameTree disk' home home') (proper : disk.Proper)
    {enters enters' : Path → String → Bool}
    (agree : ∀ p p' name, Path.SameBelow home home' p p' → enters p name = enters' p' name)
    {base base' : Path} (place : Path.SamePlace home home' base base')
    (isDir : disk.hasDir base = true) :
    SucceedTogether (List.Forall₂ (Path.SameBelow home home')) (disk.walk enters base)
      (disk'.walk enters' base') := by
  have opened (p p' : Path) (place : Path.SamePlace home home' p p') :
      SucceedTogether Eq (disk.opens p) (disk'.opens p') := tree.opens place
  rcases (tree.entry place).eq_or with ⟨_, _, leads, leads'⟩ | ⟨found, leads, leads'⟩
  · rw [Disk.walk, Disk.walk, leads, leads']
    exact .failed trivial
  · obtain ⟨_, same, isDir⟩ := exists_entry_of_hasDir isDir
    cases leads.symm.trans same
    rw [Disk.walk, Disk.walk, leads, leads']
    -- Only a directory is walked from, so every file lies below the base.
    cases proper.entry leads with
    | file bytes => cases isDir
    | link target => cases isDir
    | closed _ why =>
      cases isDir
      simp only [Entry.walk]
      exact (opened _ _ place).bind fun _ _ _ => .done .nil
    | dir entries names below =>
      exact Entry.walk_dir_alike opened agree place names fun name child listed p p' =>
        Entry.walk_alike opened agree child (below _ listed) p p'

/-! ### Gathering below two directories -/

theorem Targets.readGlobs_alike {stem stem' : String} {globs globs' : List String}
    (alike : List.Forall₂ (Glob.AlikeBelow stem stem') globs globs') :
    SucceedTogether (Glob.AnyOf.AlikeBelow stem stem') (readGlobs globs) (readGlobs globs') := by
  apply SucceedTogether.of_ok
  · intro any read
    obtain ⟨any', read', same⟩ := Glob.AnyOf.ofTexts_alike alike ((readGlobs_eq_ok _ _).mp read)
    exact ⟨any', (readGlobs_eq_ok _ _).mpr read', same⟩
  · intro any' read'
    have back : List.Forall₂ (Glob.AlikeBelow stem' stem) globs' globs :=
      List.Forall₂.flip (alike.imp fun _ _ same => same.symm)
    obtain ⟨any, read, _⟩ := Glob.AnyOf.ofTexts_alike back ((readGlobs_eq_ok _ _).mp read')
    exact ⟨any, (readGlobs_eq_ok _ _).mpr read⟩

namespace Path

variable {home home' : List String} (proper : ∀ n ∈ home, IsName n)
  (proper' : ∀ n ∈ home', IsName n) {p p' q q' : Path}

theorem ofNames_inj {names others : List String} (all : ∀ n ∈ names, IsName n)
    (allOthers : ∀ n ∈ others, IsName n) : ofNames names = ofNames others ↔ names = others := by
  constructor
  · intro same
    have parts := congrArg components same
    rw [components_ofNames names all, components_ofNames others allOthers] at parts
    exact List.map_injective_iff.mpr (fun _ _ => Component.name.inj) (List.cons.inj parts).2
  · exact congrArg ofNames

include proper proper'

theorem SamePlace.isPlain (place : SamePlace home home' p p') : IsPlain p ∧ IsPlain p' := by
  obtain ⟨names, all, rfl, rfl⟩ := place
  exact ⟨⟨_, List.forall_mem_append.mpr ⟨proper, all⟩, rfl⟩,
    ⟨_, List.forall_mem_append.mpr ⟨proper', all⟩, rfl⟩⟩

/-- Paths are told apart below one directory as below the other. -/
theorem SamePlace.key_eq_iff (place : SamePlace home home' p p')
    (other : SamePlace home home' q q') : p.key = q.key ↔ p'.key = q'.key := by
  obtain ⟨plain, plain'⟩ := place.isPlain proper proper'
  obtain ⟨plainOther, plainOther'⟩ := other.isPlain proper proper'
  rw [plain.key_eq, plain'.key_eq, plainOther.key_eq, plainOther'.key_eq]
  obtain ⟨names, all, rfl, rfl⟩ := place
  obtain ⟨others, allOthers, rfl, rfl⟩ := other
  have only (home : List String) (proper : ∀ n ∈ home, IsName n) :
      ofNames (home ++ names) = ofNames (home ++ others) ↔ names = others := by
    rw [ofNames_inj (List.forall_mem_append.mpr ⟨proper, all⟩)
      (List.forall_mem_append.mpr ⟨proper, allOthers⟩), List.append_cancel_left_eq]
  rw [only home proper, only home' proper']

theorem distinct_alike {paths paths' : List Path}
    (alike : List.Forall₂ (SamePlace home home') paths paths') :
    List.Forall₂ (SamePlace home home') (distinct paths) (distinct paths') := by
  -- The paths that were seen are the same places, whatever their keys are.
  have beyond (seen seen' : Std.HashSet String)
      (same : ∀ p p', SamePlace home home' p p' → seen.contains p.key = seen'.contains p'.key) :
      List.Forall₂ (SamePlace home home') (distinctBeyond seen paths)
        (distinctBeyond seen' paths') := by
    induction alike generalizing seen seen' with
    | nil => exact .nil
    | @cons p p' _ _ place _ ih =>
      rw [distinctBeyond, distinctBeyond, same p p' place]
      split
      · exact ih seen seen' same
      · refine .cons place (ih _ _ fun q q' other => ?_)
        have keys := place.key_eq_iff proper proper' other
        rw [Std.HashSet.contains_insert, Std.HashSet.contains_insert, same q q' other]
        rw [Bool.eq_iff_iff, Bool.or_eq_true, Bool.or_eq_true, beq_iff_eq, beq_iff_eq, keys]
  exact beyond ∅ ∅ fun _ _ _ => by simp

/-- A path below a directory is a source file or not by its last name. -/
theorem SameBelow.isSource (below : SameBelow home home' p p') (plain : Bool) :
    p.isSource plain = p'.isSource plain := by
  obtain ⟨names, some_, all, rfl, rfl⟩ := below
  -- There is at least one name below the directory, and the last of them is the file's.
  have last (home : List String) (proper : ∀ n ∈ home, IsName n) :
      fileName? (ofNames (home ++ names)) = names.getLast? := by
    have whole : ∀ n ∈ home ++ names, IsName n :=
      List.forall_mem_append.mpr ⟨proper, all⟩
    rw [fileName?, components_ofNames _ whole]
    cases names using List.reverseRecOn with
    | nil => exact absurd rfl some_
    | append_singleton names name =>
      rw [← List.append_assoc, List.map_append, List.map_singleton, ← List.cons_append,
        List.getLast?_concat, List.getLast?_concat]
  simp only [Path.isSource, extension?, last home proper, last home' proper']

end Path

namespace Gather

open UnusedMethods.Path (stem SamePlace SameBelow)

variable {disk disk' : Disk} {home home' : List String}
  (moved : disk.Relocated disk' home home')
include moved

theorem isMatch_alike {any any' : Glob.AnyOf} (alike : any.AlikeBelow (stem home) (stem home') any')
    {p p' : Path} (below : SameBelow home home' p p') :
    any.isMatch p.slashed = any'.isMatch p'.slashed := by
  obtain ⟨names, some_, all, rfl, rfl⟩ := below
  obtain ⟨rest, text⟩ := Path.exists_slashed_below names all some_
  rw [text home moved.proper, text home' moved.proper', alike]

end Gather

/-- File sets whose entries lie at the same places below two directories. -/
structure Config.FileSet.Alike (home home' : List String) (set set' : FileSet) : Prop where
  files : List.Forall₂ (Path.SamePlace home home') set.files set'.files
  includes : List.Forall₂ (Path.SamePlace home home') set.includes set'.includes
  excludes : List.Forall₂ (Path.SamePlace home home') set.excludes set'.excludes
  allowJs : set.allowJs = set'.allowJs

open Gather in
/-- Searches of one tree at two places meet the same files, in the same order. -/
theorem Disk.Relocated.met {disk disk' : Disk} {home home' : List String}
    (moved : disk.Relocated disk' home home') (proper : disk.Proper) {set set' : Config.FileSet}
    (alike : set.Alike home home' set') :
    SucceedTogether (List.Forall₂ (Path.SamePlace home home')) (Gather.met disk set enters)
      (Gather.met disk' set' enters) := by
  have includeGlobs : List.Forall₂ (Glob.AlikeBelow (Path.stem home) (Path.stem home'))
      (set.includes.map (includeGlob disk)) (set'.includes.map (includeGlob disk')) :=
    List.rel_map (fun _ _ place => includeGlob_alike moved place) alike.includes
  have excludeGlobs : List.Forall₂ (Glob.AlikeBelow (Path.stem home) (Path.stem home'))
      (set.excludes.flatMap Gather.excludeGlobs) (set'.excludes.flatMap Gather.excludeGlobs) :=
    List.rel_flatMap alike.excludes fun _ _ place => excludeGlobs_alike moved place
  unfold Gather.met
  -- From here on the globs of both places are read, and walks and filters are compared.
  refine (Targets.readGlobs_alike includeGlobs).bind fun includes includes' included => ?_
  refine (Targets.readGlobs_alike excludeGlobs).bind fun excludes excludes' excluded => ?_
  have entered (p p' : Path) (name : String) (below : Path.SameBelow home home' p p') :
      enters excludes p name = enters excludes' p' name := by
    rw [enters, enters, isMatch_alike moved excluded below]
  have admitted (p p' : Path) (below : Path.SameBelow home home' p p') :
      admits includes excludes set.allowJs p = admits includes' excludes' set'.allowJs p' := by
    rw [admits, admits, isMatch_alike moved included below, isMatch_alike moved excluded below,
      below.isSource moved.proper moved.proper', alike.allowJs]
  have walked : SucceedTogether (List.Forall₂ (List.Forall₂ (Path.SameBelow home home')))
      ((walkBases disk set.includes).mapM (disk.walk (enters excludes)))
      ((walkBases disk' set'.includes).mapM (disk'.walk (enters excludes'))) :=
    .mapM ((walkBases_alike moved alike.includes).imp fun _ _ ⟨place, isDir⟩ =>
      moved.walk proper entered place isDir)
  refine walked.bind fun walks walks' met => ?_
  refine .done (List.rel_append ?_ ?_)
  · exact List.rel_filter (fun _ _ place => Bool.eq_iff_iff.mp (moved.hasFile place)) alike.files
  · have kept : List.Forall₂ (Path.SameBelow home home') (List.filter _ _) (List.filter _ _) :=
      List.rel_filter (fun _ _ below => Bool.eq_iff_iff.mp (admitted _ _ below))
        (List.rel_flatten met)
    exact kept.imp fun _ _ below => below.samePlace

/-- The same tree at two places has the same files, in the same order. -/
theorem Disk.Relocated.gather {disk disk' : Disk} {home home' : List String}
    (moved : disk.Relocated disk' home home') (proper : disk.Proper) {set set' : Config.FileSet}
    (alike : set.Alike home home' set') :
    SucceedTogether (List.Forall₂ (Path.SamePlace home home')) (gather disk set)
      (gather disk' set') :=
  (moved.met proper alike).bind fun _ _ met =>
    .done (Path.distinct_alike moved.proper moved.proper' met)

/-! ### Manifests below two directories -/

namespace Path

/-- A path that leads down from where it is taken. -/
structure IsInside (p : Path) : Prop where
  relative : isAbsolute p = false
  down : ".." ∉ segments p

theorem IsInside.exists_names {p : Path} (inside : IsInside p) :
    ∃ names : List String, (∀ n ∈ names, IsName n) ∧ steps p = names.map .name := by
  have each : ∀ c ∈ steps p, ∃ name, IsName name ∧ c = .name name := by
    intro c member
    refine (mem_steps p c member).resolve_left ?_
    rintro rfl
    obtain ⟨segment, listed, found⟩ := List.mem_filterMap.mp member
    unfold stepOf at found
    split at found
    · cases found
    · split at found
      next up => exact inside.down (beq_iff_eq.mp up ▸ listed)
      · cases found
  generalize steps p = cs at each
  induction cs with
  | nil => exact ⟨[], by simp, rfl⟩
  | cons c cs ih =>
    obtain ⟨name, proper, rfl⟩ := each c List.mem_cons_self
    obtain ⟨names, all, rfl⟩ := ih fun c member => each c (List.mem_cons_of_mem _ member)
    exact ⟨name :: names, List.forall_mem_cons.mpr ⟨proper, all⟩, rfl⟩

theorem clean_of_components {p : Path} {names : List String} (all : ∀ n ∈ names, IsName n)
    (parts : components p = .root :: names.map .name) : clean p = ofNames names := by
  have plain : clean (ofNames names) = ofNames names := IsPlain.clean_eq ⟨names, all, rfl⟩
  rw [clean, components_ofNames names all, ← parts] at plain
  exact plain

/-- An entry that leads down is placed alike below two directories. -/
theorem IsInside.samePlace {entry : Path} (inside : IsInside entry) {home home' : List String}
    (proper : ∀ n ∈ home, IsName n) (proper' : ∀ n ∈ home', IsName n) :
    SamePlace home home' (clean (join (ofNames home) entry))
      (clean (join (ofNames home') entry)) := by
  obtain ⟨names, all, stepped⟩ := inside.exists_names
  have cleaned (home : List String) (proper : ∀ n ∈ home, IsName n) :
      clean (join (ofNames home) entry) = ofNames (home ++ names) := by
    apply clean_of_components (List.forall_mem_append.mpr ⟨proper, all⟩)
    rw [components_of_isAbsolute _ (isAbsolute_join _ _ (isAbsolute_ofNames home)),
      steps_join _ _ inside.relative, steps_ofNames home proper, stepped, List.map_append]
  exact ⟨names, all, cleaned home proper, cleaned home' proper'⟩

end Path

namespace Config

/-- The entries of a manifest that name files or directories. -/
def Manifest.entries (manifest : Manifest) : List String :=
  manifest.files.getD [] ++ manifest.includes.getD [] ++ manifest.excludes.getD [] ++
    (manifest.options.bind (·.outDir)).toList

/-- The file set of a manifest that extends none. -/
def FileSet.ofManifest (home : List String) (manifest : Manifest) : FileSet :=
  FileSet.ofLayer (Path.ofNames home)
    ((Layer.ofManifest (Path.ofNames home) manifest).upon Layer.empty)

/-- Where the manifest of a directory lies. -/
def manifestAt (home : List String) : Path :=
  Path.join (Path.ofNames home) Whereabouts.manifestName

theorem layerFrom_alone (disk : Disk) (fuel : Nat) {path : Path} (cleaned : path.clean = path)
    (alone : ∀ manifest, Manifest.read disk path = .ok manifest → manifest.baseEntries = []) :
    layerFrom disk (fuel + 1) [] path = (Manifest.read disk path).map fun manifest =>
      ((Layer.ofManifest (directoryOf path) manifest).upon Layer.empty, [path]) := by
  rw [layerFrom]
  simp only [cleaned]
  cases read : Manifest.read disk path with
  | error failure => rfl
  | ok manifest =>
    simp [bind, Except.bind, pure, Except.pure, alone manifest read, Except.map]

theorem isName_manifestName : Path.IsName Whereabouts.manifestName :=
  ⟨by decide, by decide, by simp [Whereabouts.manifestName]⟩

theorem isName_defaultExcludes : ∀ name ∈ defaultExcludes, Path.IsName name := by
  intro name member
  simp only [defaultExcludes, List.mem_cons, List.not_mem_nil, or_false] at member
  rcases member with rfl | rfl | rfl
  all_goals exact ⟨by decide, by decide, by simp⟩

theorem FileSet.load_alone (disk : Disk) {home : List String} (proper : ∀ n ∈ home, Path.IsName n)
    (alone : ∀ manifest, Manifest.read disk (manifestAt home) = .ok manifest →
      manifest.baseEntries = []) :
    FileSet.load disk (manifestAt home) =
      (Manifest.read disk (manifestAt home)).map (FileSet.ofManifest home) := by
  have whole : ∀ n ∈ home ++ [Whereabouts.manifestName], Path.IsName n :=
    List.forall_mem_append.mpr ⟨proper, List.forall_mem_singleton.mpr isName_manifestName⟩
  have text : manifestAt home = Path.ofNames (home ++ [Whereabouts.manifestName]) :=
    (Path.ofNames_concat home _).symm
  have directory : directoryOf (manifestAt home) = Path.ofNames home := by
    rw [text, directoryOf, Path.parent_ofNames home _ whole, Option.getD_some]
  have cleaned : Path.clean (manifestAt home) = manifestAt home :=
    Path.IsPlain.clean_eq ⟨_, whole, text⟩
  -- One unit of fuel reads the one manifest there is.
  obtain ⟨fuel, fueled⟩ : ∃ fuel, Disk.pathCount = fuel + 1 :=
    Nat.exists_eq_succ_of_ne_zero (Nat.ne_of_gt (Path.length_lt_pathCount [] .nil (by simp)))
  rw [FileSet.load, fueled, layerFrom_alone disk fuel cleaned alone, directory]
  cases Manifest.read disk (manifestAt home) with
  | error failure => rfl
  | ok manifest => rfl

/-- A manifest that extends none and names only what is below its directory. -/
structure Manifest.IsLocal (manifest : Manifest) : Prop where
  alone : manifest.baseEntries = []
  inside : ∀ entry ∈ manifest.entries, Path.IsInside entry

section

variable {disk disk' : Disk} {home home' : List String}
  (tree : disk.SameTree disk' home home')
include tree

theorem Manifest.read_alike {p p' : Path} (place : Path.SamePlace home home' p p') :
    SucceedTogether Eq (Manifest.read disk p) (Manifest.read disk' p') := by
  have bytes : SucceedTogether Eq (disk.read p) (disk'.read p') := by
    refine (tree.entry place).bind ?_
    rintro entry _ rfl
    cases entry with
    | file bytes => exact .done rfl
    | dir entries => exact .failed trivial
    | link target => exact .failed trivial
    | closed isDir why => exact .failed trivial
  have text : SucceedTogether Eq (disk.readText p) (disk'.readText p') := by
    refine bytes.bind ?_
    rintro bytes _ rfl
    split
    · exact .done rfl
    · exact .failed trivial
  rcases text.eq_or with ⟨_, _, read, read'⟩ | ⟨text, read, read'⟩
  · rw [Manifest.read, Manifest.read, read, read']
    exact .failed trivial
  · rw [Manifest.read, Manifest.read, read, read']
    change SucceedTogether Eq (Manifest.parse p text) (Manifest.parse p' text)
    unfold Manifest.parse
    split
    · exact .done rfl
    · exact .failed trivial

/-- The entries of a local manifest are placed alike below two directories. -/
theorem FileSet.alike_of_isLocal {manifest : Manifest} (isLocal : manifest.IsLocal) :
    FileSet.Alike home home' (FileSet.ofManifest home manifest)
      (FileSet.ofManifest home' manifest) := by
  have placed (entries : List String) (listed : ∀ entry ∈ entries, entry ∈ manifest.entries) :
      List.Forall₂ (Path.SamePlace home home')
        (entries.map fun entry => Path.clean (Path.join (Path.ofNames home) entry))
        (entries.map fun entry => Path.clean (Path.join (Path.ofNames home') entry)) := by
    rw [List.forall₂_map_left_iff, List.forall₂_map_right_iff, List.forall₂_same]
    intro entry member
    exact (isLocal.inside entry (listed entry member)).samePlace tree.proper tree.proper'
  obtain ⟨bases, files, includes, excludes, options⟩ := manifest
  constructor
  · cases files with
    | none => exact .nil
    | some entries => exact placed entries fun entry member => by simp [Manifest.entries, member]
  · cases includes with
    | some entries => exact placed entries fun entry member => by simp [Manifest.entries, member]
    | none =>
      cases files with
      | some entries => exact .nil
      | none =>
        -- A manifest that names nothing means all below its directory.
        exact .cons ⟨_, isName_stars, join_all home tree.proper, join_all home' tree.proper'⟩ .nil
  · cases excludes with
    | some entries => exact placed entries fun entry member => by simp [Manifest.entries, member]
    | none =>
      refine List.rel_append ?_ ?_
      · rw [List.forall₂_map_left_iff, List.forall₂_map_right_iff, List.forall₂_same]
        intro name member
        exact ((Path.samePlace_home home home').join (isName_defaultExcludes name member)).samePlace
      · cases outDir : options.bind (·.outDir) with
        | none =>
          simp [Layer.ofManifest, Layer.upon, Layer.empty, outDir]
        | some dir =>
          have inside := placed [dir] (by simp [Manifest.entries, outDir])
          simpa [Layer.ofManifest, Layer.upon, Layer.empty, outDir] using inside
  · simp only [FileSet.ofManifest, FileSet.ofLayer, Layer.upon, Layer.ofManifest]

/-- A local manifest describes the same files below two directories, if it can be read at all. -/
theorem FileSet.load_alike
    (isLocal : ∀ manifest, Manifest.read disk (manifestAt home) = .ok manifest →
      manifest.IsLocal) :
    SucceedTogether (FileSet.Alike home home') (FileSet.load disk (manifestAt home))
      (FileSet.load disk' (manifestAt home')) := by
  have place := ((Path.samePlace_home home home').join isName_manifestName).samePlace
  have reads := (Manifest.read_alike tree place).eq_or
  have alone (manifest : Manifest) (read : Manifest.read disk (manifestAt home) = .ok manifest) :
      manifest.baseEntries = [] := (isLocal manifest read).alone
  -- The two manifests hold the same text, so the second names no base either.
  have alone' (manifest : Manifest)
      (read' : Manifest.read disk' (manifestAt home') = .ok manifest) :
      manifest.baseEntries = [] := by
    rcases reads with ⟨_, _, _, failed⟩ | ⟨same, read, there⟩
    · cases failed.symm.trans read'
    · cases there.symm.trans read'
      exact alone manifest read
  rw [load_alone disk tree.proper alone, load_alone disk' tree.proper' alone']
  rcases reads with ⟨_, _, read, read'⟩ | ⟨manifest, read, read'⟩
  · rw [manifestAt, manifestAt, read, read']
    exact .failed trivial
  · rw [manifestAt, manifestAt, read, read']
    exact .done (alike_of_isLocal tree (isLocal manifest read))

end

end Config

/-- The files of the project whose manifest lies in a directory. -/
def filesAt (disk : Disk) (home : List String) : Except Failure (List Path) := do
  let set ← Config.FileSet.load disk (Config.manifestAt home)
  gather disk set

/-- The files of a project do not depend on where it lies, as long as its place means nothing to
globs: at two such places the search for them fails at both, or finds the same files in the same
order. -/
theorem filesAt_relocated {disk disk' : Disk} {home home' : List String} (proper : disk.Proper)
    (moved : disk.Relocated disk' home home')
    (isLocal : ∀ manifest, Config.Manifest.read disk (Config.manifestAt home) = .ok manifest →
      manifest.IsLocal) :
    SucceedTogether (List.Forall₂ (Path.SamePlace home home')) (filesAt disk home)
      (filesAt disk' home') :=
  (Config.FileSet.load_alike moved.toSameTree isLocal).bind fun _ _ alike =>
    moved.gather proper alike

/-! ### A project at given places -/

/-- A project of one file. -/
def movedTree : Entry :=
  .dir [
    ("tsconfig.json", .file "\x7b\"include\":[\"src/*\"]\x7d".toUTF8),
    ("src", .dir [("a.ts", .file "".toUTF8)])]

/-- The project under a name of its own. -/
def movedDisk (name : String) : Disk :=
  ⟨.dir [(name, movedTree)], "/"⟩

theorem movedDisk_proper (name : String) (named : Path.IsName name) : (movedDisk name).Proper where
  entries := by
    refine .dir _ (List.forall_mem_singleton.mpr named) (List.forall_mem_singleton.mpr ?_)
    refine .dir _ ?_ ?_
    · simp only [List.mem_cons, List.not_mem_nil, or_false, forall_eq_or_imp, forall_eq]
      exact ⟨⟨by decide, by decide, by simp⟩, ⟨by decide, by decide, by simp⟩⟩
    simp only [List.mem_cons, List.not_mem_nil, or_false, forall_eq_or_imp, forall_eq]
    refine ⟨.file _, .dir _ (List.forall_mem_singleton.mpr ?_) (List.forall_mem_singleton.mpr ?_)⟩
    · exact ⟨by decide, by decide, by simp⟩
    · exact .file _
  rooted := ⟨_, rfl⟩
  current := Path.isAbsolute_slash

theorem movedDisk_sameTree (name name' : String) (named : Path.IsName name)
    (named' : Path.IsName name')
    (fit : movedTree.paths.all (fun names => Disk.fits ([name] ++ names)) = true)
    (fit' : movedTree.paths.all (fun names => Disk.fits ([name'] ++ names)) = true) :
    Disk.SameTree (movedDisk name) (movedDisk name') [name] [name'] := by
  have isDir : movedTree.isDir = true := rfl
  have free : movedTree.linkFree = true := by decide +kernel
  have there (name : String) : (movedDisk name).root.descend? [name] = some movedTree := by
    simp [movedDisk, Entry.descend?, Entry.child?]
  exact .of_holds isDir free
    ⟨⟨_, rfl⟩, List.forall_mem_singleton.mpr named, there name, fit⟩
    ⟨⟨_, rfl⟩, List.forall_mem_singleton.mpr named', there name', fit'⟩

theorem movedDisk_isLocal (manifest : Config.Manifest)
    (read : Config.Manifest.read (movedDisk "p") (Config.manifestAt ["p"]) = .ok manifest) :
    manifest.IsLocal := by
  have written : Config.Manifest.read (movedDisk "p") (Config.manifestAt ["p"]) =
      .ok ⟨none, none, some ["src/*"], none, none⟩ := by
    decide +kernel
  cases written.symm.trans read
  exact ⟨rfl, List.forall_mem_singleton.mpr ⟨by decide +kernel, by decide +kernel⟩⟩

theorem movedDisk_filesAt : filesAt (movedDisk "p") ["p"] = .ok ["/p/src/a.ts"] := by
  have met : (Config.FileSet.load (movedDisk "p") (Config.manifestAt ["p"]) >>= fun set =>
      Gather.met (movedDisk "p") set Gather.enters) = .ok ["/p/src/a.ts"] := by
    decide +kernel
  obtain ⟨set, loaded, found⟩ := bind_eq_ok.mp met
  refine bind_eq_ok.mpr ⟨set, loaded, gather_eq_ok.mpr ⟨_, found, ?_⟩⟩
  simp [Path.distinct, Path.distinctBeyond]

theorem filesAt_relocated_moved :
    filesAt (movedDisk "p") ["p"] = .ok ["/p/src/a.ts"] ∧
      SucceedTogether (List.Forall₂ (Path.SamePlace ["p"] ["q\\,]!"]))
        (filesAt (movedDisk "p") ["p"]) (filesAt (movedDisk "q\\,]!") ["q\\,]!"]) := by
  have named : Path.IsName "p" := ⟨by decide, by decide, by simp⟩
  have named' : Path.IsName "q\\,]!" := ⟨by decide, by decide, by simp⟩
  have same := movedDisk_sameTree "p" "q\\,]!" named named' (by decide +kernel) (by decide +kernel)
  have text : Path.ofNames ["p"] = "/p" := by decide +kernel
  have text' : Path.ofNames ["q\\,]!"] = "/q\\,]!" := by decide +kernel
  have literal : Path.IsLiteral (Path.ofNames ["p"]) := by
    simp [Path.IsLiteral, text]
  have literal' : Path.IsLiteral (Path.ofNames ["q\\,]!"]) := by
    simp [Path.IsLiteral, text']
  exact ⟨movedDisk_filesAt, filesAt_relocated (movedDisk_proper "p" named) ⟨same, literal, literal'⟩
    movedDisk_isLocal⟩

/-- At a place that globs take for a pattern, here for alternatives that are not closed, the same
project has no files. -/
theorem filesAt_not_relocated_brace :
    (movedDisk "p").SameTree (movedDisk "p\x7b") ["p"] ["p\x7b"] ∧
      (∀ manifest, Config.Manifest.read (movedDisk "p") (Config.manifestAt ["p"]) = .ok manifest →
        manifest.IsLocal) ∧
      ¬ SucceedTogether (List.Forall₂ (Path.SamePlace ["p"] ["p\x7b"]))
        (filesAt (movedDisk "p") ["p"]) (filesAt (movedDisk "p\x7b") ["p\x7b"]) := by
  have named : Path.IsName "p" := ⟨by decide, by decide, by simp⟩
  have named' : Path.IsName "p\x7b" := ⟨by decide, by decide, by simp⟩
  have same := movedDisk_sameTree "p" "p\x7b" named named' (by decide +kernel) (by decide +kernel)
  refine ⟨same, movedDisk_isLocal, ?_⟩
  have failed : (filesAt (movedDisk "p\x7b") ["p\x7b"]).isOk = false := by decide +kernel
  -- The brace opens an alternation that the glob never closes.
  rw [movedDisk_filesAt]
  cases result : filesAt (movedDisk "p\x7b") ["p\x7b"] with
  | ok files =>
    rw [result] at failed
    cases failed
  | error failure =>
    intro together
    cases together

end UnusedMethods
