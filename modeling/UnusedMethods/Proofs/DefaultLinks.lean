import UnusedMethods.Proofs.Linking

/-!
# What linking changes

An import of a default export is bound to the name that the exporting file gives it, if that file is
among the files. This is all that linking does: it depends on what the other files are called and
export, which linking leaves alone. So it can be done file by file, in any order and any number of
times.
-/

namespace UnusedMethods.Imports

section

variable (disk : Disk) (allowJs : Bool) (files : List SourceFile)

/-- An import asks for the default export of one of the files, which is called by a name there. -/
def LinksTo (path : Path) (binding : ImportBinding) (name : String) : Prop :=
  binding.imported = defaultExport ∧
    ∃ target ∈ files,
      resolveFrom? disk allowJs path binding.source = some (Path.clean target.path) ∧
        target.exported = some name

/-- What becomes of an import: one that asks for a default export takes its name, any other stays as
it is. -/
inductive Rebinds (path : Path) (binding : ImportBinding) : ImportBinding → Prop
  | linked {name : String} (links : LinksTo disk allowJs files path binding name) :
      Rebinds path binding { binding with imported := name }
  | kept (free : ∀ name, ¬ LinksTo disk allowJs files path binding name) :
      Rebinds path binding binding

/-- A file differs from another at most in its imports, of which each is linked. -/
structure Relinks (file linked : SourceFile) : Prop where
  imports : List.Forall₂ (Rebinds disk allowJs files file.path) file.imports linked.imports
  others : linked = { file with imports := linked.imports }

end

variable {disk : Disk} {allowJs : Bool} {files : List SourceFile}

theorem linkDefaults_eq_map :
    linkDefaults disk allowJs files = files.map (linkFile disk allowJs (defaultNames files)) := rfl

/-! ### One binding -/

theorem lookup_defaultNames_iff (different : (files.map fun file => Path.clean file.path).Nodup)
    (path : Path) (name : String) :
    (defaultNames files).lookup path = some name ↔
      ∃ target ∈ files, path = Path.clean target.path ∧ target.exported = some name := by
  constructor
  · intro found
    obtain ⟨before, after, split, _⟩ := List.lookup_eq_some_iff.mp found
    have entry : (path, name) ∈ defaultNames files := by simp [split]
    rw [defaultNames, List.mem_reverse, List.mem_filterMap] at entry
    obtain ⟨target, member, named⟩ := entry
    obtain ⟨_, exported, same⟩ := Option.map_eq_some_iff.mp named
    cases same
    exact ⟨target, member, rfl, exported⟩
  · rintro ⟨target, member, rfl, exported⟩
    exact lookup_defaultNames different member exported

theorem rebinds_linkBinding (different : (files.map fun file => Path.clean file.path).Nodup)
    (path : Path) (binding : ImportBinding) :
    Rebinds disk allowJs files path binding
      (linkBinding disk allowJs (defaultNames files) path binding) := by
  by_cases byDefault : binding.imported = defaultExport
  · cases found : (resolveFrom? disk allowJs path binding.source).bind
        ((defaultNames files).lookup ·) with
    | none =>
      have same : linkBinding disk allowJs (defaultNames files) path binding = binding := by
        simp [linkBinding, byDefault, found]
      rw [same]
      apply Rebinds.kept
      rintro name ⟨_, target, member, resolved, exported⟩
      have listed := lookup_defaultNames different member exported
      simp [resolved, listed] at found
    | some name =>
      obtain ⟨target, resolved, listed⟩ := Option.bind_eq_some_iff.mp found
      obtain ⟨file, member, rfl, exported⟩ := (lookup_defaultNames_iff different _ _).mp listed
      have bound : linkBinding disk allowJs (defaultNames files) path binding =
          { binding with imported := name } := by
        simp [linkBinding, byDefault, found]
      rw [bound]
      exact .linked ⟨byDefault, file, member, resolved, exported⟩
  · rw [linkBinding_of_ne byDefault]
    exact .kept fun name links => byDefault links.1

/-! ### All files -/

theorem relinks_linkDefaults (different : (files.map fun file => Path.clean file.path).Nodup) :
    List.Forall₂ (Relinks disk allowJs files) files (linkDefaults disk allowJs files) := by
  rw [linkDefaults_eq_map, List.forall₂_map_right_iff]
  apply List.forall₂_same.mpr
  intro file _
  refine ⟨?_, rfl⟩
  apply List.forall₂_map_right_iff.mpr
  exact List.forall₂_same.mpr fun binding _ => rebinds_linkBinding different file.path binding

/-- Linking leaves the names of default exports alone. -/
theorem defaultNames_linkDefaults :
    defaultNames (linkDefaults disk allowJs files) = defaultNames files := by
  simp only [defaultNames, linkDefaults, List.filterMap_map]
  rfl

theorem linkBinding_linkBinding (defaults : List (Path × String)) (path : Path)
    (binding : ImportBinding) :
    linkBinding disk allowJs defaults path (linkBinding disk allowJs defaults path binding) =
      linkBinding disk allowJs defaults path binding := by
  by_cases byDefault : binding.imported = defaultExport
  · cases found : (resolveFrom? disk allowJs path binding.source).bind (defaults.lookup ·) with
    | none => simp [linkBinding, byDefault, found]
    | some name =>
      -- A default export that is itself called by the word is linked to the same name again.
      by_cases again : name = defaultExport
      · simp [linkBinding, byDefault, found, again]
      · simp [linkBinding, byDefault, found, again]
  · simp only [linkBinding_of_ne byDefault]

theorem linkDefaults_linkDefaults :
    linkDefaults disk allowJs (linkDefaults disk allowJs files) =
      linkDefaults disk allowJs files := by
  rw [linkDefaults_eq_map, defaultNames_linkDefaults, linkDefaults_eq_map, List.map_map]
  apply List.map_congr_left
  intro file _
  simp [linkFile, linkBinding_linkBinding]

/-- Files in another order give the same names to default exports. -/
theorem lookup_defaultNames_perm {others : List SourceFile} (perm : others.Perm files)
    (different : (files.map fun file => Path.clean file.path).Nodup) (path : Path) :
    (defaultNames others).lookup path = (defaultNames files).lookup path := by
  have different' : (others.map fun file => Path.clean file.path).Nodup :=
    (perm.map _).nodup_iff.mpr different
  apply Option.ext
  intro name
  rw [lookup_defaultNames_iff different', lookup_defaultNames_iff different]
  simp only [perm.mem_iff]

theorem linkFile_congr {defaults defaults' : List (Path × String)}
    (same : ∀ path, defaults.lookup path = defaults'.lookup path) (file : SourceFile) :
    linkFile disk allowJs defaults file = linkFile disk allowJs defaults' file := by
  have each : linkBinding disk allowJs defaults file.path =
      linkBinding disk allowJs defaults' file.path := by
    funext binding
    simp only [linkBinding, same]
  rw [linkFile, linkFile, each]

/-- The entries of a list at given positions, in the order of the positions. -/
def pick {α : Type} (order : List Nat) (xs : List α) : List α :=
  order.filterMap (xs[·]?)

theorem pick_range {α : Type} (xs : List α) : pick (List.range xs.length) xs = xs := by
  induction xs with
  | nil => rfl
  | cons x xs ih =>
    rw [List.length_cons, List.range_succ_eq_map, pick, List.filterMap_cons, List.filterMap_map]
    simpa [pick, Function.comp_def] using ih

theorem pick_map {α β : Type} (f : α → β) (order : List Nat) (xs : List α) :
    pick order (xs.map f) = (pick order xs).map f := by
  simp [pick, List.map_filterMap]

theorem pick_perm {α : Type} {order : List Nat} {xs : List α}
    (perm : order.Perm (List.range xs.length)) : (pick order xs).Perm xs := by
  have picked : (pick order xs).Perm (pick (List.range xs.length) xs) := perm.filterMap _
  rwa [pick_range] at picked

theorem linkDefaults_pick (different : (files.map fun file => Path.clean file.path).Nodup)
    {order : List Nat} (perm : order.Perm (List.range files.length)) :
    linkDefaults disk allowJs (pick order files) =
      pick order (linkDefaults disk allowJs files) := by
  rw [linkDefaults_eq_map, linkDefaults_eq_map, pick_map]
  apply List.map_congr_left
  intro file _
  exact linkFile_congr (lookup_defaultNames_perm (pick_perm perm) different) file

/-- Linking binds the imports of default exports of the files to their names, and changes nothing
else. Doing it twice is doing it once, and the order of the files does not matter. -/
theorem linkDefaults_exact (disk : Disk) (allowJs : Bool) (files : List SourceFile)
    (different : (files.map fun file => Path.clean file.path).Nodup) :
    List.Forall₂ (Relinks disk allowJs files) files (linkDefaults disk allowJs files) ∧
      linkDefaults disk allowJs (linkDefaults disk allowJs files) =
        linkDefaults disk allowJs files ∧
      ∀ order : List Nat, order.Perm (List.range files.length) →
        linkDefaults disk allowJs (pick order files) =
          pick order (linkDefaults disk allowJs files) :=
  ⟨relinks_linkDefaults different, linkDefaults_linkDefaults,
    fun _ perm => linkDefaults_pick different perm⟩

/-- Two files side by side. -/
def ringDisk : Disk where
  root := .dir [("p", .dir [("a.ts", .file "".toUTF8), ("b.ts", .file "".toUTF8)])]
  current := "/"

/-- Two files that import each other's default export; the first also imports its own, a name of the
other, and a default export of a package. -/
def ring : List SourceFile :=
  [{ SourceFile.blank "/p/a.ts" with
      imports := [⟨"X", defaultExport, "./b"⟩, ⟨"Y", defaultExport, "./a.js"⟩, ⟨"Z", "Z", "./b"⟩,
        ⟨"W", defaultExport, "b"⟩]
      exported := some "A" },
   { SourceFile.blank "/p/../p/b.ts" with
      imports := [⟨"X", defaultExport, "./../p/a"⟩]
      exported := some "B" }]

theorem linkDefaults_exact_ring :
    (ring.map fun file => Path.clean file.path).Nodup ∧
      List.Forall₂ (Relinks ringDisk false ring) ring (linkDefaults ringDisk false ring) ∧
      (linkDefaults ringDisk false ring).map (fun file => file.imports.map (·.imported)) =
        [["B", "A", "Z", defaultExport], ["A"]] ∧
      linkDefaults ringDisk false (pick [1, 0] ring) =
        pick [1, 0] (linkDefaults ringDisk false ring) := by
  have different : (ring.map fun file => Path.clean file.path).Nodup := by decide +kernel
  obtain ⟨relinks, _, reordered⟩ := linkDefaults_exact ringDisk false ring different
  exact ⟨different, relinks, by decide +kernel, reordered [1, 0] (List.Perm.swap 0 1 [])⟩

end UnusedMethods.Imports
