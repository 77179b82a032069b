import UnusedMethods.Proofs.Unused

/-!
# What counts as usage

Whether a search reports a method depends on two things only: which members the files of a project
name, and which classes they declare to extend which others. The first is a matter of single places,
the second of chains of names, and both only grow with the files. So what some files use, any files
with the same contents and more use as well. What a search finds is laid out here file by file, so
that two projects can be compared whose files stand at different positions.
-/

namespace UnusedMethods

open Relation (TransGen)

/-- Nothing uses the methods of a name in a class: where a member of the name stands, it is
declared, and no related class declares a method of instances of the name. -/
structure Silent (files : List SourceFile) (className name : String) : Prop where
  unnamed : ∀ file ∈ files, ∀ r ∈ file.refs, r.name = name → r.kind = .declaration
  unmatched : ∀ file ∈ files, ∀ decl ∈ file.classes, ∀ kin, decl.name = some kin →
    Related files className kin → ∀ twin ∈ decl.methods, ¬ twin.Counterpart name

/-- All that some files name and declare is also named and declared in others. -/
structure UsageWithin (files others : List SourceFile) : Prop where
  refs : ∀ file ∈ files, ∀ r ∈ file.refs, ∃ other ∈ others, r ∈ other.refs
  classes : ∀ file ∈ files, ∀ decl ∈ file.classes,
    ∃ other ∈ others, decl ∈ other.classes ∧ other.imports = file.imports

section

variable {files others : List SourceFile}

theorem SourceFile.StandsFor.of_imports {file other : SourceFile} {written name : String}
    (same : other.imports = file.imports) (stands : file.StandsFor written name) :
    other.StandsFor written name := by
  have lookup : other.importedName written = file.importedName written := by
    rw [SourceFile.importedName, same, SourceFile.importedName]
  cases stands with
  | imported _ found proper => exact .imported name (lookup.trans found) proper
  | unlinked found => exact .unlinked (lookup.trans found)
  | own absent => exact .own (lookup.trans absent)

theorem Extends.of_within (within : UsageWithin files others) {sub super : String}
    (extends_ : Extends files sub super) : Extends others sub super := by
  obtain ⟨file, member, cls, declared, written, named, superclass, stands⟩ := extends_
  obtain ⟨other, member', declared', same⟩ := within.classes file member cls declared
  exact ⟨other, member', cls, declared', written, named, superclass, stands.of_imports same⟩

theorem Related.of_within (within : UsageWithin files others) {name kin : String}
    (related : Related files name kin) : Related others name kin := by
  obtain ⟨different, path⟩ := related
  have chain {a b : String} (path : TransGen (Extends files) a b) : TransGen (Extends others) a b :=
    TransGen.mono (fun _ _ => .of_within within) a b path
  -- That a name is not its own relative does not depend on the files.
  exact ⟨different, path.imp chain chain⟩

/-- What is silent among files is silent among fewer. -/
theorem Silent.of_within (within : UsageWithin files others) {className name : String}
    (silent : Silent others className name) : Silent files className name where
  unnamed file member r mention named := by
    obtain ⟨other, member', mention'⟩ := within.refs file member r mention
    exact silent.unnamed other member' r mention' named
  unmatched file member decl declared kin named related twin listed := by
    obtain ⟨other, member', declared', _⟩ := within.classes file member decl declared
    exact silent.unmatched other member' decl declared' kin named (.of_within within related) twin
      listed

theorem silent_congr (within : UsageWithin files others) (back : UsageWithin others files)
    (className name : String) : Silent files className name ↔ Silent others className name :=
  ⟨.of_within back, .of_within within⟩

end

namespace Detection

open References

theorem isSilent_iff (project : Project) {cls : ClassDecl} {m : Method} {className : String}
    (named : cls.name = some className) (eligible : m.isEligible = true) :
    isSilent project cls m = true ↔ Silent project.files className m.name := by
  obtain ⟨_, dynamic, _⟩ := m.isEligible_iff.mp eligible
  have places : isUnused (sitesOf project.files m.name) = true ↔
      ∀ file ∈ project.files, ∀ r ∈ file.refs, r.name = m.name → r.kind = .declaration := by
    simp only [isUnused, List.all_eq_true, mem_sitesOf, beq_iff_eq]
    constructor
    · intro declared file member r mention same
      exact declared _ ⟨file, member, r, mention, same, rfl⟩
    · rintro declared l ⟨file, member, r, mention, same, rfl⟩
      exact declared file member r mention same
  rw [isSilent_split, places, overrides_unused project named dynamic]
  constructor
  · rintro ⟨unnamed, unmatched⟩
    exact ⟨unnamed, unmatched⟩
  · intro silent
    exact ⟨silent.unnamed, silent.unmatched⟩

/-- Two projects that use the same have the same silent methods. -/
theorem isSilent_congr {project other : Project}
    (within : UsageWithin project.files other.files) (back : UsageWithin other.files project.files)
    {cls : ClassDecl} {m : Method} {className : String} (named : cls.name = some className)
    (eligible : m.isEligible = true) : isSilent project cls m = isSilent other cls m := by
  rw [Bool.eq_iff_iff, isSilent_iff project named eligible, isSilent_iff other named eligible]
  exact silent_congr within back className m.name

/-! ### What is found, file by file -/

/-- What a search finds in a class. -/
def foundInClass (project : Project) (path : Path) (cls : ClassDecl) : List Finding :=
  match cls.name with
  | none => []
  | some name =>
    (cls.methods.filter fun m => m.isEligible && isSilent project cls m).map (findingOf path name)

/-- What a search finds in a file. -/
def foundInFile (project : Project) (file : SourceFile) : List Finding :=
  file.classes.flatMap (foundInClass project file.path)

theorem found_classVisits {project : Project} {i j : Nat} {file : SourceFile} {cls : ClassDecl}
    (present : project.files[i]? = some file) (declared : file.classes[j]? = some cls) :
    ((classVisits file.path i (cls, j)).filterMap
        (Visit.reported? (find (Index.ofProject project)))).map (·.2) =
      foundInClass project file.path cls := by
  unfold classVisits foundInClass
  cases cls.name with
  | none => rfl
  | some name =>
    have silent : Visit.named.reported? (find (Index.ofProject project)) = none := rfl
    simp only [List.filterMap_cons, silent, List.filterMap_map, List.map_filterMap]
    -- The positions of the methods only serve to look them up.
    calc cls.methods.zipIdx.filterMap (fun entry => Option.map (·.2)
            ((methodVisit file.path name i j entry).reported? (find (Index.ofProject project))))
        = cls.methods.zipIdx.filterMap (fun entry =>
            if entry.1.isEligible && isSilent project cls entry.1
            then some (findingOf file.path name entry.1) else none) := by
          apply List.filterMap_congr
          rintro ⟨m, k⟩ member
          have listed := List.mem_zipIdx_iff_getElem?.mp member
          rw [methodVisit, reported_method ⟨present, declared, listed⟩]
          split
          · rfl
          · rfl
      _ = (cls.methods.zipIdx.map (·.1)).filterMap (fun m =>
            if m.isEligible && isSilent project cls m
            then some (findingOf file.path name m) else none) := by
          rw [List.filterMap_map]
          rfl
      _ = (cls.methods.filter fun m => m.isEligible && isSilent project cls m).map
            (findingOf file.path name) := by
          rw [List.zipIdx_map_fst, ← List.filterMap_eq_map, List.filterMap_filter]
          rfl

theorem found_fileVisits {project : Project} {i : Nat} {file : SourceFile}
    (present : project.files[i]? = some file) :
    ((fileVisits (i, file)).filterMap (Visit.reported? (find (Index.ofProject project)))).map
        (·.2) = foundInFile project file := by
  have silent : Visit.file.reported? (find (Index.ofProject project)) = none := rfl
  rw [fileVisits, List.filterMap_cons, silent, List.filterMap_flatMap, List.map_flatMap,
    foundInFile]
  conv_rhs => rw [← List.zipIdx_map_fst 0 file.classes, List.flatMap_map]
  apply List.flatMap_congr
  rintro ⟨cls, j⟩ member
  exact found_classVisits present (List.mem_zipIdx_iff_getElem?.mp member)

/-- What a search reports, without the positions: what it finds in each file that is searched. -/
theorem reports_map_snd (project : Project) :
    (reports project).map (·.2) =
      (project.files.filter (·.isTarget)).flatMap (foundInFile project) := by
  rw [reports, visits, List.filterMap_flatMap, List.map_flatMap, ← targets_map_snd,
    List.flatMap_map]
  apply List.flatMap_congr
  rintro ⟨i, file⟩ member
  exact found_fileVisits ((mem_targets project i file).mp member).1

/-- A search by the index of a project succeeds and finds, file by file, the silent methods of the
files that are searched. -/
theorem run_found (project : Project) (keepGoing : Bool) :
    ∃ d, run project (find (Index.ofProject project)) keepGoing = .ok d ∧
      d.findings = (project.files.filter (·.isTarget)).flatMap (foundInFile project) := by
  obtain ⟨d, result, _, found⟩ := run_eq_ok project keepGoing
  exact ⟨d, result, found.trans (reports_map_snd project)⟩

/-- What is found in a file are silent methods of its named classes. -/
theorem exists_of_mem_foundInFile {project : Project} {file : SourceFile} {finding : Finding}
    (member : finding ∈ foundInFile project file) :
    ∃ cls ∈ file.classes, ∃ name, cls.name = some name ∧ ∃ m ∈ cls.methods,
      (m.isEligible = true ∧ isSilent project cls m = true) ∧
        finding = findingOf file.path name m := by
  obtain ⟨cls, declared, inside⟩ := List.mem_flatMap.mp member
  unfold foundInClass at inside
  split at inside
  · cases inside
  next name named =>
    obtain ⟨m, kept, rfl⟩ := List.mem_map.mp inside
    obtain ⟨listed, chosen⟩ := List.mem_filter.mp kept
    exact ⟨cls, declared, name, named, m, listed, Bool.and_eq_true_iff.mp chosen, rfl⟩

/-- A finding tells of the file in which it is found. -/
theorem file_of_mem_foundInFile {project : Project} {file : SourceFile} {finding : Finding}
    (member : finding ∈ foundInFile project file) : finding.file = file.path := by
  obtain ⟨_, _, _, _, _, _, _, rfl⟩ := exists_of_mem_foundInFile member
  rfl

/-- A finding tells of a method that nothing uses. -/
theorem silent_of_mem_foundInFile {project : Project} {file : SourceFile} {finding : Finding}
    (member : finding ∈ foundInFile project file) :
    Silent project.files finding.className finding.method := by
  obtain ⟨_, _, _, named, _, _, ⟨eligible, silent⟩, rfl⟩ := exists_of_mem_foundInFile member
  exact (isSilent_iff project named eligible).mp silent

theorem foundInClass_congr {project other : Project}
    (within : UsageWithin project.files other.files) (back : UsageWithin other.files project.files)
    (path : Path) (cls : ClassDecl) :
    foundInClass project path cls = foundInClass other path cls := by
  unfold foundInClass
  split
  · rfl
  next name named =>
    congr 1
    apply List.filter_congr
    intro m _
    by_cases eligible : m.isEligible = true
    · rw [isSilent_congr within back named eligible]
    · simp [eligible]

/-- Projects that use the same find the same in a file. -/
theorem foundInFile_congr {project other : Project}
    (within : UsageWithin project.files other.files) (back : UsageWithin other.files project.files)
    (file : SourceFile) : foundInFile project file = foundInFile other file :=
  List.flatMap_congr fun cls _ => foundInClass_congr within back file.path cls

end Detection

end UnusedMethods
