import UnusedMethods.Proofs.GlobSet
import UnusedMethods.Proofs.ImportedBase
import UnusedMethods.Proofs.Usage

/-!
# The choice of targets does not touch usage

A scan configuration decides which files are searched, and nothing else: the files that are loaded,
the names they bind and the answers to reference queries do not depend on it. Two searches of one
project under different configurations therefore agree on every file that both of them search.
-/

namespace UnusedMethods

/-- A file without its mark. -/
def SourceFile.unmarked (file : SourceFile) : SourceFile :=
  { file with isTarget := false }

/-- A project without the marks of its files. -/
def Project.unmarked (project : Project) : Project :=
  ⟨project.files.map SourceFile.unmarked⟩

/-! ### Reference queries do not see marks -/

namespace References

variable (project : Project)

theorem lookup_unmarked (id : MethodId) :
    lookup project.unmarked.files.toArray id =
      (lookup project.files.toArray id).map fun (file, cls, m) => (file.unmarked, cls, m) := by
  simp only [lookup, Project.unmarked, List.getElem?_toArray, List.getElem?_map]
  cases project.files[id.file]? with
  | none => rfl
  | some file =>
    simp only [Option.map_some, SourceFile.unmarked]
    cases file.classes[id.cls]? with
    | none => rfl
    | some cls =>
      simp only
      cases cls.methods[id.method]? with
      | none => rfl
      | some m => rfl

theorem hierarchy_unmarked :
    (Index.ofProject project.unmarked).hierarchy = (Index.ofProject project).hierarchy := by
  simp only [Index.ofProject, Project.unmarked, Hierarchy.ofFiles, List.zipIdx_map,
    List.flatMap_map]
  rfl

theorem counterparts_unmarked (name : String) (location : ClassLocation) :
    counterparts project.unmarked.files.toArray name location =
      counterparts project.files.toArray name location := by
  simp only [counterparts, Project.unmarked, List.getElem?_toArray, List.getElem?_map]
  cases project.files[location.file]? with
  | none => rfl
  | some file => rfl

theorem overrides_unmarked (cls : ClassDecl) (m : Method) :
    overrides (Index.ofProject project.unmarked) cls m =
      overrides (Index.ofProject project) cls m := by
  simp only [overrides, hierarchy_unmarked]
  split
  · rfl
  · split
    · rfl
    · exact List.flatMap_congr fun location _ => counterparts_unmarked project m.name location

theorem sitesOf_unmarked (name : String) :
    sitesOf project.unmarked.files name = sitesOf project.files name := by
  simp only [sitesOf, Project.unmarked, List.flatMap_map]
  rfl

/-- A reference query answers the same whichever files are marked. -/
theorem find_unmarked (id : MethodId) :
    find (Index.ofProject project.unmarked) id = find (Index.ofProject project) id := by
  have looked : lookup (Index.ofProject project.unmarked).files id =
      (lookup (Index.ofProject project).files id).map
        fun (file, cls, m) => (file.unmarked, cls, m) := lookup_unmarked project id
  simp only [find, looked]
  cases lookup (Index.ofProject project).files id with
  | error failure => rfl
  | ok found =>
    obtain ⟨file, cls, m⟩ := found
    simp only [Except.map, bind, Except.bind, sites_ofProject, sitesOf_unmarked,
      overrides_unmarked]
    rfl

end References

/-! ### Searches under different marks -/

namespace Detection

theorem foundInFile_unmarked (project : Project) (file : SourceFile) :
    foundInFile project.unmarked file.unmarked = foundInFile project file := by
  -- Findings depend on marks through reference queries only.
  have silent : isSilent project.unmarked = isSilent project := by
    funext cls m
    simp only [isSilent, References.sitesOf_unmarked, References.overrides_unmarked]
  have inClass : foundInClass project.unmarked = foundInClass project := by
    funext path cls
    simp only [foundInClass, silent]
  simp only [foundInFile, inClass]
  rfl

/-- What a search finds in a project whose files are marked by their paths: the choice of paths
comes first, and what is found in the chosen files does not depend on it. -/
theorem found_unmarked (project : Project) (chosen : Path → Bool)
    (marked : ∀ file ∈ project.files, file.isTarget = chosen file.path) :
    (project.files.filter (·.isTarget)).flatMap (foundInFile project) =
      (project.unmarked.files.filter fun file => chosen file.path).flatMap
        (foundInFile project.unmarked) := by
  have files : project.unmarked.files.filter (fun file => chosen file.path) =
      (project.files.filter (·.isTarget)).map SourceFile.unmarked := by
    rw [Project.unmarked, List.filter_map]
    exact congrArg _ (List.filter_congr fun file member => (marked file member).symm)
  rw [files, List.flatMap_map]
  exact List.flatMap_congr fun file _ => (foundInFile_unmarked project file).symm

/-- To restrict findings to some files is to search among these only. -/
theorem filter_found (project : Project) (files : List SourceFile) (first second : Path → Bool) :
    ((files.filter fun file => first file.path).flatMap (foundInFile project)).filter
        (fun finding => second finding.file) =
      (files.filter fun file => first file.path && second file.path).flatMap
        (foundInFile project) := by
  have inFile (file : SourceFile) :
      (foundInFile project file).filter (fun finding => second finding.file) =
        if second file.path then foundInFile project file else [] := by
    split
    next kept =>
      refine List.filter_eq_self.mpr fun finding member => ?_
      rw [file_of_mem_foundInFile member, kept]
    next dropped =>
      refine List.filter_eq_nil_iff.mpr fun finding member => ?_
      rw [file_of_mem_foundInFile member]
      exact dropped
  induction files with
  | nil => rfl
  | cons file files ih =>
    cases one : first file.path with
    | false => simpa [one] using ih
    | true =>
      cases two : second file.path with
      | false => simpa [one, two, inFile, List.filter_append] using ih
      | true => simpa [one, two, inFile, List.filter_append] using ih

end Detection

/-! ### Loading under different configurations -/

namespace Project

open Loading

theorem unmarked_linkDefaults (disk : Disk) (allowJs : Bool) (targets : Targets)
    (files : List SourceFile) :
    Project.unmarked ⟨Imports.linkDefaults disk allowJs (files.map (mark targets))⟩ =
      ⟨Imports.linkDefaults disk allowJs (files.map SourceFile.unmarked)⟩ := by
  -- Linking reads paths and exports, and marks are neither.
  have names : Imports.defaultNames (files.map (mark targets)) =
      Imports.defaultNames (files.map SourceFile.unmarked) := by
    simp only [Imports.defaultNames, List.filterMap_map]
    rfl
  simp only [unmarked, Imports.linkDefaults, names, List.map_map]
  rfl

theorem isTarget_of_linkDefaults {disk : Disk} {allowJs : Bool} {targets : Targets}
    {files : List SourceFile} {file : SourceFile}
    (member : file ∈ Imports.linkDefaults disk allowJs (files.map (mark targets))) :
    file.isTarget = targets.contains file.path := by
  simp only [Imports.linkDefaults, List.map_map, List.mem_map, Function.comp_apply] at member
  obtain ⟨read, _, rfl⟩ := member
  rfl

/-- A project under a scan configuration is one that does not depend on its globs, with the files
marked that the globs choose. -/
theorem exists_unmarked_of_loadWith {parser : SourceParser} {disk : Disk} {place : Whereabouts}
    {scan : Config.Scan} {project : Project}
    (loaded : Project.loadWith parser disk place scan = .ok project) :
    ∃ set initial files targets, Config.FileSet.load disk place.manifest = .ok set ∧
      gather disk set = .ok initial ∧
      drain (parser.read disk) (leads disk set.allowJs) scan.keepGoing Disk.pathCount
        (meet ∅ initial) initial [] = .ok files ∧
      Targets.ofScan place.sourceDir scan = .ok targets ∧
      project.unmarked = ⟨Imports.linkDefaults disk set.allowJs (files.map .unmarked)⟩ ∧
      ∀ file ∈ project.files, file.isTarget = targets.contains file.path := by
  simp only [loadWith, bind_eq_ok] at loaded
  obtain ⟨set, manifest, targets, targeted, initial, gathered, files, drained, result⟩ := loaded
  cases result
  exact ⟨set, initial, files, targets, manifest, gathered, drained, targeted,
    unmarked_linkDefaults disk set.allowJs targets files, fun _ => isTarget_of_linkDefaults⟩

theorem unmarked_eq_of_loadWith {parser : SourceParser} {disk : Disk} {place : Whereabouts}
    {scan scan' : Config.Scan} {project project' : Project}
    (going : scan.keepGoing = scan'.keepGoing)
    (loaded : Project.loadWith parser disk place scan = .ok project)
    (loaded' : Project.loadWith parser disk place scan' = .ok project') :
    project.unmarked = project'.unmarked := by
  obtain ⟨set, initial, files, _, manifest, gathered, drained, _, equal, _⟩ :=
    exists_unmarked_of_loadWith loaded
  obtain ⟨set', initial', files', _, manifest', gathered', drained', _, equal', _⟩ :=
    exists_unmarked_of_loadWith loaded'
  obtain rfl : set = set' := Except.ok.inj (manifest.symm.trans manifest')
  obtain rfl : initial = initial' := Except.ok.inj (gathered.symm.trans gathered')
  rw [← going] at drained'
  obtain rfl : files = files' := Except.ok.inj (drained.symm.trans drained')
  exact equal.trans equal'.symm

end Project

/-- A path that globs relative to a directory match. -/
def Glob.AnyOf.matchesBelow (globs : Glob.AnyOf) (dir path : Path) : Bool :=
  (path.relativeTo? dir).any fun rest => globs.isMatch rest.slashed

/-- More exclude globs take away the targets that they match. -/
theorem Targets.contains_withExcludes {dir : Path} {scan : Config.Scan} {more : List String}
    {targets fewer : Targets} (targeted : Targets.ofScan dir scan = .ok targets)
    (targeted' : Targets.ofScan dir (scan.withExcludes more) = .ok fewer) :
    ∃ extra, Targets.readGlobs more = .ok extra ∧
      ∀ path, fewer.contains path = (targets.contains path && !extra.matchesBelow dir path) := by
  simp only [ofScan, Config.Scan.withExcludes, bind_eq_ok, readGlobs_eq_ok] at targeted targeted'
  obtain ⟨includes, included, excludes, excluded, result⟩ := targeted
  obtain ⟨includes', included', excludes', excluded', result'⟩ := targeted'
  cases result
  cases result'
  obtain rfl : includes = includes' := Except.ok.inj (included.symm.trans included')
  -- The added globs come after the others, so reading stops at the same of these.
  obtain ⟨old, extra, readOld, readExtra, either⟩ := Glob.AnyOf.ofTexts_append _ _ _ excluded'
  obtain rfl : excludes = old := Except.ok.inj (excluded.symm.trans readOld)
  refine ⟨extra, (readGlobs_eq_ok more extra).mpr readExtra, fun path => ?_⟩
  simp only [contains, Glob.AnyOf.matchesBelow]
  cases path.relativeTo? dir with
  | none => rfl
  | some rest => simp [either, Bool.and_assoc]

namespace Project

/-- Two scan configurations of one project: the loaded files differ in their marks at most, every
reference query has the same answer, and the searches find the same in the files that both choose.
A place that names a member counts as usage in any file, chosen or not. If one configuration adds
exclude globs to the other, its search finds what the other finds outside the files that they
match. -/
theorem searches_agree {parser : SourceParser} {disk : Disk} {place : Whereabouts}
    {scan scan' : Config.Scan} {project project' : Project}
    (going : scan.keepGoing = scan'.keepGoing)
    (loaded : Project.loadWith parser disk place scan = .ok project)
    (loaded' : Project.loadWith parser disk place scan' = .ok project') :
    project.unmarked = project'.unmarked ∧
      (∀ id, References.find (.ofProject project) id = References.find (.ofProject project') id) ∧
      ∃ targets targets' d d', Targets.ofScan place.sourceDir scan = .ok targets ∧
        Targets.ofScan place.sourceDir scan' = .ok targets' ∧
        (∀ file ∈ project.files, file.isTarget = targets.contains file.path) ∧
        (∀ file ∈ project'.files, file.isTarget = targets'.contains file.path) ∧
        Detection.run project (References.find (.ofProject project)) scan.keepGoing = .ok d ∧
        Detection.run project' (References.find (.ofProject project')) scan'.keepGoing = .ok d' ∧
        d.findings.filter (fun finding => targets'.contains finding.file) =
          d'.findings.filter (fun finding => targets.contains finding.file) ∧
        (∀ finding ∈ d'.findings, ∀ file ∈ project'.files, ∀ r ∈ file.refs,
          r.name = finding.method → r.kind = .declaration) ∧
        ∀ more, scan' = scan.withExcludes more →
          ∃ extra, Targets.readGlobs more = .ok extra ∧
            d'.findings = d.findings.filter
              (fun finding => !extra.matchesBelow place.sourceDir finding.file) := by
  have same := unmarked_eq_of_loadWith going loaded loaded'
  obtain ⟨_, _, _, targets, _, _, _, targeted, _, marked⟩ := exists_unmarked_of_loadWith loaded
  obtain ⟨_, _, _, targets', _, _, _, targeted', _, marked'⟩ := exists_unmarked_of_loadWith loaded'
  obtain ⟨d, result, found⟩ := Detection.run_found project scan.keepGoing
  obtain ⟨d', result', found'⟩ := Detection.run_found project' scan'.keepGoing
  have counted : ∀ finding ∈ d'.findings, ∀ file ∈ project'.files, ∀ r ∈ file.refs,
      r.name = finding.method → r.kind = .declaration := by
    intro finding member
    rw [found'] at member
    obtain ⟨_, _, inside⟩ := List.mem_flatMap.mp member
    exact (Detection.silent_of_mem_foundInFile inside).unnamed
  -- Both searches choose among the files of one project without marks.
  rw [Detection.found_unmarked project targets.contains marked] at found
  rw [Detection.found_unmarked project' targets'.contains marked', ← same] at found'
  refine ⟨same, fun id => ?_, targets, targets', d, d', targeted, targeted', marked, marked',
    result, result', ?_, counted, ?_⟩
  · rw [← References.find_unmarked project, same, References.find_unmarked]
  · rw [found, found', Detection.filter_found, Detection.filter_found]
    simp only [Bool.and_comm]
  · rintro more rfl
    obtain ⟨extra, read, fewer⟩ := Targets.contains_withExcludes targeted targeted'
    refine ⟨extra, read, ?_⟩
    rw [found, found']
    have restricted := Detection.filter_found project.unmarked project.unmarked.files
      targets.contains (fun path => !extra.matchesBelow place.sourceDir path)
    simp only [← fewer] at restricted
    exact restricted.symm

open Loading in
/-- The two files are loaded whatever is to be searched. -/
theorem pair_loadWith {scan : Config.Scan} (strict : scan.keepGoing = false)
    (readable : (Targets.ofScan pairPlace.sourceDir scan).isOk = true) :
    ∃ project, loadWith .standard pairDisk pairPlace scan = .ok project := by
  cases targeted : Targets.ofScan pairPlace.sourceDir scan with
  | error failure =>
    rw [targeted] at readable
    cases readable
  | ok targets =>
    have drained : drain (SourceParser.standard.read pairDisk) (leads pairDisk pairSet.allowJs)
        false Disk.pathCount (meet ∅ ["/p/src/f.ts"]) ["/p/src/f.ts"] [] =
        .ok [pairImporter, pairExporter] := pair_drain
    rw [loadWith_eq_drain .standard pairDisk pairPlace scan pairSet_load targeted pairSet_gather,
      strict, drained]
    exact ⟨_, rfl⟩

/-- The standard configuration without the file that exports. -/
def pairScan : Config.Scan :=
  Config.Scan.standard.withExcludes ["**/g.ts"]

theorem searches_agree_pair :
    ∃ project project', loadWith .standard pairDisk pairPlace .standard = .ok project ∧
      loadWith .standard pairDisk pairPlace pairScan = .ok project' ∧
      project.unmarked = project'.unmarked ∧
      ∃ d d' extra,
        Detection.run project (References.find (.ofProject project)) false = .ok d ∧
        Detection.run project' (References.find (.ofProject project')) false = .ok d' ∧
        Targets.readGlobs ["**/g.ts"] = .ok extra ∧
        d'.findings = d.findings.filter
          (fun finding => !extra.matchesBelow "/p/src" finding.file) := by
  obtain ⟨project, loaded⟩ :=
    pair_loadWith (show Config.Scan.standard.keepGoing = false from rfl) (by decide +kernel)
  obtain ⟨project', loaded'⟩ :=
    pair_loadWith (show pairScan.keepGoing = false from rfl) (by decide +kernel)
  have going : Config.Scan.standard.keepGoing = pairScan.keepGoing := rfl
  obtain ⟨same, _, _, _, d, d', _, _, _, _, result, result', _, _, fewer⟩ :=
    searches_agree going loaded loaded'
  obtain ⟨extra, read, restricted⟩ := fewer ["**/g.ts"] rfl
  exact ⟨project, project', loaded, loaded', same, d, d', extra, result, result', read, restricted⟩

end Project

end UnusedMethods
