import UnusedMethods.Proofs.KeepGoing
import UnusedMethods.Proofs.LastStep
import UnusedMethods.Proofs.LiteralKeys

/-!
# The extensions of loaded files

Files come into a project in three ways: the manifest lists them, a walk meets them, or a file that
is read asks for them. Walks and requests admit only files with the extension of a source, plain
scripts among them if the project allows them. Files that the manifest lists are only asked to
exist. So what the loop reads are sources, apart from what the manifest lists, and all of it are
sources exactly if all that the manifest lists are.
-/

namespace UnusedMethods

/-- The files that a file set lists and that exist have extensions of sources. -/
def Config.FileSet.ListsSources (set : Config.FileSet) (disk : Disk) : Prop :=
  ∀ path ∈ set.files, disk.hasFile path = true → path.isSource set.allowJs = true

/-! ### Three ways into a project -/

theorem Imports.isSource_of_resolveFrom {disk : Disk} {allowJs : Bool} {f g : Path}
    {request : String} (resolved : resolveFrom? disk allowJs f request = some g) :
    g.isSource allowJs = true := by
  obtain ⟨dir, _, found⟩ := Option.bind_eq_some_iff.mp resolved
  obtain ⟨base, _, chosen⟩ := Option.bind_eq_some_iff.mp found
  have tested := List.find?_some chosen
  rw [Bool.and_eq_true] at tested
  exact tested.2

section

variable {disk : Disk} {set : Config.FileSet} {initial : List Path}

theorem isSource_or_listed (gathered : gather disk set = .ok initial) {path : Path}
    (member : path ∈ initial) :
    path.isSource set.allowJs = true ∨ path ∈ set.files ∧ disk.hasFile path = true := by
  obtain ⟨_, met, rfl⟩ := gather_eq_ok.mp gathered
  obtain ⟨_, _, _, _, _, _, rfl⟩ := Gather.met_eq_ok.mp met
  rcases List.mem_append.mp (Path.mem_of_mem_distinctBeyond _ _ _ member) with listed | found
  · exact .inr (List.mem_filter.mp listed)
  · have admitted := (List.mem_filter.mp found).2
    simp only [Gather.admits, Bool.and_eq_true] at admitted
    exact .inl admitted.1.1

theorem exists_gathered (gathered : gather disk set = .ok initial) {path : Path}
    (listed : path ∈ set.files) (present : disk.hasFile path = true) :
    ∃ other ∈ initial, other.key = path.key := by
  obtain ⟨_, met, rfl⟩ := gather_eq_ok.mp gathered
  obtain ⟨_, _, _, _, _, _, rfl⟩ := Gather.met_eq_ok.mp met
  apply Path.exists_key_of_mem
  · exact List.mem_append_left _ (List.mem_filter.mpr ⟨listed, present⟩)
  · simp

end

/-! ### What the loop reads -/

namespace Loading

section

variable (read : Path → Except Failure SourceFile) (leads : Path → SourceFile → List Path)
  (keepGoing : Bool)

/-- The loop over the waiting files comes to read a path. -/
inductive Reads : Std.HashSet String → List Path → Path → Prop
  | now (met : Std.HashSet String) (path : Path) (waiting : List Path) :
      Reads met (path :: waiting) path
  | skip {met : Std.HashSet String} {path other : Path} {waiting : List Path} {failure : Failure}
      (failed : read path = .error failure)
      (recoverable : (keepGoing && failure.isRecoverable) = true)
      (later : Reads met waiting other) : Reads met (path :: waiting) other
  | take {met : Std.HashSet String} {path other : Path} {waiting : List Path} {file : SourceFile}
      (present : read path = .ok file)
      (later : Reads (meet met (Path.distinctBeyond met (leads path file)))
        (waiting ++ Path.distinctBeyond met (leads path file)) other) :
      Reads met (path :: waiting) other

variable {read leads keepGoing} {met : Std.HashSet String} {waiting : List Path} {path : Path}

/-- What holds of the waiting files, and of all that files lead to, holds of all that is read. -/
theorem Reads.invariant (reads : Reads read leads keepGoing met waiting path)
    {holds : Path → Prop} (start : ∀ p ∈ waiting, holds p)
    (keeps : ∀ p file, ∀ q ∈ leads p file, holds q) : holds path := by
  induction reads with
  | now met path waiting => exact start path List.mem_cons_self
  | skip failed recoverable later ih =>
    exact ih fun p member => start p (List.mem_cons_of_mem _ member)
  | @take met path other waiting file present later ih =>
    apply ih
    intro p member
    rcases List.mem_append.mp member with queued | new
    · exact start p (List.mem_cons_of_mem _ queued)
    · exact keeps path file p (Path.mem_of_mem_distinctBeyond _ _ _ new)

/-- The loop depends on nothing but what it reads. -/
theorem drain_congr {read' : Path → Except Failure SourceFile} (fuel : Nat)
    (same : ∀ path, Reads read leads keepGoing met waiting path → read' path = read path)
    (done : List SourceFile) :
    drain read' leads keepGoing fuel met waiting done =
      drain read leads keepGoing fuel met waiting done := by
  induction fuel generalizing met waiting done with
  | zero => rfl
  | succ fuel ih =>
    cases waiting with
    | nil => rfl
    | cons path waiting =>
      rw [drain, drain, same path (.now met path waiting)]
      cases result : read path with
      | ok file => exact ih (fun other later => same other (.take result later)) (file :: done)
      | error failure =>
        by_cases recoverable : (keepGoing && failure.isRecoverable) = true
        · simp only [recoverable, if_true]
          exact ih (fun other later => same other (.skip result recoverable later)) done
        · simp only [recoverable, Bool.false_eq_true, if_false]

/-- A loop that fails does so for a path that it reads. -/
theorem exists_reads_of_error {fuel : Nat} {done : List SourceFile} {failure : Failure}
    (failed : drain read leads keepGoing fuel met waiting done = .error failure) :
    ∃ path, Reads read leads keepGoing met waiting path ∧ read path = .error failure := by
  induction fuel generalizing met waiting done with
  | zero => cases failed
  | succ fuel ih =>
    cases waiting with
    | nil => cases failed
    | cons path waiting =>
      rw [drain] at failed
      cases result : read path with
      | ok file =>
        rw [result] at failed
        obtain ⟨other, later, stops⟩ := ih failed
        exact ⟨other, .take result later, stops⟩
      | error own =>
        rw [result] at failed
        by_cases recoverable : (keepGoing && own.isRecoverable) = true
        · simp only [recoverable, if_true] at failed
          obtain ⟨other, later, stops⟩ := ih failed
          exact ⟨other, .skip result recoverable later, stops⟩
        · simp only [recoverable, Bool.false_eq_true, if_false] at failed
          cases failed
          exact ⟨path, .now met path waiting, result⟩

end

end Loading

/-! ### Files that cannot be read for their extension -/

theorem Script.Dialect.isSome_ofPath {path : Path} {plain : Bool}
    (source : path.isSource plain = true) : (Script.Dialect.ofPath? path).isSome = true := by
  unfold Path.isSource at source
  split at source
  · cases source
  next extension found =>
    obtain ⟨name, named, _⟩ := Option.bind_eq_some_iff.mp found
    have known : extension ∈ Path.typedExtensions ++ Path.plainExtensions := by
      rw [List.mem_append]
      simp only [Bool.or_eq_true, Bool.and_eq_true, List.contains_iff_mem] at source
      exact source.imp id And.right
    -- Every extension of a source has a dialect.
    simp only [Path.typedExtensions, Path.plainExtensions, List.cons_append, List.nil_append,
      List.mem_cons, List.not_mem_nil, or_false] at known
    rcases known with rfl | rfl | rfl | rfl | rfl | rfl | rfl | rfl <;>
      simp [Script.Dialect.ofPath?, named, found]

theorem dialect_of_unsupported {disk : Disk} {path other : Path}
    (failed : SourceFile.read disk path =
      .error (.badSource other "unsupported file extension" none)) :
    Script.Dialect.ofPath? path = none := by
  unfold SourceFile.read SourceParser.read at failed
  split at failed
  · cases failed
  next bytes _ =>
    change SourceFile.ofBytes path bytes = _ at failed
    unfold SourceFile.ofBytes at failed
    split at failed
    · -- The wording of a file that is too large begins otherwise.
      simp only [Except.error.injEq, Failure.badSource.injEq] at failed
      have letters := congrArg String.toList failed.2.1
      simp at letters
    · cases dialect : Script.Dialect.ofPath? path with
      | none => rfl
      | some dialect_ =>
        -- Any other fault of a text has a place.
        unfold readSource at failed
        simp only [dialect] at failed
        split at failed
        · simp only [Except.error.injEq, Failure.badSource.injEq, reduceCtorEq, and_false] at failed
        · split at failed
          · simp only [Except.error.injEq, Failure.badSource.injEq, reduceCtorEq, and_false]
              at failed
          · cases failed

/-- A failure that may be passed over comes after a step whose failures are not. -/
theorem FailsForGood.passed {α β : Type} {x : Except Failure α} {f : α → Except Failure β}
    {failure : Failure} (first : FailsForGood x) (failed : x >>= f = .error failure)
    (recoverable : failure.isRecoverable = true) : ∃ a, x = .ok a ∧ f a = .error failure := by
  cases x with
  | ok a => exact ⟨a, rfl, failed⟩
  | error other =>
    cases failed
    rw [first failure rfl] at recoverable
    cases recoverable

/-! ### Loading a project -/

namespace Project

open Loading Discovery

section

variable (parser : SourceParser) (disk : Disk) (place : Whereabouts) (scan : Config.Scan)

/-- The work of loading the files of a set comes to read a file. -/
def ComesTo (set : Config.FileSet) (path : Path) : Prop :=
  ∃ initial, gather disk set = .ok initial ∧
    Reads (parser.read disk) (leads disk set.allowJs) scan.keepGoing (meet ∅ initial) initial path

variable {parser disk place scan} {set : Config.FileSet} {path : Path}

theorem ComesTo.isSource_or_listed (comes : ComesTo parser disk scan set path) :
    path.isSource set.allowJs = true ∨ path ∈ set.files ∧ disk.hasFile path = true := by
  obtain ⟨initial, gathered, reads⟩ := comes
  apply reads.invariant fun p member => UnusedMethods.isSource_or_listed gathered member
  intro p file q lead
  obtain ⟨request, _, resolved⟩ := List.mem_filterMap.mp lead
  exact .inl (Imports.isSource_of_resolveFrom resolved)

theorem ComesTo.isSource (comes : ComesTo parser disk scan set path)
    (sources : set.ListsSources disk) : path.isSource set.allowJs = true := by
  rcases comes.isSource_or_listed with source | ⟨listed, present⟩
  · exact source
  · exact sources path listed present

/-- What is loaded depends on nothing but the files that the work comes to. -/
theorem loadWith_congr {parser' : SourceParser}
    (manifest : Config.FileSet.load disk place.manifest = .ok set)
    (same : ∀ path, ComesTo parser disk scan set path →
      parser'.read disk path = parser.read disk path) :
    loadWith parser' disk place scan = loadWith parser disk place scan := by
  unfold loadWith
  rw [manifest]
  cases gathered : gather disk set with
  | error failure =>
    cases Targets.ofScan place.sourceDir scan <;> simp [gathered, bind, Except.bind]
  | ok initial =>
    have drained := drain_congr Disk.pathCount (fun path reads => same path ⟨_, gathered, reads⟩) []
    simp only [gathered, bind, Except.bind, drained]

/-- If all that is listed and exists are sources, it is left open how other files are outlined. -/
theorem loadWith_of_agree {parser' : SourceParser}
    (manifest : Config.FileSet.load disk place.manifest = .ok set)
    (sources : set.ListsSources disk)
    (agree : ∀ path bytes, path.isSource set.allowJs = true →
      parser'.parse path bytes = parser.parse path bytes) :
    loadWith parser' disk place scan = loadWith parser disk place scan := by
  apply loadWith_congr manifest
  intro path comes
  unfold SourceParser.read
  cases disk.read path with
  | error trouble => rfl
  | ok bytes => exact agree path bytes (comes.isSource sources)

/-- Files that are loaded were gathered or asked for. -/
theorem isSource_of_loadWith {project : Project}
    (loaded : loadWith parser disk place scan = .ok project)
    (manifest : Config.FileSet.load disk place.manifest = .ok set)
    (sources : set.ListsSources disk) :
    ∀ file ∈ project.files, file.path.isSource set.allowJs = true := by
  obtain ⟨set', targets, initial, order, files, manifest', gathered, discovered, _, sublist,
    linked⟩ := exists_of_loadWith parser disk place scan loaded
  obtain rfl := Except.ok.inj (manifest.symm.trans manifest')
  intro file member
  have listed : file.path ∈ order := by
    apply sublist.subset
    rw [← paths_linkDefaults disk set.allowJs targets, ← linked]
    exact List.mem_map_of_mem member
  -- The sources hold what is gathered and are closed under requests, and there is no smaller set.
  refine discovered.least {p | p.isSource set.allowJs = true} ?_ ?_ file.path listed
  · intro p first
    rcases isSource_or_listed gathered first with source | ⟨known, present⟩
    · exact source
    · exact sources p known present
  · rintro f _ _ g ⟨request, _, resolved⟩
    exact Imports.isSource_of_resolveFrom resolved

/-- All that is listed and exists is loaded, if nothing is passed over. -/
theorem listsSources_of_loadWith {project : Project}
    (loaded : loadWith parser disk place scan = .ok project)
    (manifest : Config.FileSet.load disk place.manifest = .ok set)
    (strict : scan.keepGoing = false)
    (sources : ∀ file ∈ project.files, file.path.isSource set.allowJs = true) :
    set.ListsSources disk := by
  simp only [loadWith, bind_eq_ok] at loaded
  obtain ⟨set', manifest', targets, _, initial, gathered, files, drained, result⟩ := loaded
  obtain rfl := Except.ok.inj (manifest.symm.trans manifest')
  cases result
  obtain ⟨order, explored, discovered, drains⟩ :=
    exists_discovered parser disk set.allowJs set initial gathered scan.keepGoing
  rw [drained, strict] at drains
  -- Nothing is passed over, so the files are all that is discovered, in this order.
  have paths := paths_of_read parser disk (drains.all_read explored)
  obtain ⟨later, _, whole, _⟩ := discovered.sorted
  intro path listed present
  obtain ⟨other, first, same⟩ := exists_gathered gathered listed present
  have taken : other ∈ (Imports.linkDefaults disk set.allowJs (files.map (mark targets))).map
      (·.path) := by
    rw [paths_linkDefaults, paths, whole]
    exact List.mem_append_left _ first
  obtain ⟨file, member, rfl⟩ := List.mem_map.mp taken
  rw [← Path.isSource_of_key same]
  exact sources file member

/-- A failure that may be passed over is that of a file which the work comes to: the steps before
read no sources. -/
theorem exists_comesTo_of_error {failure : Failure}
    (failed : loadWith parser disk place scan = .error failure)
    (recoverable : failure.isRecoverable = true) :
    ∃ set path, Config.FileSet.load disk place.manifest = .ok set ∧
      ComesTo parser disk scan set path ∧ parser.read disk path = .error failure := by
  unfold loadWith at failed
  obtain ⟨set, manifest, failed⟩ := (FailsForGood.loadFileSet _ _).passed failed recoverable
  obtain ⟨_, _, failed⟩ := (FailsForGood.ofScan _ _).passed failed recoverable
  obtain ⟨initial, gathered, failed⟩ := (FailsForGood.gather _ _).passed failed recoverable
  cases drained : drain (parser.read disk) (leads disk set.allowJs) scan.keepGoing Disk.pathCount
      (meet ∅ initial) initial [] with
  | ok files =>
    rw [drained] at failed
    cases failed
  | error other =>
    rw [drained] at failed
    cases failed
    obtain ⟨path, reads, stops⟩ := exists_reads_of_error drained
    exact ⟨set, path, manifest, ⟨initial, gathered, reads⟩, stops⟩

variable (parser disk place scan)

/-- A project reads sources only, apart from files that its manifest lists. If all of those that
exist are sources, no file is refused for its extension and none but sources is parsed; and a strict
work that ends has loaded sources only exactly in that case. -/
theorem loads_sources :
    (∀ set, Config.FileSet.load disk place.manifest = .ok set →
      (∀ path, ComesTo parser disk scan set path →
        path.isSource set.allowJs = true ∨ path ∈ set.files ∧ disk.hasFile path = true) ∧
      (set.ListsSources disk →
        (∀ path, ComesTo parser disk scan set path → path.isSource set.allowJs = true) ∧
        (∀ parser' : SourceParser, (∀ path bytes, path.isSource set.allowJs = true →
            parser'.parse path bytes = parser.parse path bytes) →
          loadWith parser' disk place scan = loadWith parser disk place scan) ∧
        ∀ project, loadWith parser disk place scan = .ok project →
          ∀ file ∈ project.files, file.path.isSource set.allowJs = true) ∧
      (scan.keepGoing = false → ∀ project, loadWith parser disk place scan = .ok project →
        (∀ file ∈ project.files, file.path.isSource set.allowJs = true) →
          set.ListsSources disk)) ∧
    ((∀ set, Config.FileSet.load disk place.manifest = .ok set → set.ListsSources disk) →
      ∀ path, load disk place scan ≠
        .error (.badSource path "unsupported file extension" none)) := by
  constructor
  · intro set manifest
    refine ⟨fun path comes => comes.isSource_or_listed, fun sources => ⟨?_, ?_, ?_⟩, ?_⟩
    · exact fun path comes => comes.isSource sources
    · exact fun parser' agree => loadWith_of_agree manifest sources agree
    · exact fun project loaded => isSource_of_loadWith loaded manifest sources
    · exact fun strict project loaded => listsSources_of_loadWith loaded manifest strict
  · intro sources path failed
    obtain ⟨set, other, manifest, comes, stops⟩ := exists_comesTo_of_error failed rfl
    have known := Script.Dialect.isSome_ofPath (comes.isSource (sources set manifest))
    rw [dialect_of_unsupported stops] at known
    cases known

end

theorem loads_sources_pair :
    Config.FileSet.load pairDisk pairPlace.manifest = .ok pairSet ∧ pairSet.ListsSources pairDisk ∧
      (∀ path, load pairDisk pairPlace .standard ≠
        .error (.badSource path "unsupported file extension" none)) ∧
      ComesTo .standard pairDisk .standard pairSet "/p/src/f.ts" ∧
      ∀ path, ComesTo .standard pairDisk .standard pairSet path → path.isSource false = true := by
  have sources : pairSet.ListsSources pairDisk := by
    intro path listed _
    rw [List.mem_singleton.mp listed]
    decide +kernel
  obtain ⟨reads, never⟩ := loads_sources .standard pairDisk pairPlace .standard
  refine ⟨pairSet_load, sources, never ?_, ⟨_, pairSet_gather, .now ..⟩,
    ((reads pairSet pairSet_load).2.1 sources).1⟩
  intro set manifest
  obtain rfl := Except.ok.inj (pairSet_load.symm.trans manifest)
  exact sources

/-- A project whose manifest lists one file, which is empty. -/
def listedDisk (name : String) : Disk where
  root := .dir [("p", .dir [
    ("tsconfig.json", .file ("\x7b\"files\":[\"src/" ++ name ++ "\"],\"exclude\":[]\x7d").toUTF8),
    ("src", .dir [(name, .file ByteArray.empty)])])]
  current := "/"

def listedScript : Config.FileSet :=
  ⟨"/p", ["/p/src/a.js"], [], [], false⟩

def listedData : Config.FileSet :=
  ⟨"/p", ["/p/src/a.json"], [], [], false⟩

theorem listedScript_load :
    Config.FileSet.load (listedDisk "a.js") pairPlace.manifest = .ok listedScript := by
  decide +kernel

theorem listedData_load :
    Config.FileSet.load (listedDisk "a.json") pairPlace.manifest = .ok listedData := by
  decide +kernel

theorem listedScript_read :
    SourceFile.read (listedDisk "a.js") "/p/src/a.js" = .ok (.blank "/p/src/a.js") := by
  decide +kernel

theorem listedData_read : SourceFile.read (listedDisk "a.json") "/p/src/a.json" =
    .error (.badSource "/p/src/a.json" "unsupported file extension" none) := by
  decide +kernel

/-- A plain script is loaded although the project does not allow it, and a file of another kind
fails the whole work. -/
theorem loads_listed_others :
    Config.FileSet.load (listedDisk "a.js") pairPlace.manifest = .ok listedScript ∧
    load (listedDisk "a.js") pairPlace .standard = .ok ⟨[.blank "/p/src/a.js"]⟩ ∧
    Path.isSource "/p/src/a.js" listedScript.allowJs = false ∧
    load (listedDisk "a.json") pairPlace .standard =
      .error (.badSource "/p/src/a.json" "unsupported file extension" none) := by
  refine ⟨listedScript_load, ?_, by decide +kernel, ?_⟩
  · exact load_alone listedScript_load (by decide +kernel) listedScript_read rfl
      (by decide +kernel)
  · have readable : (Targets.ofScan pairPlace.sourceDir .standard).isOk = true := by decide +kernel
    cases targeted : Targets.ofScan pairPlace.sourceDir .standard with
    | error failure =>
      rw [targeted] at readable
      cases readable
    | ok targets =>
      have stopped : SourceParser.standard.read (listedDisk "a.json") "/p/src/a.json" = _ :=
        listedData_read
      have loaded := loadWith_eq_drain .standard (listedDisk "a.json") pairPlace .standard
        listedData_load targeted (gather_of_listed (by decide +kernel))
      obtain ⟨fuel, enough⟩ := exists_pathCount
      rw [enough, drain, stopped] at loaded
      exact loaded

end Project

end UnusedMethods
