import UnusedMethods.Proofs.ImportedBase
import UnusedMethods.Proofs.Outcome
import UnusedMethods.Proofs.Usage

/-!
# Keeping going passes over blank files

A work that keeps going leaves out the files that cannot be parsed. A strict work whose parser
outlines such files as blank reads the same files in the same order and has the blank ones between
them. Blank files lead nowhere, export, name and declare nothing, so linking, the index and the
class graph do not see them. They shift the positions of the other files, but a finding does not
tell positions: both works find the same, or fail alike.
-/

namespace UnusedMethods

/-- A parser that outlines as blank what a given one cannot parse. -/
def SourceParser.lenient (parser : SourceParser) : SourceParser where
  parse path bytes :=
    match parser.parse path bytes with
    | .ok file => .ok file
    | .error failure => if failure.isRecoverable then .ok (.blank path) else .error failure
  path_eq := by
    intro path bytes file parsed
    split at parsed
    next returned =>
      cases parsed
      exact parser.path_eq returned
    · split at parsed
      · cases parsed
        rfl
      · cases parsed

theorem SourceParser.read_lenient (parser : SourceParser) (disk : Disk) (path : Path) :
    parser.lenient.read disk path =
      match parser.read disk path with
      | .ok file => .ok file
      | .error failure => if failure.isRecoverable then .ok (.blank path) else .error failure := by
  unfold SourceParser.read
  cases disk.read path with
  | error trouble => rfl
  | ok bytes => rfl

/-- A file in which nothing is declared, named, imported or exported. -/
structure SourceFile.IsBlank (file : SourceFile) : Prop where
  classes : file.classes = []
  refs : file.refs = []
  imports : file.imports = []
  requests : file.requests = []
  exported : file.exported = none

theorem SourceFile.isBlank_blank (path : Path) : (SourceFile.blank path).IsBlank :=
  ⟨rfl, rfl, rfl, rfl, rfl⟩

namespace Loading

/-- Files, and the same files with blank ones between them. -/
inductive Padded : List SourceFile → List SourceFile → Prop
  | nil : Padded [] []
  | keep {files padded : List SourceFile} (file : SourceFile) (rest : Padded files padded) :
      Padded (file :: files) (file :: padded)
  | blank {files padded : List SourceFile} {file : SourceFile} (empty : file.IsBlank)
      (rest : Padded files padded) : Padded files (file :: padded)

namespace Padded

variable {files padded : List SourceFile}

theorem append {others othersPadded : List SourceFile} (first : Padded files padded)
    (second : Padded others othersPadded) : Padded (files ++ others) (padded ++ othersPadded) := by
  induction first with
  | nil => exact second
  | keep file _ ih => exact .keep file ih
  | blank empty _ ih => exact .blank empty ih

theorem reverse (pads : Padded files padded) : Padded files.reverse padded.reverse := by
  induction pads with
  | nil => exact .nil
  | keep file _ ih =>
    rw [List.reverse_cons, List.reverse_cons]
    exact ih.append (.keep file .nil)
  | @blank files padded file empty _ ih =>
    rw [List.reverse_cons, ← List.append_nil files.reverse]
    exact ih.append (.blank empty .nil)

/-- What keeps blank files blank keeps files padded. -/
theorem map (pads : Padded files padded) {f : SourceFile → SourceFile}
    (keeps : ∀ file, file.IsBlank → (f file).IsBlank) : Padded (files.map f) (padded.map f) := by
  induction pads with
  | nil => exact .nil
  | keep file _ ih => exact .keep (f file) ih
  | blank empty _ ih => exact .blank (keeps _ empty) ih

theorem filter (pads : Padded files padded) (test : SourceFile → Bool) :
    Padded (files.filter test) (padded.filter test) := by
  induction pads with
  | nil => exact .nil
  | keep file _ ih =>
    rw [List.filter_cons, List.filter_cons]
    split
    · exact .keep file ih
    · exact ih
  | blank empty _ ih =>
    rw [List.filter_cons]
    split
    · exact .blank empty ih
    · exact ih

/-- What takes nothing from blank files takes the same from padded files. -/
theorem flatMap_eq {α : Type} (pads : Padded files padded) {f : SourceFile → List α}
    (nothing : ∀ file, file.IsBlank → f file = []) : padded.flatMap f = files.flatMap f := by
  induction pads with
  | nil => rfl
  | keep file _ ih => rw [List.flatMap_cons, List.flatMap_cons, ih]
  | blank empty _ ih => rw [List.flatMap_cons, nothing _ empty, List.nil_append, ih]

theorem mem (pads : Padded files padded) {file : SourceFile} (member : file ∈ files) :
    file ∈ padded := by
  induction pads with
  | nil => exact member
  | keep other _ ih =>
    rcases List.mem_cons.mp member with rfl | later
    · exact List.mem_cons_self
    · exact List.mem_cons_of_mem _ (ih later)
  | blank _ _ ih => exact List.mem_cons_of_mem _ (ih member)

theorem mem_or_isBlank (pads : Padded files padded) {file : SourceFile} (member : file ∈ padded) :
    file ∈ files ∨ file.IsBlank := by
  induction pads with
  | nil => exact Or.inl member
  | keep other _ ih =>
    rcases List.mem_cons.mp member with rfl | later
    · exact Or.inl List.mem_cons_self
    · exact (ih later).imp_left (List.mem_cons_of_mem _)
  | blank empty _ ih =>
    rcases List.mem_cons.mp member with rfl | later
    · exact Or.inr empty
    · exact ih later

theorem usageWithin (pads : Padded files padded) : UsageWithin files padded where
  refs file member _ mention := ⟨file, pads.mem member, mention⟩
  classes file member _ declared := ⟨file, pads.mem member, declared, rfl⟩

/-- Blank files use nothing. -/
theorem usageWithin_back (pads : Padded files padded) : UsageWithin padded files where
  refs file member r mention := by
    rcases pads.mem_or_isBlank member with kept | empty
    · exact ⟨file, kept, mention⟩
    · rw [empty.refs] at mention
      cases mention
  classes file member decl declared := by
    rcases pads.mem_or_isBlank member with kept | empty
    · exact ⟨file, kept, declared, rfl⟩
    · rw [empty.classes] at declared
      cases declared

end Padded

section

variable (parser : SourceParser) (disk : Disk) (allowJs : Bool)

/-- The loop that keeps going and the strict loop with a lenient parser end alike. They take the
same paths from the queue: a file that the one passes over is blank for the other and leads
nowhere. -/
theorem drain_lenient (fuel : Nat) (met : Std.HashSet String) (waiting : List Path)
    {done padded : List SourceFile} (pads : Padded done padded) :
    EndAlike Padded
      (drain (parser.read disk) (leads disk allowJs) true fuel met waiting done)
      (drain (parser.lenient.read disk) (leads disk allowJs) false fuel met waiting padded) := by
  induction fuel generalizing met waiting done padded with
  | zero => exact .done pads.reverse
  | succ fuel ih =>
    cases waiting with
    | nil => exact .done pads.reverse
    | cons path waiting =>
      have lenient := parser.read_lenient disk path
      cases present : parser.read disk path with
      | ok file =>
        rw [present] at lenient
        simp only [drain, present, lenient]
        exact ih _ _ (.keep file pads)
      | error failure =>
        rw [present] at lenient
        cases recoverable : failure.isRecoverable with
        | false =>
          -- Neither loop passes over what cannot be read, and both stop here.
          simp only [recoverable, Bool.false_eq_true, if_false] at lenient
          simp only [drain, present, lenient, recoverable, Bool.and_false, Bool.false_eq_true,
            if_false]
          exact .failed rfl
        | true =>
          -- The blank file requests nothing, so both queues stay the same.
          simp only [recoverable, if_true] at lenient
          have nowhere : leads disk allowJs path (.blank path) = [] := rfl
          simp only [drain, present, lenient, recoverable, Bool.and_self, if_true, nowhere,
            Path.distinctBeyond, List.append_nil]
          exact ih _ _ (.blank (SourceFile.isBlank_blank path) pads)

/-- A strict loop that ends well passes over nothing, so it ends so if it keeps going as well. -/
theorem drain_keepGoing_of_ok {read : Path → Except Failure SourceFile}
    {leads : Path → SourceFile → List Path} {files : List SourceFile} (fuel : Nat)
    (met : Std.HashSet String) (waiting : List Path) (done : List SourceFile)
    (strict : drain read leads false fuel met waiting done = .ok files) :
    drain read leads true fuel met waiting done = .ok files := by
  induction fuel generalizing met waiting done with
  | zero => exact strict
  | succ fuel ih =>
    cases waiting with
    | nil => exact strict
    | cons path waiting =>
      rw [drain] at strict ⊢
      cases present : read path with
      | ok file =>
        rw [present] at strict
        exact ih _ _ _ strict
      | error failure =>
        -- A strict loop would have stopped at the file.
        rw [present] at strict
        cases strict

/-- Marking and linking treats files between blank ones as it treats them alone. -/
theorem Padded.linkDefaults {files padded : List SourceFile} (pads : Padded files padded)
    (targets : Targets) :
    Padded (Imports.linkDefaults disk allowJs (files.map (mark targets)))
      (Imports.linkDefaults disk allowJs (padded.map (mark targets))) := by
  have marked : Padded (files.map (mark targets)) (padded.map (mark targets)) :=
    pads.map fun file empty => ⟨empty.classes, empty.refs, empty.imports, empty.requests,
      empty.exported⟩
  -- A blank file exports nothing, so the names that defaults stand for are the same.
  have names : Imports.defaultNames (padded.map (mark targets)) =
      Imports.defaultNames (files.map (mark targets)) := by
    simp only [Imports.defaultNames, List.filterMap_eq_flatMap_toList]
    rw [marked.flatMap_eq]
    intro file empty
    simp [empty.exported]
  simp only [Imports.linkDefaults, names]
  refine marked.map fun file empty => ⟨empty.classes, empty.refs, ?_, empty.requests,
    empty.exported⟩
  simp [empty.imports]

/-- A project that keeps going is loaded like the strict one with a lenient parser, except for blank
files. -/
theorem loadWith_lenient (place : Whereabouts) (scan : Config.Scan) :
    EndAlike (fun project padded => Padded project.files padded.files)
      (Project.loadWith parser disk place (scan.withKeepGoing true))
      (Project.loadWith parser.lenient disk place (scan.withKeepGoing false)) := by
  unfold Project.loadWith
  -- The manifest, the globs and the first files are the same, and fail alike.
  refine (EndAlike.same _).bind ?_
  rintro set _ rfl
  refine (EndAlike.same (Targets.ofScan place.sourceDir scan)).bind ?_
  rintro targets _ rfl
  refine (EndAlike.same _).bind ?_
  rintro initial _ rfl
  refine (drain_lenient parser disk set.allowJs _ _ initial .nil).bind ?_
  intro files padded pads
  exact .done (pads.linkDefaults disk set.allowJs targets)

end

end Loading

/-! ### Failures that are not passed over -/

/-- A work that fails, if it does, with a failure that is never passed over. -/
def FailsForGood {α : Type} (work : Except Failure α) : Prop :=
  ∀ failure, work = .error failure → failure.isRecoverable = false

namespace FailsForGood

theorem ok {α : Type} (a : α) : FailsForGood (.ok a) := by
  rintro failure ⟨⟩

theorem error {α : Type} {failure : Failure} (fatal : failure.isRecoverable = false) :
    FailsForGood (.error failure : Except Failure α) := by
  rintro _ ⟨⟩
  exact fatal

theorem bind {α β : Type} {x : Except Failure α} {f : α → Except Failure β} (first : FailsForGood x)
    (rest : ∀ a, FailsForGood (f a)) : FailsForGood (x >>= f) := by
  cases x with
  | ok a => exact rest a
  | error failure => exact error (first failure rfl)

theorem foldlM {α β : Type} {step : β → α → Except Failure β} (xs : List α)
    (each : ∀ b x, FailsForGood (step b x)) (start : β) : FailsForGood (xs.foldlM step start) := by
  induction xs generalizing start with
  | nil => exact ok start
  | cons x xs ih => exact bind (each start x) ih

theorem mapM {α β : Type} {f : α → Except Failure β} (xs : List α)
    (each : ∀ x, FailsForGood (f x)) : FailsForGood (xs.mapM f) := by
  intro failure failed
  obtain ⟨x, _, failed⟩ := mapM_eq_error failed
  exact each x failure failed

theorem readGlobs (globs : List String) : FailsForGood (Targets.readGlobs globs) := by
  unfold Targets.readGlobs
  cases Glob.AnyOf.ofTexts globs with
  | ok any => exact ok any
  | error bad => exact error rfl

theorem ofScan (dir : Path) (scan : Config.Scan) : FailsForGood (Targets.ofScan dir scan) :=
  bind (readGlobs _) fun _ => bind (readGlobs _) fun _ => ok _

theorem walk (disk : Disk) (enters : Path → String → Bool) (base : Path) :
    FailsForGood (disk.walk enters base) := by
  intro failure failed
  unfold Disk.walk at failed
  split at failed
  · cases failed
    rfl
  · obtain ⟨_, _, _, _, shut⟩ := Entry.exists_of_walk_eq_error failed
    obtain ⟨_, rfl⟩ := Disk.exists_of_opens_eq_error shut
    rfl

theorem gather (disk : Disk) (set : Config.FileSet) : FailsForGood (gather disk set) :=
  bind (bind (readGlobs _) fun _ => bind (readGlobs _) fun _ =>
    bind (mapM _ (walk disk _)) fun _ => ok _) fun _ => ok _

theorem readManifest (disk : Disk) (path : Path) :
    FailsForGood (Config.Manifest.read disk path) := by
  unfold Config.Manifest.read
  cases disk.readText path with
  | error trouble => exact error rfl
  | ok text =>
    change FailsForGood (Config.Manifest.parse path text)
    unfold Config.Manifest.parse
    split
    · exact ok _
    · exact error rfl

theorem layerFrom (disk : Disk) (fuel : Nat) (seen : List Path) (path : Path) :
    FailsForGood (Config.layerFrom disk fuel seen path) := by
  induction fuel generalizing seen path with
  | zero => exact error rfl
  | succ fuel ih =>
    rw [Config.layerFrom]
    split
    · exact error rfl
    · refine bind (readManifest disk _) fun manifest => bind (foldlM _ ?_ _) fun _ => ok _
      rintro ⟨lower, seen⟩ entry
      simp only
      split
      · exact ok _
      · exact bind (ih _ _) fun _ => ok _

theorem loadFileSet (disk : Disk) (path : Path) : FailsForGood (Config.FileSet.load disk path) :=
  bind (layerFrom disk _ _ path) fun _ => ok _

open Loading in
/-- What ends the loop that keeps going is no failure that it may pass over. -/
theorem drain {read : Path → Except Failure SourceFile} {leads : Path → SourceFile → List Path}
    (fuel : Nat) (met : Std.HashSet String) (waiting : List Path) (done : List SourceFile) :
    FailsForGood (drain read leads true fuel met waiting done) := by
  induction fuel generalizing met waiting done with
  | zero => exact ok _
  | succ fuel ih =>
    cases waiting with
    | nil => exact ok _
    | cons path waiting =>
      rw [Loading.drain]
      split
      · split
        · exact ih _ _ _
        next failure _ fatal =>
          refine error ?_
          simpa using fatal
      · exact ih _ _ _

theorem loadWith (parser : SourceParser) (disk : Disk) (place : Whereabouts) (scan : Config.Scan) :
    FailsForGood (Project.loadWith parser disk place (scan.withKeepGoing true)) :=
  bind (loadFileSet disk _) fun _ => bind (ofScan _ _) fun _ => bind (gather disk _) fun _ =>
    bind (drain _ _ _ _) fun _ => ok _

end FailsForGood

/-! ### Searches -/

namespace Detection

open References Loading

/-- A visit whose method is resolved, or not asked for, does the same in either mode. -/
theorem visit_keepGoing {resolve : Resolver} {v : Visit}
    (answered : ∀ failure, v.answer? resolve ≠ some (.error failure)) (keepGoing : Bool)
    (d : Detection) : visit resolve keepGoing d v = visit resolve false d v := by
  cases v with
  | method className path id m =>
    simp only [visit, method]
    split
    · rfl
    next eligible =>
      cases answer : resolve id with
      | ok locations => rfl
      | error failure =>
        have asked : m.isEligible = true := by simpa using eligible
        exact absurd (by simp [Visit.answer?, asked, answer]) (answered failure)
  | _ => rfl

/-- A search by the index of a project does the same whether it keeps going or not. -/
theorem run_keepGoing (project : Project) (keepGoing : Bool) :
    run project (find (Index.ofProject project)) keepGoing =
      run project (find (Index.ofProject project)) false := by
  -- The index answers whatever it is asked, so the setting has no failure to decide about.
  have folds (vs : List Visit) (d : Detection)
      (answered : ∀ v ∈ vs, ∀ failure,
        v.answer? (find (Index.ofProject project)) ≠ some (.error failure)) :
      vs.foldlM (visit (find (Index.ofProject project)) keepGoing) d =
        vs.foldlM (visit (find (Index.ofProject project)) false) d := by
    induction vs generalizing d with
    | nil => rfl
    | cons v vs ih =>
      rw [List.foldlM_cons, List.foldlM_cons, visit_keepGoing (answered v List.mem_cons_self)]
      congr 1
      funext next
      exact ih next fun w member => answered w (List.mem_cons_of_mem _ member)
  rw [run_eq_visits, run_eq_visits]
  exact folds (visits project) start fun _ member => answer_of_mem_visits member

/-- Blank files between the others change nothing in what a search finds. -/
theorem found_of_padded {project padded : Project} (pads : Padded project.files padded.files) :
    (padded.files.filter (·.isTarget)).flatMap (foundInFile padded) =
      (project.files.filter (·.isTarget)).flatMap (foundInFile project) := by
  have same : foundInFile padded = foundInFile project := by
    funext file
    exact foundInFile_congr pads.usageWithin_back pads.usageWithin file
  rw [same]
  apply (pads.filter _).flatMap_eq
  intro file empty
  rw [foundInFile, empty.classes, List.flatMap_nil]

end Detection

namespace Project

open Loading

/-- Load a project and search it for unused methods. -/
def searchWith (parser : SourceParser) (disk : Disk) (place : Whereabouts) (scan : Config.Scan) :
    Except Failure Detection := do
  let project ← Project.loadWith parser disk place scan
  Detection.run project (References.find (.ofProject project)) scan.keepGoing

/-- A project that is loaded strictly is loaded so by a work that keeps going. -/
theorem loadWith_keepGoing_of_ok {parser : SourceParser} {disk : Disk} {place : Whereabouts}
    {scan : Config.Scan} {project : Project}
    (strict : loadWith parser disk place (scan.withKeepGoing false) = .ok project) :
    loadWith parser disk place (scan.withKeepGoing true) = .ok project := by
  simp only [loadWith, bind_eq_ok] at strict ⊢
  obtain ⟨set, manifest, targets, targeted, initial, gathered, files, drained, result⟩ := strict
  exact ⟨set, manifest, targets, targeted, initial, gathered, files,
    drain_keepGoing_of_ok _ _ _ _ drained, result⟩

/-- A search that keeps going ends like the strict one with a lenient parser, with the same
findings. -/
theorem searchWith_lenient (parser : SourceParser) (disk : Disk) (place : Whereabouts)
    (scan : Config.Scan) :
    EndAlike (fun d d' => d.findings = d'.findings)
      (searchWith parser disk place (scan.withKeepGoing true))
      (searchWith parser.lenient disk place (scan.withKeepGoing false)) := by
  refine (loadWith_lenient parser disk place scan).bind fun project padded pads => ?_
  obtain ⟨d, result, found⟩ := Detection.run_found project true
  obtain ⟨d', result', found'⟩ := Detection.run_found padded false
  simp only [Config.Scan.withKeepGoing, result, result']
  exact .done (found.trans ((Detection.found_of_padded pads).symm.trans found'.symm))

theorem searchWith_failsForGood (parser : SourceParser) (disk : Disk) (place : Whereabouts)
    (scan : Config.Scan) :
    FailsForGood (searchWith parser disk place (scan.withKeepGoing true)) := by
  refine (FailsForGood.loadWith parser disk place scan).bind fun project => ?_
  obtain ⟨d, result, _⟩ := Detection.run_found project true
  simp only [Config.Scan.withKeepGoing, result]
  exact .ok d

/-- A search that keeps going is the strict search with a lenient parser: both find the same, or
fail alike, and then neither for a file that cannot be parsed nor for a method that cannot be
resolved. Where a strict search succeeds, one that keeps going loads the same project and has the
same outcome. -/
theorem searchWith_keepGoing (parser : SourceParser) (disk : Disk) (place : Whereabouts)
    (scan : Config.Scan) :
    (searchWith parser disk place (scan.withKeepGoing true)).map (·.findings) =
        (searchWith parser.lenient disk place (scan.withKeepGoing false)).map (·.findings) ∧
      (∀ failure, searchWith parser disk place (scan.withKeepGoing true) = .error failure →
        (∀ path reason at_, failure ≠ .badSource path reason at_) ∧
          ∀ className method reason, failure ≠ .unresolved className method reason) ∧
      (∀ d, searchWith parser disk place (scan.withKeepGoing false) = .ok d →
        searchWith parser disk place (scan.withKeepGoing true) = .ok d) ∧
      ∀ project, loadWith parser disk place (scan.withKeepGoing false) = .ok project →
        loadWith parser disk place (scan.withKeepGoing true) = .ok project := by
  refine ⟨?_, ?_, ?_, fun _ => loadWith_keepGoing_of_ok⟩
  · exact (searchWith_lenient parser disk place scan).map_eq
  · intro failure failed
    have fatal := searchWith_failsForGood parser disk place scan failure failed
    constructor
    · rintro path reason at_ rfl
      cases fatal
    · rintro className method reason rfl
      cases fatal
  · intro d strict
    obtain ⟨project, loaded, searched⟩ := bind_eq_ok.mp strict
    refine bind_eq_ok.mpr ⟨project, loadWith_keepGoing_of_ok loaded, ?_⟩
    exact (Detection.run_keepGoing project true).trans searched

theorem searchWith_keepGoing_pair :
    (∃ d,
        searchWith .standard pairDisk pairPlace (Config.Scan.standard.withKeepGoing false) = .ok d ∧
        searchWith .standard pairDisk pairPlace (Config.Scan.standard.withKeepGoing true) = .ok d) ∧
      (searchWith .standard pairDisk pairPlace (Config.Scan.standard.withKeepGoing true)).map
          (·.findings) =
        (searchWith SourceParser.standard.lenient pairDisk pairPlace
          (Config.Scan.standard.withKeepGoing false)).map (·.findings) := by
  have loaded : loadWith .standard pairDisk pairPlace (Config.Scan.standard.withKeepGoing false) =
      .ok pairProject := pairProject_load
  obtain ⟨d, result, _⟩ := Detection.run_found pairProject false
  have strict : searchWith .standard pairDisk pairPlace
      (Config.Scan.standard.withKeepGoing false) = .ok d := bind_eq_ok.mpr ⟨_, loaded, result⟩
  obtain ⟨equal, _, same, _⟩ :=
    searchWith_keepGoing .standard pairDisk pairPlace Config.Scan.standard
  exact ⟨⟨d, strict, same d strict⟩, equal⟩

end Project

end UnusedMethods
