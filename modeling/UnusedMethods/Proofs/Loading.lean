import Mathlib.Data.List.ReduceOption
import UnusedMethods.Proofs.Discovery

/-!
# What a project loads

The loop that loads a project stops after a number of files that no run reaches, so it is the loop
without that bound, `Drains`. What it returns follows from the order in which files are discovered:
the outlines of the files in that order, or the failure of the first file that stops the loop.
-/

namespace UnusedMethods

/-! ### Paths that lead somewhere are short -/

theorem Disk.isShort_of_entry (disk : Disk) (path : Path) (found : Entry)
    (leads : disk.entry path = .ok found) : path.IsShort := by
  unfold Disk.entry Disk.resolve at leads
  split at leads
  · cases leads
  split at leads
  · cases leads
  split at leads
  · cases leads
  next within => exact Nat.lt_of_not_le within

theorem Disk.isShort_of_read (disk : Disk) (path : Path) (bytes : ByteArray)
    (readable : disk.read path = .ok bytes) : path.IsShort := by
  unfold Disk.read at readable
  cases leads : disk.entry path with
  | error trouble =>
    rw [leads] at readable
    cases readable
  | ok found => exact disk.isShort_of_entry path found leads

theorem Disk.isShort_of_hasFile (disk : Disk) (path : Path) (present : disk.hasFile path = true) :
    path.IsShort := by
  unfold Disk.hasFile at present
  split at present
  next found leads => exact disk.isShort_of_entry path found leads
  · cases present

theorem Imports.isShort_of_resolveFrom (disk : Disk) (allowJs : Bool) (f g : Path)
    (request : String) (resolved : Imports.resolveFrom? disk allowJs f request = some g) :
    g.IsShort := by
  obtain ⟨dir, _, found⟩ := Option.bind_eq_some_iff.mp resolved
  obtain ⟨base, _, chosen⟩ := Option.bind_eq_some_iff.mp found
  have isSource := List.find?_some chosen
  simp only [Bool.and_eq_true] at isSource
  exact disk.isShort_of_hasFile g isSource.1

/-- Files are gathered once each. -/
theorem nodup_keys_of_gather (disk : Disk) (set : Config.FileSet) (initial : List Path)
    (gathered : gather disk set = .ok initial) : (initial.map Path.key).Nodup := by
  obtain ⟨_, _, rfl⟩ := gather_eq_ok.mp gathered
  exact Path.nodup_keys_distinctBeyond _ _

namespace Loading

open Discovery (Explores)

/-! ### The loop without a bound -/

section

variable (read : Path → Except Failure SourceFile) (leads : Path → SourceFile → List Path)
  (keepGoing : Bool)

/-- The loop over the waiting files ends with a result. -/
inductive Drains : Std.HashSet String → List Path → List SourceFile →
    Except Failure (List SourceFile) → Prop
  | done (met : Std.HashSet String) (files : List SourceFile) :
      Drains met [] files (.ok files.reverse)
  | stop {met : Std.HashSet String} {path : Path} {waiting : List Path} {files : List SourceFile}
      {failure : Failure} (failed : read path = .error failure)
      (fatal : (keepGoing && failure.isRecoverable) = false) :
      Drains met (path :: waiting) files (.error failure)
  | skip {met : Std.HashSet String} {path : Path} {waiting : List Path} {files : List SourceFile}
      {failure : Failure} {result : Except Failure (List SourceFile)}
      (failed : read path = .error failure)
      (recoverable : (keepGoing && failure.isRecoverable) = true)
      (rest : Drains met waiting files result) :
      Drains met (path :: waiting) files result
  | take {met : Std.HashSet String} {path : Path} {waiting : List Path} {files : List SourceFile}
      {file : SourceFile} {result : Except Failure (List SourceFile)}
      (present : read path = .ok file)
      (rest : Drains (meet met (Path.distinctBeyond met (leads path file)))
        (waiting ++ Path.distinctBeyond met (leads path file)) (file :: files) result) :
      Drains met (path :: waiting) files result

/-- What the loop does with a file: it is read, passed over, or stops the loop. -/
def attempt (path : Path) : Except Failure (Option SourceFile) :=
  match read path with
  | .ok file => .ok (some file)
  | .error failure =>
    if keepGoing && failure.isRecoverable then .ok none else .error failure

/-- The files that a file leads to, none if it cannot be read. -/
def leadsOf (path : Path) : List Path :=
  match read path with
  | .ok file => leads path file
  | .error _ => []

variable {read leads keepGoing} {path : Path}

theorem attempt_of_ok {file : SourceFile} (present : read path = .ok file) :
    attempt read keepGoing path = .ok (some file) := by
  simp only [attempt, present]

theorem attempt_of_recoverable {failure : Failure} (failed : read path = .error failure)
    (recoverable : (keepGoing && failure.isRecoverable) = true) :
    attempt read keepGoing path = .ok none := by
  simp only [attempt, failed, recoverable, if_true]

theorem attempt_of_fatal {failure : Failure} (failed : read path = .error failure)
    (fatal : (keepGoing && failure.isRecoverable) = false) :
    attempt read keepGoing path = .error failure := by
  simp [attempt, failed, fatal]

theorem read_of_attempt {file : SourceFile}
    (attempted : attempt read keepGoing path = .ok (some file)) : read path = .ok file := by
  unfold attempt at attempted
  split at attempted
  next present =>
    cases attempted
    exact present
  · split at attempted
    · cases attempted
    · cases attempted

theorem leadsOf_of_ok {file : SourceFile} (present : read path = .ok file) :
    leadsOf read leads path = leads path file := by
  simp only [leadsOf, present]

theorem leadsOf_of_error {failure : Failure} (failed : read path = .error failure) :
    leadsOf read leads path = [] := by
  simp only [leadsOf, failed]

variable {met : Std.HashSet String} {waiting order : List Path}

/-- A bound that exceeds the number of files that do not stop the loop is never reached. -/
theorem drains_drain (explored : Explores (leadsOf read leads) met waiting order) (fuel : Nat)
    (enough : (order.filter fun path => (attempt read keepGoing path).isOk).length < fuel)
    (files : List SourceFile) :
    Drains read leads keepGoing met waiting files
      (drain read leads keepGoing fuel met waiting files) := by
  induction explored generalizing fuel files with
  | done met =>
    obtain ⟨fuel, rfl⟩ := Nat.exists_eq_add_one_of_ne_zero (Nat.ne_zero_of_lt enough)
    exact .done met files
  | @next met path waiting order _ ih =>
    obtain ⟨fuel, rfl⟩ := Nat.exists_eq_add_one_of_ne_zero (Nat.ne_zero_of_lt enough)
    -- A file that does not stop the loop uses up one unit of the bound and was counted in it.
    have fewer (found : Option SourceFile) (going : attempt read keepGoing path = .ok found) :
        (order.filter fun path => (attempt read keepGoing path).isOk).length < fuel := by
      rw [List.filter_cons_of_pos (by rw [going]; rfl), List.length_cons] at enough
      exact Nat.lt_of_succ_lt_succ enough
    cases present : read path with
    | ok file =>
      rw [leadsOf_of_ok present] at ih
      simp only [drain, present]
      exact .take present (ih fuel (fewer _ (attempt_of_ok present)) (file :: files))
    | error failure =>
      rw [leadsOf_of_error present, Path.distinctBeyond, List.append_nil] at ih
      simp only [drain, present]
      split
      next recoverable =>
        have going := fewer _ (attempt_of_recoverable present recoverable)
        exact .skip present recoverable (ih fuel going files)
      next fatal => exact .stop present (Bool.eq_false_iff.mpr fatal)

/-- A loop that ends well has read or passed over every file, in order. -/
theorem Drains.attempted (explored : Explores (leadsOf read leads) met waiting order)
    {files result : List SourceFile}
    (drains : Drains read leads keepGoing met waiting files (.ok result)) :
    ∃ found : List (Option SourceFile),
      List.Forall₂ (fun path outcome => attempt read keepGoing path = .ok outcome) order found ∧
      result = files.reverse ++ found.reduceOption := by
  induction explored generalizing files with
  | done met =>
    cases drains
    exact ⟨[], .nil, by simp⟩
  | @next met path waiting order _ ih =>
    cases drains with
    | skip failed recoverable rest =>
      -- A file that is passed over leads nowhere, so the queue goes on without additions.
      rw [leadsOf_of_error failed, Path.distinctBeyond, List.append_nil] at ih
      obtain ⟨found, outcomes, equal⟩ := ih rest
      exact ⟨none :: found, .cons (attempt_of_recoverable failed recoverable) outcomes, equal⟩
    | @take _ _ _ _ file _ present rest =>
      rw [leadsOf_of_ok present] at ih
      obtain ⟨found, outcomes, equal⟩ := ih rest
      refine ⟨some file :: found, .cons (attempt_of_ok present) outcomes, ?_⟩
      simpa using equal

/-- A loop that fails does so for the first file that stops it. -/
theorem Drains.stopped (explored : Explores (leadsOf read leads) met waiting order)
    {files : List SourceFile} {failure : Failure}
    (drains : Drains read leads keepGoing met waiting files (.error failure)) :
    ∃ before path after, order = before ++ path :: after ∧
      (∀ p ∈ before, ∃ outcome, attempt read keepGoing p = .ok outcome) ∧
      attempt read keepGoing path = .error failure := by
  induction explored generalizing files with
  | done met => cases drains
  | @next met path waiting order _ ih =>
    -- A file that does not stop the loop joins those before the one that does.
    have later {outcome : Option SourceFile} (going : attempt read keepGoing path = .ok outcome)
        (rest : ∃ before path after, order = before ++ path :: after ∧
          (∀ p ∈ before, ∃ outcome, attempt read keepGoing p = .ok outcome) ∧
          attempt read keepGoing path = .error failure) :
        ∃ before path' after, path :: order = before ++ path' :: after ∧
          (∀ p ∈ before, ∃ outcome, attempt read keepGoing p = .ok outcome) ∧
          attempt read keepGoing path' = .error failure := by
      obtain ⟨before, path', after, rfl, passed, stops⟩ := rest
      refine ⟨path :: before, path', after, rfl, ?_, stops⟩
      intro p member
      rcases List.mem_cons.mp member with rfl | earlier
      · exact ⟨outcome, going⟩
      · exact passed p earlier
    cases drains with
    | stop failed fatal =>
      exact ⟨[], path, order, rfl, by simp, attempt_of_fatal failed fatal⟩
    | skip failed recoverable rest =>
      rw [leadsOf_of_error failed, Path.distinctBeyond, List.append_nil] at ih
      exact later (attempt_of_recoverable failed recoverable) (ih rest)
    | take present rest =>
      rw [leadsOf_of_ok present] at ih
      exact later (attempt_of_ok present) (ih rest)

/-! ### A loop that keeps nothing back -/

theorem attempt_strict (read : Path → Except Failure SourceFile) (path : Path) :
    attempt read false path = (read path).map some := by
  cases present : read path with
  | ok file => exact attempt_of_ok present
  | error failure => exact attempt_of_fatal present rfl

theorem attempt_strict_eq_ok {outcome : Option SourceFile}
    (attempted : attempt read false path = .ok outcome) :
    ∃ file, read path = .ok file ∧ outcome = some file := by
  rw [attempt_strict] at attempted
  cases present : read path with
  | error failure =>
    rw [present] at attempted
    cases attempted
  | ok file =>
    rw [present] at attempted
    exact ⟨file, rfl, (Except.ok.inj attempted).symm⟩

theorem attempt_strict_eq_error {failure : Failure} :
    attempt read false path = .error failure ↔ read path = .error failure := by
  rw [attempt_strict]
  cases read path with
  | error other => simp [Except.map]
  | ok file => simp [Except.map]

/-- The first of the files that cannot be read, by its failure. -/
def FirstFailure (read : Path → Except Failure SourceFile) (order : List Path)
    (failure : Failure) : Prop :=
  ∃ before path after, order = before ++ path :: after ∧
    (∀ p ∈ before, ∃ file, read p = .ok file) ∧ read path = .error failure

theorem FirstFailure.not_all_read {failure : Failure} (first : FirstFailure read order failure) :
    ¬ ∀ p ∈ order, ∃ file, read p = .ok file := by
  obtain ⟨before, path, after, rfl, _, failed⟩ := first
  intro all
  obtain ⟨file, present⟩ := all path (List.mem_append_right _ List.mem_cons_self)
  rw [failed] at present
  cases present

/-- Only one failure is the first. -/
theorem FirstFailure.unique {failure failure' : Failure}
    (first : FirstFailure read order failure) (other : FirstFailure read order failure') :
    failure = failure' := by
  obtain ⟨before, path, after, rfl, passed, failed⟩ := first
  obtain ⟨before', path', after', equal, passed', failed'⟩ := other
  -- The paths before the one failing file are not the other failing file.
  have apart {p : Path} {e : Failure} {ps : List Path} (failing : read p = .error e)
      (fine : ∀ q ∈ ps, ∃ file, read q = .ok file) : p ∉ ps := by
    intro member
    obtain ⟨file, present⟩ := fine p member
    rw [failing] at present
    cases present
  rcases List.append_eq_append_iff.mp equal with ⟨more, rfl, rest⟩ | ⟨more, rfl, rest⟩
  · cases more with
    | nil =>
      cases rest
      exact Except.error.inj (failed.symm.trans failed')
    | cons p more =>
      cases rest
      exact absurd (List.mem_append_right _ List.mem_cons_self) (apart failed passed')
  · cases more with
    | nil =>
      cases rest
      exact Except.error.inj (failed.symm.trans failed')
    | cons p more =>
      cases rest
      exact absurd (List.mem_append_right _ List.mem_cons_self) (apart failed' passed)

/-- A loop that passes nothing over and ends well has read all files, in order. -/
theorem Drains.all_read (explored : Explores (leadsOf read leads) met waiting order)
    {result : List SourceFile} (drains : Drains read leads false met waiting [] (.ok result)) :
    List.Forall₂ (fun path file => read path = .ok file) order result := by
  obtain ⟨found, outcomes, rfl⟩ := drains.attempted explored
  rw [List.reverse_nil, List.nil_append]
  clear drains explored
  induction outcomes with
  | nil => exact .nil
  | cons attempted _ ih =>
    obtain ⟨file, present, rfl⟩ := attempt_strict_eq_ok attempted
    rw [List.reduceOption_cons_of_some]
    exact .cons present ih

/-- A loop that passes nothing over and fails does so for the first file that cannot be read. -/
theorem Drains.firstFailure (explored : Explores (leadsOf read leads) met waiting order)
    {failure : Failure} (drains : Drains read leads false met waiting [] (.error failure)) :
    FirstFailure read order failure := by
  obtain ⟨before, path, after, split, passed, stops⟩ := drains.stopped explored
  refine ⟨before, path, after, split, ?_, attempt_strict_eq_error.mp stops⟩
  intro p member
  obtain ⟨outcome, attempted⟩ := passed p member
  obtain ⟨file, present, _⟩ := attempt_strict_eq_ok attempted
  exact ⟨file, present⟩

end

end Loading

/-! ### Loading a project -/

/-- The requests of a file, none if it cannot be read. -/
def SourceParser.requests (parser : SourceParser) (disk : Disk) (path : Path) : List String :=
  match parser.read disk path with
  | .ok file => file.requests
  | .error _ => []

theorem SourceParser.path_of_read (parser : SourceParser) (disk : Disk) {path : Path}
    {file : SourceFile} (present : parser.read disk path = .ok file) : file.path = path := by
  unfold SourceParser.read at present
  split at present
  · cases present
  · exact parser.path_eq present

namespace Loading

open Discovery (Explores)

variable (parser : SourceParser) (disk : Disk) (allowJs : Bool)

theorem leadsOf_eq_led :
    leadsOf (parser.read disk) (leads disk allowJs) =
      Discovery.led (parser.requests disk) (Imports.resolveFrom? disk allowJs) := by
  funext path
  simp only [leadsOf, Discovery.led, SourceParser.requests]
  split
  · rfl
  · rfl

theorem isShort_of_mem_leadsOf (f g : Path)
    (lead : g ∈ leadsOf (parser.read disk) (leads disk allowJs) f) : g.IsShort := by
  rw [leadsOf_eq_led] at lead
  obtain ⟨_, request, _, resolved⟩ := (Discovery.mem_led ..).mp lead
  exact Imports.isShort_of_resolveFrom disk allowJs f g request resolved

/-- A file that does not stop the loop is on the disk: only its text can be passed over. -/
theorem isShort_of_attempt (keepGoing : Bool) (path : Path) (outcome : Option SourceFile)
    (going : attempt (parser.read disk) keepGoing path = .ok outcome) : path.IsShort := by
  cases readable : disk.read path with
  | ok bytes => exact disk.isShort_of_read path bytes readable
  | error trouble =>
    have failed : parser.read disk path = .error (.unreadable path trouble.message) := by
      simp only [SourceParser.read, readable]
    rw [attempt_of_fatal failed (Bool.and_false keepGoing)] at going
    cases going

variable (set : Config.FileSet) (initial : List Path) (gathered : gather disk set = .ok initial)

include gathered in
/-- The loop that loads a project ends before its bound, with what the loop without a bound
returns. -/
theorem drains_pathCount (keepGoing : Bool) (order : List Path)
    (explored : Explores (leadsOf (parser.read disk) (leads disk allowJs)) (meet ∅ initial) initial
      order) :
    Drains (parser.read disk) (leads disk allowJs) keepGoing (meet ∅ initial) initial []
      (drain (parser.read disk) (leads disk allowJs) keepGoing Disk.pathCount (meet ∅ initial)
        initial []) := by
  apply drains_drain explored
  -- The files that do not stop the loop are different and lie at short paths.
  apply Path.length_lt_pathCount
  · have different : (order.map Path.key).Nodup :=
      explored.nodup_keys (nodup_keys_of_gather disk set initial gathered) fun f member =>
        (Discovery.mem_meet _ _ _).mpr (Or.inr ⟨f, member, rfl⟩)
    exact different.of_map.filter _
  · intro p member
    have going := (List.mem_filter.mp member).2
    cases attempted : attempt (parser.read disk) keepGoing p with
    | error failure =>
      rw [attempted] at going
      cases going
    | ok outcome => exact isShort_of_attempt parser disk keepGoing p outcome attempted

include gathered in
/-- The files that are discovered are those that the loop comes to. -/
theorem exists_discovered (keepGoing : Bool) :
    ∃ order, Explores (leadsOf (parser.read disk) (leads disk allowJs)) (meet ∅ initial) initial
        order ∧
      Discovery.Discovers (parser.requests disk) (Imports.resolveFrom? disk allowJs) initial order ∧
      Drains (parser.read disk) (leads disk allowJs) keepGoing (meet ∅ initial) initial []
        (drain (parser.read disk) (leads disk allowJs) keepGoing Disk.pathCount (meet ∅ initial)
          initial []) := by
  obtain ⟨order, explored⟩ := Explores.exists_order
    (leadsOf (parser.read disk) (leads disk allowJs))
    (isShort_of_mem_leadsOf parser disk allowJs) (meet ∅ initial) initial
  refine ⟨order, explored, ?_,
    drains_pathCount parser disk allowJs set initial gathered keepGoing order explored⟩
  rw [leadsOf_eq_led] at explored
  exact explored.discovers _ _ _ _ (nodup_keys_of_gather disk set initial gathered)

/-- Marking files and linking their imports leaves their paths alone. -/
theorem paths_linkDefaults (targets : Targets) (files : List SourceFile) :
    (Imports.linkDefaults disk allowJs (files.map (mark targets))).map (·.path) =
      files.map (·.path) := by
  rw [Imports.linkDefaults, List.map_map, List.map_map]
  rfl

/-- Files that are read in order have the paths in order. -/
theorem paths_of_read {order : List Path} {files : List SourceFile}
    (present : List.Forall₂ (fun path file => parser.read disk path = .ok file) order files) :
    files.map (·.path) = order := by
  induction present with
  | nil => rfl
  | cons present _ ih => rw [List.map_cons, ih, parser.path_of_read disk present]

/-- Of the files that the loop came to, in order, those that it read. -/
theorem read_of_attempted {keepGoing : Bool} {order : List Path} {found : List (Option SourceFile)}
    (outcomes : List.Forall₂
      (fun path outcome => attempt (parser.read disk) keepGoing path = .ok outcome) order found) :
    (∀ file ∈ found.reduceOption, parser.read disk file.path = .ok file) ∧
      (found.reduceOption.map (·.path)).Sublist order := by
  induction outcomes with
  | nil => exact ⟨by simp, by simp⟩
  | @cons path outcome _ _ attempted _ ih =>
    cases outcome with
    | none =>
      rw [List.reduceOption_cons_of_none]
      exact ⟨ih.1, ih.2.cons path⟩
    | some file =>
      have present := read_of_attempt attempted
      have same := parser.path_of_read disk present
      rw [List.reduceOption_cons_of_some, List.map_cons, same]
      refine ⟨?_, ih.2.cons_cons path⟩
      intro other member
      rcases List.mem_cons.mp member with rfl | later
      · exact same.symm ▸ present
      · exact ih.1 other later

end Loading

namespace Project

open Loading Discovery

section

variable (parser : SourceParser) (disk : Disk) (place : Whereabouts) (scan : Config.Scan)
  {set : Config.FileSet} {targets : Targets} {initial : List Path}

/-- A project is what the loop returns, once its manifest, its globs and its first files are
known. -/
theorem loadWith_eq_drain (manifest : Config.FileSet.load disk place.manifest = .ok set)
    (targeted : Targets.ofScan place.sourceDir scan = .ok targets)
    (gathered : gather disk set = .ok initial) :
    Project.loadWith parser disk place scan =
      (drain (parser.read disk) (leads disk set.allowJs) scan.keepGoing Disk.pathCount
        (meet ∅ initial) initial []).map fun files =>
          ⟨Imports.linkDefaults disk set.allowJs (files.map (mark targets))⟩ := by
  simp only [loadWith, manifest, targeted, gathered, bind, Except.bind]
  split <;> simp_all [Except.map, pure, Except.pure]

/-- A project is loaded from the files that the loop returns, marked and linked. -/
theorem loadWith_of_drain (manifest : Config.FileSet.load disk place.manifest = .ok set)
    (gathered : gather disk set = .ok initial) {files : List SourceFile}
    (drained : drain (parser.read disk) (leads disk set.allowJs) scan.keepGoing Disk.pathCount
      (meet ∅ initial) initial [] = .ok files) {project : Project}
    (linked : (Targets.ofScan place.sourceDir scan).map (fun targets =>
      Imports.linkDefaults disk set.allowJs (files.map (mark targets))) = .ok project.files) :
    Project.loadWith parser disk place scan = .ok project := by
  cases targeted : Targets.ofScan place.sourceDir scan with
  | error failure =>
    rw [targeted] at linked
    cases linked
  | ok targets =>
    rw [targeted] at linked
    rw [loadWith_eq_drain parser disk place scan manifest targeted gathered, drained]
    exact congrArg (fun files => Except.ok (Project.mk files)) (Except.ok.inj linked)

/-- A project that is loaded consists of files that are discovered and read, in the order of their
discovery, marked and linked. -/
theorem exists_of_loadWith {project : Project}
    (loaded : Project.loadWith parser disk place scan = .ok project) :
    ∃ (set : Config.FileSet) (targets : Targets) (initial order : List Path)
      (files : List SourceFile), Config.FileSet.load disk place.manifest = .ok set ∧
      gather disk set = .ok initial ∧
      Discovers (parser.requests disk) (Imports.resolveFrom? disk set.allowJs) initial order ∧
      (∀ file ∈ files, parser.read disk file.path = .ok file) ∧
      (files.map (·.path)).Sublist order ∧
      project.files = Imports.linkDefaults disk set.allowJs (files.map (mark targets)) := by
  simp only [loadWith, bind_eq_ok] at loaded
  obtain ⟨set, manifest, targets, _, initial, gathered, files, drained, result⟩ := loaded
  cases result
  obtain ⟨order, explored, discovered, drains⟩ :=
    exists_discovered parser disk set.allowJs set initial gathered scan.keepGoing
  rw [drained] at drains
  obtain ⟨found, outcomes, rfl⟩ := drains.attempted explored
  obtain ⟨present, sublist⟩ := read_of_attempted parser disk outcomes
  exact ⟨set, targets, initial, order, found.reduceOption, manifest, gathered, discovered, present,
    sublist, rfl⟩

/-- The work of loading a project ends, and without keeping going it returns the files in the order
of their discovery, or the failure of the first of them that cannot be read. -/
theorem loadWith_discovers (manifest : Config.FileSet.load disk place.manifest = .ok set)
    (targeted : Targets.ofScan place.sourceDir scan = .ok targets)
    (gathered : gather disk set = .ok initial) :
    (∃ result,
      Drains (parser.read disk) (leads disk set.allowJs) scan.keepGoing (meet ∅ initial) initial []
        result ∧
      Project.loadWith parser disk place scan = result.map fun files =>
        ⟨Imports.linkDefaults disk set.allowJs (files.map (mark targets))⟩) ∧
    (scan.keepGoing = false →
      ∃ order, Discovers (parser.requests disk) (Imports.resolveFrom? disk set.allowJs) initial
          order ∧
        (∀ project, Project.loadWith parser disk place scan = .ok project →
          project.files.map (·.path) = order) ∧
        ((∀ f ∈ order, ∃ file, parser.read disk f = .ok file) →
          ∃ project, Project.loadWith parser disk place scan = .ok project) ∧
        ∀ failure, Project.loadWith parser disk place scan = .error failure ↔
          FirstFailure (parser.read disk) order failure) := by
  obtain ⟨order, explored, discovered, drains⟩ :=
    exists_discovered parser disk set.allowJs set initial gathered scan.keepGoing
  have loaded := loadWith_eq_drain parser disk place scan manifest targeted gathered
  refine ⟨⟨_, drains, loaded⟩, fun strict => ⟨order, discovered, ?_⟩⟩
  rw [loaded]
  rw [strict] at drains ⊢
  -- Of the result only what `Drains` says of it is used from here on.
  generalize drain (parser.read disk) (leads disk set.allowJs) false Disk.pathCount
    (meet ∅ initial) initial [] = result at drains ⊢
  cases result with
  | ok files =>
    have present := drains.all_read explored
    have paths := paths_of_read parser disk present
    refine ⟨?_, fun _ => ⟨_, rfl⟩, fun failure => ⟨by rintro ⟨⟩, fun first => ?_⟩⟩
    · rintro project ⟨⟩
      exact (paths_linkDefaults disk set.allowJs targets files).trans paths
    -- All files were read, so none of them is the first that cannot be.
    · refine absurd (fun p member => ?_) first.not_all_read
      obtain ⟨i, within, rfl⟩ := List.getElem_of_mem member
      exact ⟨_, present.get within (present.length_eq ▸ within)⟩
  | error failure =>
    have first := drains.firstFailure explored
    refine ⟨by rintro project ⟨⟩, fun all => absurd all first.not_all_read, fun other => ?_⟩
    constructor
    · rintro ⟨⟩
      exact first
    · intro otherFirst
      rw [first.unique otherFirst]
      rfl

end

/-- Two files that ask for each other, of which the manifest lists the first. -/
def pairDisk : Disk where
  root := .dir [("p", .dir [
    ("tsconfig.json", .file "\x7b\"files\":[\"src/f.ts\"],\"exclude\":[]\x7d".toUTF8),
    ("src", .dir [
      ("f.ts", .file ("import\x7bN,C\x7dfrom'./g'\nclass D extends N\x7br()\x7b\x7d\x7d\n" ++
        "class E extends C\x7br()\x7b\x7d\x7d").toUTF8),
      ("g.ts", .file "import'./f'\nexport\x7bC as N,C\x7d\nclass C\x7br()\x7b\x7d\x7d".toUTF8)])])]
  current := "/"

def pairPlace : Whereabouts :=
  ⟨"/p", "/p/src", "/p/tsconfig.json"⟩

def pairSet : Config.FileSet :=
  ⟨"/p", ["/p/src/f.ts"], [], [], false⟩

theorem pairSet_load : Config.FileSet.load pairDisk pairPlace.manifest = .ok pairSet := by
  decide +kernel

/-- Without entries to walk, the one file that is listed and exists is gathered. -/
theorem gather_of_listed {disk : Disk} {dir file : Path} {allowJs : Bool}
    (exists_ : disk.hasFile file = true) :
    gather disk ⟨dir, [file], [], [], allowJs⟩ = .ok [file] := by
  have found : gather disk ⟨dir, [file], [], [], allowJs⟩ =
      .ok (Path.distinct ([file].filter disk.hasFile ++ [])) := rfl
  rw [found]
  simp [exists_, Path.distinct, Path.distinctBeyond]

theorem pairSet_gather : gather pairDisk pairSet = .ok ["/p/src/f.ts"] :=
  gather_of_listed (by decide +kernel)

theorem loadWith_discovers_pair :
    Config.FileSet.load pairDisk pairPlace.manifest = .ok pairSet ∧
      gather pairDisk pairSet = .ok ["/p/src/f.ts"] ∧
      ∃ targets, Targets.ofScan pairPlace.sourceDir .standard = .ok targets ∧
        ∃ order, Discovers (SourceParser.standard.requests pairDisk)
          (Imports.resolveFrom? pairDisk false) ["/p/src/f.ts"] order ∧
          ∀ failure, Project.loadWith .standard pairDisk pairPlace .standard = .error failure ↔
            FirstFailure (SourceParser.standard.read pairDisk) order failure := by
  have readable : (Targets.ofScan pairPlace.sourceDir .standard).isOk = true := by decide +kernel
  cases targeted : Targets.ofScan pairPlace.sourceDir .standard with
  | error failure =>
    rw [targeted] at readable
    cases readable
  | ok targets =>
    obtain ⟨_, strict⟩ := loadWith_discovers .standard pairDisk pairPlace .standard pairSet_load
      targeted pairSet_gather
    obtain ⟨order, discovers, _, _, fails⟩ := strict rfl
    exact ⟨pairSet_load, pairSet_gather, targets, rfl, order, discovers, fails⟩

end Project

end UnusedMethods
