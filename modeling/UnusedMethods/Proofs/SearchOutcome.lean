import Mathlib.Algebra.Ring.Nat
import UnusedMethods.Proofs.Unused

/-!
# What a search returns, whatever answers it

A search asks a resolver about every eligible method of the named classes of the files that are
searched. Nothing is assumed of the resolver. The search fails with the first failure, in the order
of positions, that it may not pass over. If there is none it succeeds: its findings are the methods
of which the resolver knows declarations only, and each of its counts is the number of what it says
it counts.
-/

namespace UnusedMethods

/-- The positions with a property, in order and each once. -/
structure MethodId.Lists (ids : List MethodId) (property : MethodId → Prop) : Prop where
  ordered : ids.Pairwise MethodId.Before
  exact_ : ∀ id, id ∈ ids ↔ property id

theorem MethodId.Before.asymm {a b : MethodId} (before : a.Before b) : ¬ b.Before a := by
  unfold MethodId.Before at *
  omega

namespace Project

/-- The classes of the files that are searched. -/
def searchedClasses (project : Project) : List ClassDecl :=
  (project.files.filter (·.isTarget)).flatMap (·.classes)

/-- The methods of the named classes of the files that are searched. -/
def searchedMethods (project : Project) : List Method :=
  (project.searchedClasses.filter (·.name.isSome)).flatMap (·.methods)

/-- A position that holds an eligible method of a named class in a file that is searched. -/
def Considered (project : Project) (id : MethodId) : Prop :=
  ∃ file cls m className, MethodAt project.files id file cls m ∧ file.isTarget = true ∧
    cls.name = some className ∧ m.isEligible = true

end Project

namespace Resolver

/-- A resolver fails for a position with a failure that a search does not pass over. -/
def Stops (resolve : Resolver) (keepGoing : Bool) (id : MethodId) (failure : Failure) : Prop :=
  resolve id = .error failure ∧ ¬ (keepGoing = true ∧ failure.isRecoverable = true)

/-- A resolver knows declarations only of the method at a position. -/
def OnlyDeclared (resolve : Resolver) (id : MethodId) : Prop :=
  ∃ locations, resolve id = .ok locations ∧ ∀ l ∈ locations, l.kind = .declaration

/-- A resolver knows a use of the method at a position. -/
def InUse (resolve : Resolver) (id : MethodId) : Prop :=
  ∃ locations, resolve id = .ok locations ∧ ∃ l ∈ locations, l.kind ≠ .declaration

/-- A resolver fails for a position. -/
def Fails (resolve : Resolver) (id : MethodId) : Prop :=
  ∃ failure, resolve id = .error failure

end Resolver

namespace Detection

/-- The failure at the first position for which the resolver fails and the search must stop. -/
def FirstStop (project : Project) (resolve : Resolver) (keepGoing : Bool) (failure : Failure) :
    Prop :=
  ∃ id, project.Considered id ∧ resolve.Stops keepGoing id failure ∧
    ∀ earlier, project.Considered earlier → earlier.Before id →
      ∀ other, ¬ resolve.Stops keepGoing earlier other

/-- A detection tells what a search through a project with a resolver comes to: what it found, and
the numbers of all that it met. -/
structure Accounts (project : Project) (resolve : Resolver) (d : Detection) : Prop where
  found : ∃ ids, MethodId.Lists ids (fun id => project.Considered id ∧ resolve.OnlyDeclared id) ∧
    List.Forall₂ project.Describes ids d.findings
  findings : d.stats.findings = d.findings.length
  files : d.stats.filesScanned = (project.files.filter (·.isTarget)).length
  named : d.stats.classesScanned = project.searchedClasses.countP (·.name.isSome)
  classes : d.stats.classesScanned + d.stats.anonymousClasses = project.searchedClasses.length
  considered : ∃ ids, MethodId.Lists ids project.Considered ∧
    d.stats.methodsConsidered = ids.length
  methods : d.stats.methodsConsidered + d.stats.methodsSkipped = project.searchedMethods.length
  unresolved : ∃ ids, MethodId.Lists ids (fun id => project.Considered id ∧ resolve.Fails id) ∧
    d.stats.methodsUnresolved = ids.length
  used : ∃ ids, MethodId.Lists ids (fun id => project.Considered id ∧ resolve.InUse id) ∧
    d.stats.methodsConsidered = d.findings.length + d.stats.methodsUnresolved + ids.length

/-! ### Visits that ask -/

theorem isUnused_iff (locations : List Location) :
    isUnused locations = true ↔ ∀ l ∈ locations, l.kind = .declaration := by
  simp [isUnused]

/-- The position that a visit asks about. -/
@[simp]
def Visit.asked? : Visit → Option MethodId
  | .method _ _ id m => if m.isEligible then some id else none
  | _ => none

theorem Visit.asked_eq_some {v : Visit} {id : MethodId} :
    v.asked? = some id ↔
      ∃ className path m, v = .method className path id m ∧ m.isEligible = true := by
  cases v with
  | method className path id' m => simp [and_comm]
  | _ => simp

theorem Visit.id_of_asked {v : Visit} {id : MethodId} (asks : v.asked? = some id) :
    v.id? = some id := by
  obtain ⟨_, _, _, rfl, _⟩ := asked_eq_some.mp asks
  rfl

theorem Visit.answer_eq (resolve : Resolver) (v : Visit) :
    v.answer? resolve = v.asked?.map resolve := by
  cases v with
  | method className path id m =>
    by_cases eligible : m.isEligible = true
    · simp [answer?, eligible]
    · simp [answer?, eligible]
  | _ => rfl

/-- A search asks about the positions that it considers. -/
theorem asked_iff_considered (project : Project) (id : MethodId) :
    (∃ v ∈ visits project, v.asked? = some id) ↔ project.Considered id := by
  simp only [Visit.asked_eq_some]
  constructor
  · rintro ⟨_, member, className, path, m, rfl, eligible⟩
    obtain ⟨file, cls, at_, target, named, _⟩ := (method_mem_visits ..).mp member
    exact ⟨file, cls, m, className, at_, target, named, eligible⟩
  · rintro ⟨file, cls, m, className, at_, target, named, eligible⟩
    have member := (method_mem_visits project className file.path id m).mpr
      ⟨file, cls, at_, target, named, rfl⟩
    exact ⟨_, member, className, file.path, m, rfl, eligible⟩

/-- The positions that some of the visits ask about. -/
theorem lists_asked (project : Project) (asks : MethodId → Bool) :
    MethodId.Lists (((visits project).filterMap Visit.asked?).filter asks)
      (fun id => project.Considered id ∧ asks id = true) where
  ordered := by
    refine List.Pairwise.filter _ (List.pairwise_filterMap.mpr ?_)
    refine (visits_pairwise project).imp ?_
    intro v w before a atV b atW
    exact before a (Visit.id_of_asked atV) b (Visit.id_of_asked atW)
  exact_ id := by
    rw [List.mem_filter, List.mem_filterMap, asked_iff_considered]

/-! ### The end of a search that fails -/

theorem Visit.fatal_eq_some {resolve : Resolver} {keepGoing : Bool} {v : Visit}
    {failure : Failure} :
    v.fatal? resolve keepGoing = some failure ↔
      ∃ id, v.asked? = some id ∧ resolve.Stops keepGoing id failure := by
  unfold fatal?
  rw [answer_eq]
  cases v.asked? with
  | none => simp
  | some id =>
    cases answer : resolve id with
    | ok locations => simp [Resolver.Stops, answer]
    | error other =>
      simp only [Option.map_some, answer, Resolver.Stops, Option.some.injEq, Except.error.injEq,
        exists_eq_left', ite_eq_iff, Bool.and_eq_true, reduceCtorEq, and_false, false_or]
      constructor
      · rintro ⟨stops, rfl⟩
        exact ⟨rfl, stops⟩
      · rintro ⟨rfl, stops⟩
        exact ⟨stops, rfl⟩

theorem visit_eq_error (resolve : Resolver) (keepGoing : Bool) (d : Detection) {v : Visit}
    {failure : Failure} (fatal : v.fatal? resolve keepGoing = some failure) :
    visit resolve keepGoing d v = .error failure := by
  obtain ⟨id, asks, answer, stops⟩ := Visit.fatal_eq_some.mp fatal
  obtain ⟨className, path, m, rfl, eligible⟩ := Visit.asked_eq_some.mp asks
  have stops' : (keepGoing && failure.isRecoverable) = false := by
    rw [← Bool.not_eq_true, Bool.and_eq_true]
    exact stops
  simp [visit, method, eligible, answer, stops']

/-- A search ends at the first visit that ends it. -/
theorem foldlM_visit_eq_error (resolve : Resolver) (keepGoing : Bool) (vs : List Visit)
    (d : Detection) (failure : Failure) :
    vs.foldlM (visit resolve keepGoing) d = .error failure ↔
      vs.findSome? (Visit.fatal? resolve keepGoing) = some failure := by
  induction vs generalizing d with
  | nil => simp [pure, Except.pure]
  | cons v vs ih =>
    rw [List.foldlM_cons, List.findSome?_cons]
    cases fatal : v.fatal? resolve keepGoing with
    | some other =>
      rw [visit_eq_error resolve keepGoing d fatal]
      simp [bind, Except.bind]
    | none =>
      obtain ⟨d', visited, _⟩ := visit_eq_ok resolve keepGoing d v fatal
      rw [visited]
      exact ih d'

/-- The first visit that ends a search is for the first position that does. -/
theorem findSome_fatal_iff (project : Project) (resolve : Resolver) (keepGoing : Bool)
    (failure : Failure) :
    (visits project).findSome? (Visit.fatal? resolve keepGoing) = some failure ↔
      FirstStop project resolve keepGoing failure := by
  -- The visits stand in the order of their positions, so first in the one is first in the other.
  have ordered := visits_pairwise project
  constructor
  · rw [List.findSome?_eq_some_iff]
    rintro ⟨before, v, after, split, fatal, calm⟩
    obtain ⟨id, asks, stops⟩ := Visit.fatal_eq_some.mp fatal
    refine ⟨id, (asked_iff_considered project id).mp ⟨v, by simp [split], asks⟩, stops, ?_⟩
    intro earlier considered less other stops'
    obtain ⟨w, member, asks'⟩ := (asked_iff_considered project earlier).mpr considered
    have fatal' := Visit.fatal_eq_some.mpr ⟨earlier, asks', stops'⟩
    rw [split] at member ordered
    rcases List.mem_append.mp member with first | rest
    · rw [calm w first] at fatal'
      cases fatal'
    -- The visit itself and those after it are not for an earlier position.
    · have later : id = earlier ∨ id.Before earlier := by
        rcases List.mem_cons.mp rest with rfl | behind
        · exact Or.inl (Option.some.inj (asks.symm.trans asks'))
        · have beyond := (List.pairwise_cons.mp (List.pairwise_append.mp ordered).2.1).1 w behind
          exact Or.inr (beyond id (Visit.id_of_asked asks) earlier (Visit.id_of_asked asks'))
      rcases later with rfl | later
      · exact less.asymm less
      · exact less.asymm later
  · rintro ⟨id, considered, stops, earliest⟩
    obtain ⟨v, member, asks⟩ := (asked_iff_considered project id).mpr considered
    obtain ⟨before, after, split⟩ := List.append_of_mem member
    refine List.findSome?_eq_some_iff.mpr ⟨before, v, after, split,
      Visit.fatal_eq_some.mpr ⟨id, asks, stops⟩, ?_⟩
    intro w first
    by_contra fatal
    obtain ⟨other, fatal⟩ := Option.ne_none_iff_exists'.mp fatal
    obtain ⟨earlier, asks', stops'⟩ := Visit.fatal_eq_some.mp fatal
    have inside : w ∈ visits project := by simp [split, first]
    rw [split] at ordered
    have less := (List.pairwise_append.mp ordered).2.2 w first v List.mem_cons_self
    exact earliest earlier ((asked_iff_considered project earlier).mp ⟨w, inside, asks'⟩)
      (less earlier (Visit.id_of_asked asks') id (Visit.id_of_asked asks)) other stops'

theorem run_eq_error_iff (project : Project) (resolve : Resolver) (keepGoing : Bool)
    (failure : Failure) :
    run project resolve keepGoing = .error failure ↔
      FirstStop project resolve keepGoing failure := by
  rw [run_eq_visits, foldlM_visit_eq_error, findSome_fatal_iff]

/-! ### The counts of a search that succeeds -/

@[simp]
def Visit.isFile : Visit → Bool
  | .file => true
  | _ => false

@[simp]
def Visit.isNamed : Visit → Bool
  | .named => true
  | _ => false

@[simp]
def Visit.isAnonymous : Visit → Bool
  | .anonymous => true
  | _ => false

/-- A visit of a method that is not asked about. -/
@[simp]
def Visit.isSkipped : Visit → Bool
  | .method _ _ _ m => !m.isEligible
  | _ => false

/-- Counts with those of some visits added. -/
def countsAfter (resolve : Resolver) (s : Stats) (vs : List Visit) : Stats where
  filesScanned := s.filesScanned + vs.countP Visit.isFile
  classesScanned := s.classesScanned + vs.countP Visit.isNamed
  anonymousClasses := s.anonymousClasses + vs.countP Visit.isAnonymous
  methodsConsidered := s.methodsConsidered + (vs.filterMap Visit.asked?).length
  methodsSkipped := s.methodsSkipped + vs.countP Visit.isSkipped
  methodsUnresolved := s.methodsUnresolved + vs.countP (Visit.isUnresolved resolve)
  findings := s.findings + (vs.filterMap (Visit.reported? resolve)).length

theorem countsAfter_cons (resolve : Resolver) (s : Stats) (v : Visit) (vs : List Visit) :
    countsAfter resolve s (v :: vs) = countsAfter resolve (countsAfter resolve s [v]) vs := by
  have split : v :: vs = [v] ++ vs := rfl
  rw [split]
  simp only [countsAfter, List.countP_append, List.filterMap_append, List.length_append,
    Nat.add_assoc]

/-- One visit adds its own counts. -/
theorem visit_counts {resolve : Resolver} {keepGoing : Bool} {d d' : Detection} {v : Visit}
    (visited : visit resolve keepGoing d v = .ok d') :
    d'.stats = countsAfter resolve d.stats [v] := by
  cases v with
  | method className path id m =>
    simp only [visit, method] at visited
    split at visited
    next skipped =>
      cases visited
      have ineligible : m.isEligible = false := by simpa using skipped
      simp [countsAfter, count, Visit.isUnresolved, Visit.answer?, Visit.reported?, ineligible]
    next asks =>
      have eligible : m.isEligible = true := by simpa using asks
      split at visited
      next locations answer =>
        by_cases unused : isUnused locations = true
        · rw [if_pos unused] at visited
          cases visited
          simp [countsAfter, count, Visit.isUnresolved, Visit.answer?, Visit.reported?,
            eligible, answer, unused]
        · rw [if_neg unused] at visited
          cases visited
          simp [countsAfter, count, Visit.isUnresolved, Visit.answer?, Visit.reported?,
            eligible, answer, unused]
      next failure answer =>
        split at visited
        · cases visited
          simp [countsAfter, count, Visit.isUnresolved, Visit.answer?, Visit.reported?,
            eligible, answer]
        · cases visited
  | _ =>
    cases visited
    rfl

/-- A search counts all its visits. -/
theorem foldlM_visit_counts {resolve : Resolver} {keepGoing : Bool} (vs : List Visit)
    {d d' : Detection} (searched : vs.foldlM (visit resolve keepGoing) d = .ok d') :
    d'.stats = countsAfter resolve d.stats vs := by
  induction vs generalizing d with
  | nil =>
    cases searched
    rfl
  | cons v vs ih =>
    rw [List.foldlM_cons, bind_eq_ok] at searched
    obtain ⟨next, visited, rest⟩ := searched
    rw [ih rest, visit_counts visited, ← countsAfter_cons]

/-! ### The visits of a project, counted -/

section

variable (counts : Visit → Bool)

/-- How many of the visits of a class count, if positions make no difference. -/
def countClass (cls : ClassDecl) : Nat :=
  (classVisits "" 0 (cls, 0)).countP counts

variable (unplaced : ∀ className path id m,
  counts (.method className path id m) = counts (.method "" "" ⟨0, 0, 0⟩ m))

include unplaced in
theorem countP_classVisits (path : Path) (file : Nat) (decl : ClassDecl × Nat) :
    (classVisits path file decl).countP counts = countClass counts decl.1 := by
  unfold countClass classVisits
  cases decl.1.name with
  | none => rfl
  | some name =>
    have same (path : Path) (name : String) (file cls : Nat) :
        counts ∘ methodVisit path name file cls =
          fun entry => counts (.method "" "" ⟨0, 0, 0⟩ entry.1) := by
      funext entry
      exact unplaced name path ⟨file, cls, entry.2⟩ entry.1
    simp only [List.countP_cons, List.countP_map, same]

include unplaced in
/-- The visits that count, class by class; a file adds its own visit. -/
theorem countP_visits (project : Project) :
    (visits project).countP counts =
      (if counts .file then (project.files.filter (·.isTarget)).length else 0) +
        (project.searchedClasses.map (countClass counts)).sum := by
  have inFile (target : Nat × SourceFile) : (fileVisits target).countP counts =
      (if counts .file then 1 else 0) + (target.2.classes.map (countClass counts)).sum := by
    have classes : (target.2.classes.zipIdx.map fun decl =>
        (classVisits target.2.path target.1 decl).countP counts) =
          target.2.classes.map (countClass counts) := by
      simp only [countP_classVisits counts unplaced]
      conv_rhs => rw [← List.zipIdx_map_fst 0 target.2.classes, List.map_map]
      rfl
    rw [fileVisits, List.countP_cons, List.countP_flatMap, Nat.add_comm, ← classes]
    rfl
  have files : (visits project).countP counts = ((project.files.filter (·.isTarget)).map
      fun file => (if counts .file then 1 else 0) +
        (file.classes.map (countClass counts)).sum).sum := by
    rw [visits, List.countP_flatMap, ← targets_map_snd, List.map_map]
    simp only [Function.comp_def, inFile]
  rw [files, Project.searchedClasses]
  -- What is left is to add up the files.
  clear files
  induction project.files.filter (·.isTarget) with
  | nil => simp
  | cons file files ih =>
    rw [List.map_cons, List.sum_cons, ih, List.flatMap_cons, List.map_append, List.sum_append,
      List.length_cons]
    split
    · omega
    · omega
end
theorem sum_map_add (f g h : ClassDecl → Nat) (each : ∀ cls, f cls + g cls = h cls)
    (classes : List ClassDecl) :
    (classes.map f).sum + (classes.map g).sum = (classes.map h).sum := by
  induction classes with
  | nil => rfl
  | cons cls classes ih =>
    simp only [List.map_cons, List.sum_cons]
    rw [← ih, ← each cls]
    omega

theorem countClass_isFile (cls : ClassDecl) : countClass Visit.isFile cls = 0 := by
  unfold countClass classVisits
  cases cls.name with
  | none => rfl
  | some name => simp [List.countP_map, methodVisit, Function.comp_def]

theorem countClass_isNamed (cls : ClassDecl) :
    countClass Visit.isNamed cls = if cls.name.isSome then 1 else 0 := by
  unfold countClass classVisits
  cases cls.name with
  | none => rfl
  | some name => simp [List.countP_cons, List.countP_map, methodVisit, Function.comp_def]

theorem countClass_isAnonymous (cls : ClassDecl) :
    countClass Visit.isAnonymous cls = if cls.name.isSome then 0 else 1 := by
  unfold countClass classVisits
  cases cls.name with
  | none => rfl
  | some name => simp [List.countP_map, methodVisit, Function.comp_def]

/-- Each method of a named class is either asked about or skipped. -/
theorem countClass_methods (cls : ClassDecl) :
    countClass (fun v => v.asked?.isSome) cls + countClass Visit.isSkipped cls =
      if cls.name.isSome then cls.methods.length else 0 := by
  unfold countClass classVisits
  -- A class without a name is passed over with all its methods.
  cases cls.name with
  | none => rfl
  | some name =>
    have split := List.length_eq_countP_add_countP
      (fun entry : Method × Nat => entry.1.isEligible) (l := cls.methods.zipIdx)
    rw [List.length_zipIdx] at split
    have asks (m : Method) (id : MethodId) :
        (if m.isEligible then some id else none).isSome = m.isEligible := by
      cases m.isEligible <;> rfl
    simp [List.countP_map, methodVisit, Function.comp_def, split, asks]

theorem sum_ite_isSome (f : ClassDecl → Nat) (classes : List ClassDecl) :
    (classes.map fun cls => if cls.name.isSome then f cls else 0).sum =
      ((classes.filter (·.name.isSome)).map f).sum := by
  induction classes with
  | nil => rfl
  | cons cls classes ih =>
    rw [List.map_cons, List.sum_cons, ih, List.filter_cons]
    split
    · rw [List.map_cons, List.sum_cons]
    · rw [Nat.zero_add]

theorem countP_isFile (project : Project) :
    (visits project).countP Visit.isFile = (project.files.filter (·.isTarget)).length := by
  have none : countClass Visit.isFile = fun _ => 0 := funext countClass_isFile
  rw [countP_visits _ (fun _ _ _ _ => rfl), none]
  simp

theorem countP_isNamed (project : Project) :
    (visits project).countP Visit.isNamed = project.searchedClasses.countP (·.name.isSome) := by
  have one : countClass Visit.isNamed = fun cls => if cls.name.isSome then 1 else 0 :=
    funext countClass_isNamed
  rw [countP_visits _ (fun _ _ _ _ => rfl), one, sum_ite_isSome, List.countP_eq_length_filter]
  simp

theorem countP_classes (project : Project) :
    (visits project).countP Visit.isNamed + (visits project).countP Visit.isAnonymous =
      project.searchedClasses.length := by
  have each (cls : ClassDecl) :
      countClass Visit.isNamed cls + countClass Visit.isAnonymous cls = 1 := by
    rw [countClass_isNamed, countClass_isAnonymous]
    split <;> rfl
  rw [countP_visits _ (fun _ _ _ _ => rfl), countP_visits _ (fun _ _ _ _ => rfl)]
  have total := sum_map_add _ _ _ each project.searchedClasses
  simp only [List.map_const', List.sum_replicate_nat, Nat.mul_one] at total
  simpa using total

theorem countP_methods (project : Project) :
    ((visits project).filterMap Visit.asked?).length + (visits project).countP Visit.isSkipped =
      project.searchedMethods.length := by
  -- Whether a method is asked about depends on its form alone, not on where it stands.
  have unplaced : ∀ className path id m,
      (Visit.asked? (.method className path id m)).isSome =
        (Visit.asked? (.method "" "" ⟨0, 0, 0⟩ m)).isSome := by
    intro className path id m
    cases eligible : m.isEligible <;> simp [eligible]
  rw [List.length_filterMap_eq_countP, countP_visits _ unplaced,
    countP_visits _ (fun _ _ _ _ => rfl)]
  have total := sum_map_add _ _ _ countClass_methods project.searchedClasses
  rw [sum_ite_isSome] at total
  simpa [Project.searchedMethods, List.length_flatMap] using total

/-! ### The answers for what is asked -/

/-- The resolver answers for a position with declarations only. -/
def isIdle (resolve : Resolver) (id : MethodId) : Bool :=
  match resolve id with
  | .ok locations => isUnused locations
  | .error _ => false

/-- The resolver answers for a position with a use. -/
def isUsed (resolve : Resolver) (id : MethodId) : Bool :=
  match resolve id with
  | .ok locations => !isUnused locations
  | .error _ => false

/-- The resolver fails for a position. -/
def isFailing (resolve : Resolver) (id : MethodId) : Bool :=
  match resolve id with
  | .ok _ => false
  | .error _ => true

theorem isIdle_iff (resolve : Resolver) (id : MethodId) :
    isIdle resolve id = true ↔ resolve.OnlyDeclared id := by
  unfold isIdle Resolver.OnlyDeclared
  cases resolve id with
  | error failure => simp
  | ok locations => simp [isUnused_iff]

theorem isUsed_iff (resolve : Resolver) (id : MethodId) :
    isUsed resolve id = true ↔ resolve.InUse id := by
  unfold isUsed Resolver.InUse
  cases resolve id with
  | error failure => simp
  | ok locations => simp [isUnused]

theorem isFailing_iff (resolve : Resolver) (id : MethodId) :
    isFailing resolve id = true ↔ resolve.Fails id := by
  unfold isFailing Resolver.Fails
  cases resolve id with
  | error failure => simp
  | ok locations => simp

/-- Each position is idle, failing or used. -/
theorem length_eq_answers (resolve : Resolver) (ids : List MethodId) :
    ids.length = (ids.filter (isIdle resolve)).length + (ids.filter (isFailing resolve)).length +
      (ids.filter (isUsed resolve)).length := by
  induction ids with
  | nil => rfl
  | cons id ids ih =>
    cases answer : resolve id with
    | error failure =>
      simp [isIdle, isFailing, isUsed, answer, ih]
      omega
    | ok locations =>
      cases unused : isUnused locations with
      | true =>
        simp [isIdle, isFailing, isUsed, answer, unused, ih]
        omega
      | false =>
        simp [isIdle, isFailing, isUsed, answer, unused, ih]
        omega

theorem Visit.reported_eq (resolve : Resolver) (v : Visit) :
    (v.reported? resolve).map (·.1) = v.asked?.filter (isIdle resolve) := by
  cases v with
  | method className path id m =>
    unfold reported?
    rw [answer_eq]
    cases asked : (Visit.method className path id m).asked? with
    | none => rfl
    | some other =>
      obtain ⟨_, _, _, same, _⟩ := asked_eq_some.mp asked
      cases same
      cases answer : resolve id with
      | error failure => simp [Option.filter_some, isIdle, answer]
      | ok locations =>
        cases unused : isUnused locations <;> simp [Option.filter_some, isIdle, answer, unused]
  | _ => rfl

theorem Visit.unresolved_eq (resolve : Resolver) (v : Visit) :
    v.isUnresolved resolve = (v.asked?.filter (isFailing resolve)).isSome := by
  unfold isUnresolved
  rw [answer_eq]
  cases v.asked? with
  | none => rfl
  | some id =>
    cases answer : resolve id with
    | error failure => simp [Option.filter_some, isFailing, answer]
    | ok locations => simp [Option.filter_some, isFailing, answer]

/-- What the visits report, as positions. -/
theorem map_fst_reported (resolve : Resolver) (vs : List Visit) :
    (vs.filterMap (Visit.reported? resolve)).map (·.1) =
      (vs.filterMap Visit.asked?).filter (isIdle resolve) := by
  rw [List.map_filterMap, List.filter_filterMap]
  exact List.filterMap_congr fun v _ => v.reported_eq resolve

theorem countP_isUnresolved (resolve : Resolver) (vs : List Visit) :
    vs.countP (Visit.isUnresolved resolve) =
      ((vs.filterMap Visit.asked?).filter (isFailing resolve)).length := by
  rw [List.filter_filterMap, List.length_filterMap_eq_countP]
  exact List.countP_congr fun v _ => by rw [v.unresolved_eq resolve]

/-- What a visit reports tells of the method at its position. -/
theorem describes_of_reported {project : Project} {resolve : Resolver} {v : Visit}
    (member : v ∈ visits project) {report : MethodId × Finding}
    (reported : v.reported? resolve = some report) : project.Describes report.1 report.2 := by
  unfold Visit.reported? at reported
  split at reported
  next className path id m locations answer =>
    simp only [ite_eq_iff, Option.some.injEq, reduceCtorEq, and_false, or_false] at reported
    obtain ⟨_, rfl⟩ := reported
    obtain ⟨file, cls, at_, _, named, rfl⟩ := (method_mem_visits ..).mp member
    exact ⟨file, cls, m, className, at_, named, rfl⟩
  · cases reported

/-! ### The outcome -/

/-- A search that succeeds accounts for all that it met. -/
theorem accounts_of_run {project : Project} {resolve : Resolver} {keepGoing : Bool}
    {d : Detection} (searched : run project resolve keepGoing = .ok d) :
    Accounts project resolve d := by
  rw [run_eq_visits] at searched
  have counted := foldlM_visit_counts _ searched
  -- The search came through, so no visit of it was one that stops it.
  have calm : ∀ v ∈ visits project, v.fatal? resolve keepGoing = none := by
    rw [← List.findSome?_eq_none_iff, Option.eq_none_iff_forall_ne_some]
    intro failure fatal
    rw [← foldlM_visit_eq_error resolve keepGoing _ start, searched] at fatal
    cases fatal
  obtain ⟨d', searched', found, _⟩ :=
    foldlM_visit_eq_ok resolve keepGoing (visits project) start calm
  obtain rfl : d = d' := Except.ok.inj (searched.symm.trans searched')
  have reported := map_fst_reported resolve (visits project)
  have findings : d.findings.length =
      (((visits project).filterMap Visit.asked?).filter (isIdle resolve)).length := by
    rw [found, ← reported]
    simp [start]
  have asked : d.stats.methodsConsidered =
      ((visits project).filterMap Visit.asked?).length := by
    simp [counted, countsAfter, start]
  have failing : d.stats.methodsUnresolved =
      (((visits project).filterMap Visit.asked?).filter (isFailing resolve)).length := by
    simp [counted, countsAfter, start, countP_isUnresolved]
  have listed (test : MethodId → Bool) (property : MethodId → Prop)
      (same : ∀ id, test id = true ↔ property id) :
      MethodId.Lists (((visits project).filterMap Visit.asked?).filter test)
        (fun id => project.Considered id ∧ property id) := by
    simpa only [same] using lists_asked project test
  constructor
  case found =>
    refine ⟨_, listed _ _ (isIdle_iff resolve), ?_⟩
    rw [found, ← reported, List.forall₂_map_left_iff]
    simp only [start, List.nil_append, List.forall₂_map_right_iff, List.forall₂_same]
    intro report member
    obtain ⟨v, visited, reports⟩ := List.mem_filterMap.mp member
    exact describes_of_reported visited reports
  case findings =>
    rw [findings, ← reported]
    simp [counted, countsAfter, start]
  case files => simp [counted, countsAfter, start, countP_isFile]
  case named => simp [counted, countsAfter, start, countP_isNamed]
  case classes => simp [counted, countsAfter, start, countP_classes]
  case considered =>
    have all := lists_asked project fun _ => true
    simp only [List.filter_true, and_true] at all
    exact ⟨_, all, asked⟩
  case methods => simp [counted, countsAfter, start, countP_methods]
  case unresolved => exact ⟨_, listed _ _ (isFailing_iff resolve), failing⟩
  case used =>
    refine ⟨_, listed _ _ (isUsed_iff resolve), ?_⟩
    rw [asked, findings, failing]
    exact length_eq_answers resolve _

/-- With any resolver, a search fails exactly if the resolver fails for some method that is
considered and the failure may not be passed over; it then fails with the first such failure.
Otherwise it succeeds and accounts for all that it met. -/
theorem run_outcome (project : Project) (resolve : Resolver) (keepGoing : Bool) :
    ((∃ failure, run project resolve keepGoing = .error failure) ↔
      ∃ id failure, project.Considered id ∧ resolve.Stops keepGoing id failure) ∧
    (∀ failure, run project resolve keepGoing = .error failure ↔
      FirstStop project resolve keepGoing failure) ∧
    ((¬ ∃ id failure, project.Considered id ∧ resolve.Stops keepGoing id failure) →
      ∃ d, run project resolve keepGoing = .ok d ∧ Accounts project resolve d) := by
  have some_stop : (∃ failure, run project resolve keepGoing = .error failure) ↔
      ∃ id failure, project.Considered id ∧ resolve.Stops keepGoing id failure := by
    constructor
    · rintro ⟨failure, failed⟩
      obtain ⟨id, considered, stops, _⟩ := (run_eq_error_iff ..).mp failed
      exact ⟨id, failure, considered, stops⟩
    · rintro ⟨id, failure, considered, stops⟩
      obtain ⟨v, member, asks⟩ := (asked_iff_considered project id).mpr considered
      have fatal := Visit.fatal_eq_some.mpr ⟨id, asks, stops⟩
      -- Some visit ends the search, so there is a first one.
      have ends : ((visits project).findSome? (Visit.fatal? resolve keepGoing)).isSome := by
        rw [List.findSome?_isSome_iff]
        exact ⟨v, member, by rw [fatal]; rfl⟩
      obtain ⟨first, ended⟩ := Option.isSome_iff_exists.mp ends
      exact ⟨first, (run_eq_error_iff ..).mpr ((findSome_fatal_iff ..).mp ended)⟩
  refine ⟨some_stop, run_eq_error_iff project resolve keepGoing, fun calm => ?_⟩
  cases searched : run project resolve keepGoing with
  | error failure => exact absurd (some_stop.mp ⟨failure, searched⟩) calm
  | ok d => exact ⟨d, rfl, accounts_of_run searched⟩

end Detection

end UnusedMethods
