import UnusedMethods.Proofs.Detection

/-!
# Exactly the unused methods are found

A method is unused if it can be reported at all, no file names a member of its name, and no related
class declares a method of instances of its name. This is said here of a project alone, without
index, graph or search. A search by the index of the project never fails, and it finds these methods
in the order of their positions, each once.
-/

namespace UnusedMethods

namespace Project

/-- Nothing in a project uses a method of a class that is named and searched. -/
structure UnusedIn (project : Project) (file : SourceFile) (cls : ClassDecl) (m : Method)
    (className : String) : Prop where
  searched : file.isTarget = true
  named : cls.name = some className
  accessible : m.visibility ≠ .priv
  dynamic : m.isStatic = false
  ordinary : m.kind ≠ .constructor ∧ m.name ≠ "constructor"
  unnamed : ∀ other ∈ project.files, ∀ r ∈ other.refs, r.name ≠ m.name
  unmatched : ∀ other ∈ project.files, ∀ decl ∈ other.classes, ∀ kin, decl.name = some kin →
    Related project.files className kin → ∀ twin ∈ decl.methods, ¬ twin.Counterpart m.name

/-- A position that holds an unused method. -/
def Unused (project : Project) (id : MethodId) : Prop :=
  ∃ file cls m className,
    MethodAt project.files id file cls m ∧ project.UnusedIn file cls m className

/-- A finding that tells of the method at a position. -/
def Describes (project : Project) (id : MethodId) (finding : Finding) : Prop :=
  ∃ file cls m className, MethodAt project.files id file cls m ∧ cls.name = some className ∧
    finding = ⟨className, m.name, file.path, m.line⟩

/-- The places of a project name members by access, by destructuring or in types. -/
def PlainRefs (project : Project) : Prop :=
  ∀ file ∈ project.files, ∀ r ∈ file.refs,
    r.kind = .access ∨ r.kind = .destructure ∨ r.kind = .typeQuery

end Project

namespace Method

theorem isEligible_iff (m : Method) :
    m.isEligible = true ↔
      m.visibility ≠ .priv ∧ m.isStatic = false ∧ m.kind ≠ .constructor ∧
        m.name ≠ "constructor" := by
  simp [isEligible, isConstructor, and_assoc]

end Method

namespace Detection

open References

/-- The places of a name are all other than declarations, so there must be none. -/
theorem sitesOf_unused {project : Project} (plain : project.PlainRefs) (name : String) :
    isUnused (sitesOf project.files name) = true ↔
      ∀ other ∈ project.files, ∀ r ∈ other.refs, r.name ≠ name := by
  simp only [isUnused, List.all_eq_true, mem_sitesOf, beq_iff_eq]
  constructor
  · intro declared other member r mention named
    have kind := declared _ ⟨other, member, r, mention, named, rfl⟩
    rcases plain other member r mention with h | h | h
    all_goals simp [ofRef, h] at kind
  · rintro unnamed l ⟨other, member, r, mention, named, rfl⟩
    exact absurd named (unnamed other member r mention)

/-- Overriding methods are other than declarations, so there must be none. -/
theorem overrides_unused (project : Project) {cls : ClassDecl} {m : Method} {className : String}
    (named : cls.name = some className) (dynamic : m.isStatic = false) :
    isUnused (overrides (Index.ofProject project) cls m) = true ↔
      ∀ other ∈ project.files, ∀ decl ∈ other.classes, ∀ kin, decl.name = some kin →
        Related project.files className kin → ∀ twin ∈ decl.methods, ¬ twin.Counterpart m.name := by
  simp only [isUnused, List.all_eq_true, mem_overrides project named dynamic, beq_iff_eq]
  constructor
  · intro declared other member decl inside kin named' related twin listed counterpart
    obtain ⟨i, present⟩ := List.mem_iff_getElem?.mp member
    obtain ⟨j, position⟩ := List.mem_iff_getElem?.mp inside
    obtain ⟨k, place⟩ := List.mem_iff_getElem?.mp listed
    have kind := declared _ ⟨⟨i, j, k⟩, other, decl, twin, kin, ⟨present, position, place⟩, named',
      related, counterpart, rfl⟩
    simp [ofMethod] at kind
  · rintro unmatched l ⟨id, other, decl, twin, kin, at_, named', related, counterpart, rfl⟩
    exact absurd counterpart (unmatched other (List.mem_of_getElem? at_.present) decl
      (List.mem_of_getElem? at_.declared) kin named' related twin (List.mem_of_getElem? at_.listed))

/-- Whether the index shows no use of a method of a class. -/
def isSilent (project : Project) (cls : ClassDecl) (m : Method) : Bool :=
  isUnused (sitesOf project.files m.name ++ overrides (Index.ofProject project) cls m)

theorem isSilent_split (project : Project) (cls : ClassDecl) (m : Method) :
    isSilent project cls m = true ↔
      isUnused (sitesOf project.files m.name) = true ∧
        isUnused (overrides (Index.ofProject project) cls m) = true := by
  simp [isSilent, isUnused]

/-- The index shows a method of a searched class as unused exactly if it is. -/
theorem isSilent_iff_unusedIn {project : Project} (plain : project.PlainRefs) {file : SourceFile}
    {cls : ClassDecl} {m : Method} {className : String} (searched : file.isTarget = true)
    (named : cls.name = some className) (eligible : m.isEligible = true) :
    isSilent project cls m = true ↔ project.UnusedIn file cls m className := by
  obtain ⟨accessible, dynamic, ordinary⟩ := m.isEligible_iff.mp eligible
  rw [isSilent_split, sitesOf_unused plain, overrides_unused project named dynamic]
  constructor
  · rintro ⟨unnamed, unmatched⟩
    exact ⟨searched, named, accessible, dynamic, ordinary, unnamed, unmatched⟩
  · intro unused
    exact ⟨unused.unnamed, unused.unmatched⟩

/-- The index answers for every method that a search visits. -/
theorem answer_of_mem_visits {project : Project} {v : Visit} (member : v ∈ visits project) :
    ∀ failure, v.answer? (find (Index.ofProject project)) ≠ some (.error failure) := by
  intro failure answer
  cases v with
  | method className path id m =>
    obtain ⟨file, cls, at_, _⟩ := (method_mem_visits project className path id m).mp member
    simp [Visit.answer?, find_ofProject at_] at answer
  | _ => simp [Visit.answer?] at answer

/-- The finding that tells of a method of a class in a file. -/
def findingOf (path : Path) (className : String) (m : Method) : Finding :=
  ⟨className, m.name, path, m.line⟩

/-- What the visit of a method of a project reports. -/
theorem reported_method {project : Project} {id : MethodId} {file : SourceFile} {cls : ClassDecl}
    {m : Method} (at_ : MethodAt project.files id file cls m) (className : String) (path : Path) :
    (Visit.method className path id m).reported? (find (Index.ofProject project)) =
      if m.isEligible && isSilent project cls m then some (id, findingOf path className m)
      else none := by
  -- The declaration itself, which leads the answer, is no use.
  have declaration : isUnused (ofMethod file.path .declaration m ::
        (sitesOf project.files m.name ++ overrides (Index.ofProject project) cls m)) =
      isSilent project cls m := by
    simp [isSilent, isUnused, ofMethod]
  by_cases eligible : m.isEligible = true
  · simp [Visit.reported?, Visit.answer?, eligible, find_ofProject at_, declaration, findingOf]
  · simp [Visit.reported?, Visit.answer?, eligible]

/-- What the visits of a search report: the silent methods that can be reported. -/
theorem reported_iff_isSilent (project : Project) (id : MethodId) (finding : Finding) :
    (∃ v ∈ visits project, v.reported? (find (Index.ofProject project)) = some (id, finding)) ↔
      ∃ file cls m className, MethodAt project.files id file cls m ∧ file.isTarget = true ∧
        cls.name = some className ∧ m.isEligible = true ∧ isSilent project cls m = true ∧
        finding = findingOf file.path className m := by
  constructor
  · rintro ⟨v, member, reported⟩
    cases v with
    | method className path id' m =>
      obtain ⟨file, cls, at_, searched, named, rfl⟩ :=
        (method_mem_visits project className _ id' m).mp member
      rw [reported_method at_] at reported
      simp only [Bool.and_eq_true, ite_eq_iff, Option.some.injEq, Prod.mk.injEq, reduceCtorEq,
        and_false, or_false] at reported
      obtain ⟨⟨eligible, silent⟩, rfl, rfl⟩ := reported
      exact ⟨file, cls, m, className, at_, searched, named, eligible, silent, rfl⟩
    | _ => cases reported
  · rintro ⟨file, cls, m, className, at_, searched, named, eligible, silent, rfl⟩
    have member := (method_mem_visits project className file.path id m).mpr
      ⟨file, cls, at_, searched, named, rfl⟩
    refine ⟨_, member, ?_⟩
    simp [reported_method at_, eligible, silent]

/-- What a visit reports is an unused method. -/
theorem reported_iff {project : Project} (plain : project.PlainRefs) (id : MethodId)
    (finding : Finding) :
    (∃ v ∈ visits project, v.reported? (find (Index.ofProject project)) = some (id, finding)) ↔
      ∃ file cls m className, MethodAt project.files id file cls m ∧
        project.UnusedIn file cls m className ∧
        finding = ⟨className, m.name, file.path, m.line⟩ := by
  rw [reported_iff_isSilent]
  constructor
  · rintro ⟨file, cls, m, className, at_, searched, named, eligible, silent, rfl⟩
    exact ⟨file, cls, m, className, at_,
      (isSilent_iff_unusedIn plain searched named eligible).mp silent, rfl⟩
  · rintro ⟨file, cls, m, className, at_, unused, rfl⟩
    have eligible : m.isEligible = true :=
      m.isEligible_iff.mpr ⟨unused.accessible, unused.dynamic, unused.ordinary⟩
    exact ⟨file, cls, m, className, at_, unused.searched, unused.named, eligible,
      (isSilent_iff_unusedIn plain unused.searched unused.named eligible).mpr unused, rfl⟩

/-- What a search by the index of a project reports, with the positions. -/
def reports (project : Project) : List (MethodId × Finding) :=
  (visits project).filterMap (Visit.reported? (find (Index.ofProject project)))

theorem mem_reports {project : Project} (plain : project.PlainRefs) (id : MethodId)
    (finding : Finding) :
    (id, finding) ∈ reports project ↔ project.Unused id ∧ project.Describes id finding := by
  rw [reports, List.mem_filterMap, reported_iff plain]
  constructor
  · rintro ⟨file, cls, m, className, at_, unused, rfl⟩
    exact ⟨⟨file, cls, m, className, at_, unused⟩,
      ⟨file, cls, m, className, at_, unused.named, rfl⟩⟩
  · rintro ⟨⟨file, cls, m, className, at_, unused⟩, file', cls', m', className', at', named', rfl⟩
    obtain ⟨rfl, rfl, rfl⟩ := at_.unique at'
    obtain rfl : className = className' := Option.some.inj (unused.named.symm.trans named')
    exact ⟨file, cls, m, className, at_, unused, rfl⟩

theorem id_mem_reports {project : Project} (plain : project.PlainRefs) (id : MethodId) :
    id ∈ (reports project).map (·.1) ↔ project.Unused id := by
  simp only [List.mem_map, Prod.exists, exists_and_right, exists_eq_right, mem_reports plain]
  constructor
  · rintro ⟨_, unused, _⟩
    exact unused
  · intro unused
    obtain ⟨file, cls, m, className, at_, facts⟩ := unused
    exact ⟨_, ⟨file, cls, m, className, at_, facts⟩, file, cls, m, className, at_, facts.named, rfl⟩

theorem id_of_reported {resolve : Resolver} {v : Visit} {id : MethodId} {finding : Finding}
    (reported : v.reported? resolve = some (id, finding)) : v.id? = some id := by
  unfold Visit.reported? at reported
  split at reported
  · simp only [ite_eq_iff, Option.some.injEq, Prod.mk.injEq, reduceCtorEq, and_false,
      or_false] at reported
    rw [Visit.id?, reported.2.1]
  · simp at reported

/-- Reports come in the order of their positions. -/
theorem reports_pairwise (project : Project) :
    ((reports project).map (·.1)).Pairwise MethodId.Before := by
  rw [List.pairwise_map, reports, List.pairwise_filterMap]
  refine (visits_pairwise project).imp ?_
  rintro v w before ⟨a, _⟩ atV ⟨b, _⟩ atW
  exact before a (id_of_reported atV) b (id_of_reported atW)

/-- A search by the index of a project never fails, and what it finds is what it reports. -/
theorem run_eq_ok (project : Project) (keepGoing : Bool) :
    ∃ d, run project (find (Index.ofProject project)) keepGoing = .ok d ∧
      d.stats.methodsUnresolved = 0 ∧ d.findings = (reports project).map (·.2) := by
  -- The index answers for each method of its own project, so neither kind of failure occurs.
  have calm : ∀ v ∈ visits project,
      v.fatal? (find (Index.ofProject project)) keepGoing = none := by
    intro v member
    unfold Visit.fatal?
    split
    next failure answer => exact absurd answer (answer_of_mem_visits member failure)
    · rfl
  have resolved : (visits project).countP
      (Visit.isUnresolved (find (Index.ofProject project))) = 0 := by
    refine List.countP_eq_zero.mpr fun v member unresolved => ?_
    unfold Visit.isUnresolved at unresolved
    split at unresolved
    next failure answer => exact absurd answer (answer_of_mem_visits member failure)
    · simp at unresolved
  obtain ⟨d, result, found, missed⟩ :=
    foldlM_visit_eq_ok (find (Index.ofProject project)) keepGoing (visits project) start calm
  refine ⟨d, (run_eq_visits ..).trans result, ?_, found⟩
  rw [missed, resolved]
  rfl

/-- A search by the index of a project succeeds, leaves no method unresolved, and finds exactly the
unused methods, in the order of their positions and each once. -/
theorem run_finds_exactly_unused (project : Project) (keepGoing : Bool)
    (plain : project.PlainRefs) :
    ∃ d ids, run project (find (Index.ofProject project)) keepGoing = .ok d ∧
      d.stats.methodsUnresolved = 0 ∧ ids.Pairwise MethodId.Before ∧
      (∀ id, id ∈ ids ↔ project.Unused id) ∧ List.Forall₂ project.Describes ids d.findings := by
  obtain ⟨d, result, resolved, found⟩ := run_eq_ok project keepGoing
  refine ⟨d, (reports project).map (·.1), result, resolved, reports_pairwise project,
    id_mem_reports plain, ?_⟩
  rw [found, List.forall₂_map_left_iff, List.forall₂_map_right_iff, List.forall₂_same]
  rintro ⟨id, finding⟩ member
  exact ((mem_reports plain id finding).mp member).2

/-- Two classes that extend each other, one of them under another name. The second file is not
searched. -/
def crossed : Project :=
  ⟨[{ path := "/p/src/a.ts"
      classes := [⟨some "A", some "Base", 2,
        [⟨"run", .pub, false, .method, 3, 60⟩, ⟨"stop", .prot, false, .method, 4, 70⟩]⟩]
      refs := []
      imports := [⟨"Base", "B", "./b"⟩]
      requests := ["./b"]
      exported := none
      isTarget := true },
    { path := "/p/src/b.ts"
      classes := [⟨some "B", some "A", 2, [⟨"run", .pub, false, .method, 3, 55⟩]⟩]
      refs := [⟨"start", .access, 5, 80⟩, ⟨"size", .typeQuery, 6, 95⟩]
      imports := [⟨"A", "A", "./a"⟩]
      requests := ["./a"]
      exported := none
      isTarget := false }]⟩

theorem run_finds_exactly_unused_crossed :
    crossed.PlainRefs ∧
      ∃ d ids, run crossed (find (Index.ofProject crossed)) true = .ok d ∧
        d.stats.methodsUnresolved = 0 ∧ ids.Pairwise MethodId.Before ∧
        (∀ id, id ∈ ids ↔ crossed.Unused id) ∧ List.Forall₂ crossed.Describes ids d.findings := by
  have plain : crossed.PlainRefs := by
    unfold Project.PlainRefs crossed
    decide
  exact ⟨plain, run_finds_exactly_unused crossed true plain⟩

end Detection

end UnusedMethods
