import Mathlib.Data.List.Basic
import UnusedMethods.Detection
import UnusedMethods.Proofs.References

/-!
# A search as a list of visits

The search goes through files, classes and methods in three nested loops. Laid out flat it is one
loop over the list of what it visits, in the order of positions. What a search reports is then a
selection from that list, whatever the resolver answers.
-/

namespace UnusedMethods

/-- Positions in the order of files, classes and methods. -/
def MethodId.Before (a b : MethodId) : Prop :=
  a.file < b.file ∨ a.file = b.file ∧ (a.cls < b.cls ∨ a.cls = b.cls ∧ a.method < b.method)

namespace Detection

/-- What a search comes to on its way. -/
inductive Visit where
  | file
  | anonymous
  | named
  | method (className : String) (path : Path) (id : MethodId) (m : Method)

/-- What a search does at a visit. -/
def visit (resolve : Resolver) (keepGoing : Bool) (d : Detection) : Visit → Except Failure Detection
  | .file => .ok (d.count fun s => { s with filesScanned := s.filesScanned + 1 })
  | .anonymous => .ok (d.count fun s => { s with anonymousClasses := s.anonymousClasses + 1 })
  | .named => .ok (d.count fun s => { s with classesScanned := s.classesScanned + 1 })
  | .method className path id m => method resolve keepGoing path className id d m

def methodVisit (path : Path) (className : String) (file cls : Nat) (entry : Method × Nat) :
    Visit :=
  .method className path ⟨file, cls, entry.2⟩ entry.1

def classVisits (path : Path) (file : Nat) (decl : ClassDecl × Nat) : List Visit :=
  match decl.1.name with
  | none => [.anonymous]
  | some name => .named :: decl.1.methods.zipIdx.map (methodVisit path name file decl.2)

def fileVisits (target : Nat × SourceFile) : List Visit :=
  .file :: target.2.classes.zipIdx.flatMap (classVisits target.2.path target.1)

/-- All visits of a search, in order. -/
def visits (project : Project) : List Visit :=
  project.targets.flatMap fileVisits

/-! ### Three loops are one -/

theorem foldlM_flatMap {α β γ ε : Type} (parts : α → List γ) (step : β → γ → Except ε β)
    (xs : List α) (start : β) :
    (xs.flatMap parts).foldlM step start =
      xs.foldlM (fun acc x => (parts x).foldlM step acc) start := by
  induction xs generalizing start with
  | nil => rfl
  | cons x xs ih => simp only [List.flatMap_cons, List.foldlM_append, List.foldlM_cons, ih]

theorem cls_eq_visits (resolve : Resolver) (keepGoing : Bool) (path : Path) (file : Nat)
    (d : Detection) (decl : ClassDecl × Nat) :
    cls resolve keepGoing path file d decl =
      (classVisits path file decl).foldlM (visit resolve keepGoing) d := by
  cases named : decl.1.name with
  | none =>
    simp only [cls, classVisits, named]
    rfl
  | some name =>
    simp only [cls, classVisits, named, List.foldlM_cons, List.foldlM_map]
    rfl

theorem file_eq_visits (resolve : Resolver) (keepGoing : Bool) (d : Detection)
    (target : Nat × SourceFile) :
    file resolve keepGoing d target =
      (fileVisits target).foldlM (visit resolve keepGoing) d := by
  have classes : cls resolve keepGoing target.2.path target.1 = fun d decl =>
      (classVisits target.2.path target.1 decl).foldlM (visit resolve keepGoing) d := by
    funext d decl
    exact cls_eq_visits ..
  simp only [fileVisits, List.foldlM_cons, foldlM_flatMap, ← classes]
  rfl

theorem run_eq_visits (project : Project) (resolve : Resolver) (keepGoing : Bool) :
    run project resolve keepGoing = (visits project).foldlM (visit resolve keepGoing) start := by
  have files : file resolve keepGoing = fun d target =>
      (fileVisits target).foldlM (visit resolve keepGoing) d := by
    funext d target
    exact file_eq_visits ..
  rw [visits, foldlM_flatMap, ← files]
  rfl

/-! ### Which methods are visited, and in which order -/

theorem mem_targets (project : Project) (i : Nat) (file : SourceFile) :
    (i, file) ∈ project.targets ↔ project.files[i]? = some file ∧ file.isTarget = true := by
  simp only [Project.targets, List.mem_map, List.mem_filter, List.mem_zipIdx_iff_getElem?,
    Prod.exists, Prod.mk.injEq]
  constructor
  · rintro ⟨_, _, ⟨present, target⟩, rfl, rfl⟩
    exact ⟨present, target⟩
  · rintro ⟨present, target⟩
    exact ⟨file, i, ⟨present, target⟩, rfl, rfl⟩

theorem targets_map_snd (project : Project) :
    project.targets.map (·.2) = project.files.filter (·.isTarget) := by
  conv_rhs => rw [← List.zipIdx_map_fst 0 project.files, List.filter_map]
  rw [Project.targets, List.map_map]
  rfl

/-- The methods visited are those of the named classes of the files that are searched. -/
theorem method_mem_visits (project : Project) (className : String) (path : Path) (id : MethodId)
    (m : Method) :
    .method className path id m ∈ visits project ↔
      ∃ file cls, MethodAt project.files id file cls m ∧ file.isTarget = true ∧
        cls.name = some className ∧ path = file.path := by
  simp only [visits, fileVisits, List.mem_flatMap, Prod.exists, mem_targets, List.mem_cons,
    reduceCtorEq, false_or, List.mem_zipIdx_iff_getElem?]
  constructor
  · rintro ⟨i, file, ⟨present, target⟩, cls, j, declared, member⟩
    unfold classVisits at member
    split at member
    · simp at member
    next name named =>
      simp only [List.mem_cons, reduceCtorEq, false_or, List.mem_map, Prod.exists,
        List.mem_zipIdx_iff_getElem?] at member
      obtain ⟨m', k, listed, same⟩ := member
      cases same
      exact ⟨file, cls, ⟨present, declared, listed⟩, target, named, rfl⟩
  · rintro ⟨file, cls, at_, target, named, rfl⟩
    refine ⟨id.file, file, ⟨at_.present, target⟩, cls, id.cls, at_.declared, ?_⟩
    simp only [classVisits, named, List.mem_cons, reduceCtorEq, false_or, List.mem_map, Prod.exists,
      List.mem_zipIdx_iff_getElem?]
    exact ⟨m, id.method, at_.listed, rfl⟩

/-- The position that a visit is for, if it is for a method. -/
def Visit.id? : Visit → Option MethodId
  | .method _ _ id _ => some id
  | _ => none

/-- Of two visits the first is for the earlier position. -/
def Visit.Before (v w : Visit) : Prop :=
  ∀ a ∈ v.id?, ∀ b ∈ w.id?, a.Before b

theorem targets_pairwise (project : Project) : project.targets.Pairwise fun a b => a.1 < b.1 := by
  rw [Project.targets, List.pairwise_map]
  exact (zipIdx_pairwise project.files).sublist List.filter_sublist

theorem id_of_mem_classVisits {path : Path} {file : Nat} {decl : ClassDecl × Nat} {v : Visit}
    {id : MethodId} (member : v ∈ classVisits path file decl) (position : v.id? = some id) :
    id.file = file ∧ id.cls = decl.2 := by
  unfold classVisits at member
  split at member
  · simp only [List.mem_singleton] at member
    simp [member, Visit.id?] at position
  · simp only [List.mem_cons, List.mem_map] at member
    rcases member with rfl | ⟨entry, _, rfl⟩
    · simp [Visit.id?] at position
    · simp only [methodVisit, Visit.id?, Option.some.injEq] at position
      subst position
      exact ⟨rfl, rfl⟩

theorem id_of_mem_fileVisits {target : Nat × SourceFile} {v : Visit} {id : MethodId}
    (member : v ∈ fileVisits target) (position : v.id? = some id) : id.file = target.1 := by
  simp only [fileVisits, List.mem_cons, List.mem_flatMap] at member
  rcases member with rfl | ⟨decl, _, inside⟩
  · simp [Visit.id?] at position
  · exact (id_of_mem_classVisits inside position).1

theorem classVisits_pairwise (path : Path) (file : Nat) (decl : ClassDecl × Nat) :
    (classVisits path file decl).Pairwise Visit.Before := by
  unfold classVisits
  split
  · exact List.pairwise_singleton _ _
  · refine List.pairwise_cons.mpr ⟨by simp [Visit.Before, Visit.id?], ?_⟩
    rw [List.pairwise_map]
    refine (zipIdx_pairwise decl.1.methods).imp fun less => ?_
    simpa [Visit.Before, Visit.id?, methodVisit, MethodId.Before] using less

theorem fileVisits_pairwise (target : Nat × SourceFile) :
    (fileVisits target).Pairwise Visit.Before := by
  refine List.pairwise_cons.mpr ⟨by simp [Visit.Before, Visit.id?], ?_⟩
  refine List.pairwise_flatMap.mpr ⟨fun decl _ => classVisits_pairwise _ _ decl, ?_⟩
  -- Between two classes of the file the positions of the classes decide.
  refine (zipIdx_pairwise target.2.classes).imp fun less v first w second a atV b atW => ?_
  obtain ⟨fileA, clsA⟩ := id_of_mem_classVisits first atV
  obtain ⟨fileB, clsB⟩ := id_of_mem_classVisits second atW
  exact Or.inr ⟨by rw [fileA, fileB], Or.inl (by rw [clsA, clsB]; exact less)⟩

/-- A search visits methods in increasing order of position. -/
theorem visits_pairwise (project : Project) : (visits project).Pairwise Visit.Before := by
  refine List.pairwise_flatMap.mpr ⟨fun target _ => fileVisits_pairwise target, ?_⟩
  refine (targets_pairwise project).imp fun less v first w second a atV b atW => ?_
  have fileA := id_of_mem_fileVisits first atV
  have fileB := id_of_mem_fileVisits second atW
  exact Or.inl (by rw [fileA, fileB]; exact less)

/-! ### What a search makes of its visits -/

/-- What a visit asks of the resolver; only eligible methods are asked for. -/
def Visit.answer? (resolve : Resolver) : Visit → Option (Except Failure (List Location))
  | .method _ _ id m => if m.isEligible then some (resolve id) else none
  | _ => none

/-- The failure with which a visit ends the search. -/
def Visit.fatal? (resolve : Resolver) (keepGoing : Bool) (v : Visit) : Option Failure :=
  match v.answer? resolve with
  | some (.error failure) => if keepGoing && failure.isRecoverable then none else some failure
  | _ => none

/-- A visit that is passed over because its method cannot be resolved. -/
def Visit.isUnresolved (resolve : Resolver) (v : Visit) : Bool :=
  match v.answer? resolve with
  | some (.error _) => true
  | _ => false

/-- What a visit reports, and for which position. -/
def Visit.reported? (resolve : Resolver) (v : Visit) : Option (MethodId × Finding) :=
  match v, v.answer? resolve with
  | .method className path id m, some (.ok locations) =>
    if isUnused locations then some (id, ⟨className, m.name, path, m.line⟩) else none
  | _, _ => none

/-- One visit that does not end the search. -/
theorem visit_eq_ok (resolve : Resolver) (keepGoing : Bool) (d : Detection) (v : Visit)
    (calm : v.fatal? resolve keepGoing = none) :
    ∃ d', visit resolve keepGoing d v = .ok d' ∧
      d'.findings = d.findings ++ (v.reported? resolve).toList.map (·.2) ∧
      d'.stats.methodsUnresolved =
        d.stats.methodsUnresolved + if v.isUnresolved resolve then 1 else 0 := by
  cases v with
  | file => exact ⟨_, rfl, by simp [count, Visit.reported?], rfl⟩
  | anonymous => exact ⟨_, rfl, by simp [count, Visit.reported?], rfl⟩
  | named => exact ⟨_, rfl, by simp [count, Visit.reported?], rfl⟩
  | method className path id m =>
    by_cases eligible : m.isEligible = true
    · cases answer : resolve id with
      | ok locations =>
        by_cases unused : isUnused locations = true
        · refine ⟨_, by simp only [visit, method, eligible, answer, unused]; rfl, ?_, ?_⟩
          · simp [count, Visit.reported?, Visit.answer?, eligible, answer, unused]
          · simp [count, Visit.isUnresolved, Visit.answer?, eligible, answer]
        · refine ⟨_, by simp only [visit, method, eligible, answer, unused]; rfl, ?_, ?_⟩
          · simp [count, Visit.reported?, Visit.answer?, eligible, answer, unused]
          · simp [count, Visit.isUnresolved, Visit.answer?, eligible, answer]
      | error failure =>
        -- A failure that does not end the search is one that it may pass over.
        have passed : (keepGoing && failure.isRecoverable) = true := by
          by_contra stops
          simp [Visit.fatal?, Visit.answer?, eligible, answer, stops] at calm
        refine ⟨_, by simp only [visit, method, eligible, answer, passed]; rfl, ?_, ?_⟩
        · simp [count, Visit.reported?, Visit.answer?, eligible, answer]
        · simp [count, Visit.isUnresolved, Visit.answer?, eligible, answer]
    · refine ⟨_, by simp only [visit, method, eligible]; rfl, ?_, ?_⟩
      · simp [count, Visit.reported?, Visit.answer?, eligible]
      · simp [count, Visit.isUnresolved, Visit.answer?, eligible]

/-- A search that no visit ends reports what its visits report, one after the other. -/
theorem foldlM_visit_eq_ok (resolve : Resolver) (keepGoing : Bool) (vs : List Visit) (d : Detection)
    (calm : ∀ v ∈ vs, v.fatal? resolve keepGoing = none) :
    ∃ d', vs.foldlM (visit resolve keepGoing) d = .ok d' ∧
      d'.findings = d.findings ++ (vs.filterMap (Visit.reported? resolve)).map (·.2) ∧
      d'.stats.methodsUnresolved =
        d.stats.methodsUnresolved + vs.countP (Visit.isUnresolved resolve) := by
  induction vs generalizing d with
  | nil => exact ⟨d, rfl, by simp, rfl⟩
  | cons v vs ih =>
    obtain ⟨d₁, first, found₁, missed₁⟩ := visit_eq_ok resolve keepGoing d v (calm v (by simp))
    obtain ⟨d₂, rest, found₂, missed₂⟩ := ih d₁ fun w member => calm w (by simp [member])
    refine ⟨d₂, ?_, ?_, ?_⟩
    · rw [List.foldlM_cons, first]
      exact rest
    · rw [found₂, found₁, List.filterMap_cons]
      cases v.reported? resolve with
      | none => simp
      | some report => simp
    · rw [missed₂, missed₁, List.countP_cons]
      omega

end Detection

end UnusedMethods
