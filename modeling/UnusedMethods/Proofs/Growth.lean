import UnusedMethods.Proofs.Usage

/-!
# More code, more usage

A project grows by files at its end and by places in its files that name members. Either way its
methods keep their positions, and what used a method before still does. So a search of the grown
project reports no method of the smaller one that was not reported there.
-/

namespace UnusedMethods

open Relation (ReflTransGen)

namespace Project

/-- One addition to a project: a file after all others, or places that name members among those of a
file. -/
inductive Adds (project : Project) : Project → Prop
  | file (new : SourceFile) : Adds project ⟨project.files ++ [new]⟩
  | refs {before after : List SourceFile} {file : SourceFile} {refs : List MemberRef}
      (split : project.files = before ++ file :: after) (kept : file.refs.Sublist refs) :
      Adds project ⟨before ++ { file with refs := refs } :: after⟩

/-- A file that is like another except that it may name more members. -/
structure NamesMore (file more : SourceFile) : Prop where
  path : more.path = file.path
  classes : more.classes = file.classes
  imports : more.imports = file.imports
  isTarget : more.isTarget = file.isTarget
  refs : ∀ r ∈ file.refs, r ∈ more.refs

/-- A project whose first files are like those of another, except that they may name more
members. -/
def GrowsTo (project grown : Project) : Prop :=
  ∀ (i : Nat) (file : SourceFile), project.files[i]? = some file →
    ∃ more, grown.files[i]? = some more ∧ NamesMore file more

theorem NamesMore.refl (file : SourceFile) : NamesMore file file :=
  ⟨rfl, rfl, rfl, rfl, fun _ member => member⟩

theorem NamesMore.trans {a b c : SourceFile} (first : NamesMore a b) (second : NamesMore b c) :
    NamesMore a c where
  path := second.path.trans first.path
  classes := second.classes.trans first.classes
  imports := second.imports.trans first.imports
  isTarget := second.isTarget.trans first.isTarget
  refs r member := second.refs r (first.refs r member)

/-- One addition keeps every file at its position. -/
theorem Adds.growsTo {project grown : Project} (adds : Adds project grown) :
    project.GrowsTo grown := by
  intro i file present
  cases adds with
  | file new =>
    have within := (List.getElem?_eq_some_iff.mp present).1
    exact ⟨file, by rw [List.getElem?_append_left within, present], .refl file⟩
  | @refs before after changed refs split kept =>
    rw [split] at present
    by_cases earlier : i < before.length
    · rw [List.getElem?_append_left earlier] at present
      exact ⟨file, by rw [List.getElem?_append_left earlier, present], .refl file⟩
    · rw [List.getElem?_append_right (Nat.le_of_not_lt earlier)] at present
      rw [List.getElem?_append_right (Nat.le_of_not_lt earlier)]
      -- At its own position stands the changed file, after it those that follow.
      cases later : i - before.length with
      | zero =>
        rw [later, List.getElem?_cons_zero, Option.some.injEq] at present
        subst present
        exact ⟨_, rfl, rfl, rfl, rfl, rfl, fun r member => kept.subset member⟩
      | succ j =>
        rw [later, List.getElem?_cons_succ] at present
        exact ⟨file, by rw [List.getElem?_cons_succ, present], .refl file⟩

/-- Any number of additions keep every file at its position. -/
theorem growsTo_of_adds {project grown : Project} (growth : ReflTransGen Adds project grown) :
    project.GrowsTo grown := by
  induction growth with
  | refl => exact fun _ file present => ⟨file, present, .refl file⟩
  | tail _ adds ih =>
    intro i file present
    obtain ⟨more, present', names⟩ := ih i file present
    obtain ⟨most, present'', names'⟩ := adds.growsTo i more present'
    exact ⟨most, present'', names.trans names'⟩

theorem GrowsTo.usageWithin {project grown : Project} (grows : project.GrowsTo grown) :
    UsageWithin project.files grown.files where
  refs file member r mention := by
    obtain ⟨i, present⟩ := List.mem_iff_getElem?.mp member
    obtain ⟨more, present', names⟩ := grows i file present
    exact ⟨more, List.mem_of_getElem? present', names.refs r mention⟩
  classes file member decl declared := by
    obtain ⟨i, present⟩ := List.mem_iff_getElem?.mp member
    obtain ⟨more, present', names⟩ := grows i file present
    exact ⟨more, List.mem_of_getElem? present', names.classes ▸ declared, names.imports⟩

end Project

namespace Detection

open References Project

/-- What is reported of a method of a project once it has grown was reported of it before. -/
theorem mem_reports_of_growsTo {project grown : Project} (grows : project.GrowsTo grown)
    {id : MethodId} (old : id.file < project.files.length) {finding : Finding}
    (reported : (id, finding) ∈ reports grown) : (id, finding) ∈ reports project := by
  rw [reports, List.mem_filterMap, reported_iff_isSilent] at reported ⊢
  obtain ⟨more, cls, m, className, at_, searched, named, eligible, silent, rfl⟩ := reported
  have present := List.getElem?_eq_getElem old
  obtain ⟨more', present', names⟩ := grows id.file _ present
  obtain rfl : more = more' := Option.some.inj (at_.present.symm.trans present')
  refine ⟨_, cls, m, className, ⟨present, names.classes ▸ at_.declared, at_.listed⟩,
    names.isTarget ▸ searched, named, eligible, ?_, by rw [names.path]⟩
  rw [isSilent_iff _ named eligible] at silent ⊢
  exact silent.of_within grows.usageWithin

/-- What a search reports for a position tells of the method there. -/
theorem describes_of_mem_reports {project : Project} {id : MethodId} {finding : Finding}
    (reported : (id, finding) ∈ reports project) : project.Describes id finding := by
  rw [reports, List.mem_filterMap, reported_iff_isSilent] at reported
  obtain ⟨file, cls, m, className, at_, _, named, _, _, rfl⟩ := reported
  exact ⟨file, cls, m, className, at_, named, rfl⟩

/-- Additions to a project never make a method of it unused: what a search reports, after the
additions, for a position of the project, it reported for that position before them. -/
theorem reports_of_adds {project grown : Project} (growth : ReflTransGen Adds project grown)
    (keepGoing : Bool) :
    ∃ d d', run project (find (Index.ofProject project)) keepGoing = .ok d ∧
      run grown (find (Index.ofProject grown)) keepGoing = .ok d' ∧
      d.findings = (reports project).map (·.2) ∧ d'.findings = (reports grown).map (·.2) ∧
      ∀ id finding, id.file < project.files.length → (id, finding) ∈ reports grown →
        project.Describes id finding ∧ (id, finding) ∈ reports project := by
  obtain ⟨d, result, _, found⟩ := run_eq_ok project keepGoing
  obtain ⟨d', result', _, found'⟩ := run_eq_ok grown keepGoing
  refine ⟨d, d', result, result', found, found', fun id finding old reported => ?_⟩
  have before := mem_reports_of_growsTo (growsTo_of_adds growth) old reported
  exact ⟨describes_of_mem_reports before, before⟩

/-- A file whose class extends one of the classes that extend each other. -/
def crossedHeir : SourceFile where
  path := "/p/src/c.ts"
  classes := [⟨some "C", some "Base", 2, [⟨"stop", .pub, false, .method, 3, 50⟩]⟩]
  refs := [⟨"walk", .access, 4, 70⟩]
  imports := [⟨"Base", "A", "./a"⟩]
  requests := ["./a"]
  exported := none
  isTarget := true

/-- The two classes with their heir, which closes a chain to a method of the first. -/
def crossedGrown : Project :=
  ⟨crossed.files ++ [crossedHeir]⟩

theorem reports_of_adds_crossed :
    ReflTransGen Adds crossed crossedGrown ∧
      ∃ d d', run crossed (find (Index.ofProject crossed)) true = .ok d ∧
        run crossedGrown (find (Index.ofProject crossedGrown)) true = .ok d' ∧
        d.findings = (reports crossed).map (·.2) ∧
        d'.findings = (reports crossedGrown).map (·.2) ∧
        ∀ id finding, id.file < 2 → (id, finding) ∈ reports crossedGrown →
          crossed.Describes id finding ∧ (id, finding) ∈ reports crossed := by
  have growth : ReflTransGen Adds crossed crossedGrown := .single (.file crossedHeir)
  exact ⟨growth, reports_of_adds growth true⟩

end Detection

end UnusedMethods
