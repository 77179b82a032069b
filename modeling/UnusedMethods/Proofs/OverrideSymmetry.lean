import UnusedMethods.Proofs.NameCollision

/-!
# Overriding goes both ways

The ancestors and the descendants of a class are found by two searches, along the edges of the class
graph and against them. They are each other's converse, so the relation between declarations is
symmetric, and two methods of one name in related classes keep each other in use. A place that is
itself recorded as overriding would tell only in one direction; no text is outlined to such a place.
-/

namespace UnusedMethods

namespace Hierarchy

/-- A name is above another exactly if the other is below it. -/
theorem mem_ancestors_iff_mem_descendants (files : List SourceFile) (a b : String) :
    b ∈ (ofFiles files).ancestors a ↔ a ∈ (ofFiles files).descendants b := by
  -- Both are the names that a chain of edges joins, taken from its two ends.
  rw [mem_ancestors, mem_descendants, ne_comm]

theorem mem_related_of_declaredAt {files : List SourceFile} {location : ClassLocation}
    {other : String} (declared : DeclaredAt files location other) (name : String) :
    location ∈ (ofFiles files).related name ↔ Related files name other := by
  rw [mem_related]
  constructor
  · rintro ⟨kin, declared', related⟩
    rwa [declared.unique declared']
  · intro related
    exact ⟨other, declared, related⟩

/-- A declaration is related to the class of another exactly if the other is to its own. -/
theorem mem_related_comm {files : List SourceFile} {d e : ClassLocation} {nameD nameE : String}
    (declaredD : DeclaredAt files d nameD) (declaredE : DeclaredAt files e nameE) :
    e ∈ (ofFiles files).related nameD ↔ d ∈ (ofFiles files).related nameE := by
  rw [mem_related_of_declaredAt declaredE, mem_related_of_declaredAt declaredD]
  exact ⟨.symm, .symm⟩

end Hierarchy

namespace References

variable {project : Project} {a b : MethodId} {fileA fileB : SourceFile} {clsA clsB : ClassDecl}
  {mA mB : Method} {name : String}

/-- Of two methods of instances of one name, one lists the other as overriding it exactly if their
classes are named and related. -/
theorem listsOverride_iff_related
    (mentions : ∀ file ∈ project.files, ∀ r ∈ file.refs, r.kind ≠ .overriding)
    (distinct : DistinctPlaces project)
    (atA : MethodAt project.files a fileA clsA mA) (atB : MethodAt project.files b fileB clsB mB)
    (twinA : mA.Counterpart name) (twinB : mB.Counterpart name) :
    ListsOverride project a b ↔ ∃ nameA nameB, clsA.name = some nameA ∧
      clsB.name = some nameB ∧ Related project.files nameA nameB := by
  constructor
  · exact related_of_listsOverride mentions distinct atA atB twinA.dynamic
  · rintro ⟨nameA, nameB, namedA, namedB, related⟩
    exact listsOverride_of_related atA atB namedA namedB twinA twinB related

/-- Ancestors and descendants are converse, related declarations are related both ways, and so are
methods that override each other, as long as no mention of a member is of the overriding kind and
no two methods are declared at one place. -/
theorem overriding_symmetric (project : Project) :
    (∀ a b, b ∈ (Hierarchy.ofFiles project.files).ancestors a ↔
      a ∈ (Hierarchy.ofFiles project.files).descendants b) ∧
    (∀ {d e nameD nameE}, DeclaredAt project.files d nameD → DeclaredAt project.files e nameE →
      (e ∈ (Hierarchy.ofFiles project.files).related nameD ↔
        d ∈ (Hierarchy.ofFiles project.files).related nameE)) ∧
    ((∀ file ∈ project.files, ∀ r ∈ file.refs, r.kind ≠ .overriding) → DistinctPlaces project →
      ∀ {a b fileA fileB clsA clsB mA mB name}, MethodAt project.files a fileA clsA mA →
        MethodAt project.files b fileB clsB mB → mA.Counterpart name → mB.Counterpart name →
        (ListsOverride project a b ↔ ListsOverride project b a)) := by
  refine ⟨Hierarchy.mem_ancestors_iff_mem_descendants _, Hierarchy.mem_related_comm, ?_⟩
  intro mentions distinct a b fileA fileB clsA clsB mA mB name atA atB twinA twinB
  rw [listsOverride_iff_related mentions distinct atA atB twinA twinB,
    listsOverride_iff_related mentions distinct atB atA twinB twinA]
  constructor
  · rintro ⟨nameA, nameB, namedA, namedB, related⟩
    exact ⟨nameB, nameA, namedB, namedA, related.symm⟩
  · rintro ⟨nameB, nameA, namedB, namedA, related⟩
    exact ⟨nameA, nameB, namedA, namedB, related.symm⟩

theorem overriding_symmetric_aliased :
    (∀ file ∈ aliasedBase.files, ∀ r ∈ file.refs, r.kind ≠ .overriding) ∧
      DistinctPlaces aliasedBase ∧
      ((⟨0, 0⟩ : ClassLocation) ∈ (Hierarchy.ofFiles aliasedBase.files).related "B" ↔
        ⟨1, 1⟩ ∈ (Hierarchy.ofFiles aliasedBase.files).related "A") ∧
      (ListsOverride aliasedBase ⟨1, 1, 0⟩ ⟨0, 0, 0⟩ ↔
        ListsOverride aliasedBase ⟨0, 0, 0⟩ ⟨1, 1, 0⟩) := by
  have mentions : ∀ file ∈ aliasedBase.files, ∀ r ∈ file.refs, r.kind ≠ .overriding := by
    decide
  obtain ⟨_, related, lists⟩ := overriding_symmetric aliasedBase
  exact ⟨mentions, aliasedBase_distinctPlaces,
    related ⟨_, _, rfl, rfl, rfl⟩ ⟨_, _, rfl, rfl, rfl⟩,
    lists mentions aliasedBase_distinctPlaces aliasedBase_other aliasedBase_base ⟨rfl, rfl, rfl⟩
      ⟨rfl, rfl, rfl⟩⟩

/-- Two classes that are not related, and a place recorded as overriding where the method of the
second is declared. -/
def recordedOverride : Project :=
  ⟨[{ path := "/p/src/a.ts"
      classes := [⟨some "A", none, 1, [⟨"run", .pub, false, .method, 1, 10⟩]⟩,
        ⟨some "B", none, 2, [⟨"run", .pub, false, .method, 2, 30⟩]⟩]
      refs := [⟨"run", .overriding, 2, 30⟩]
      imports := []
      requests := []
      exported := none
      isTarget := true }]⟩

theorem recordedOverride_methods {id : MethodId} {file : SourceFile} {cls : ClassDecl} {m : Method}
    (at_ : MethodAt recordedOverride.files id file cls m) :
    (id = ⟨0, 0, 0⟩ ∧ m.offset = 10) ∨ (id = ⟨0, 1, 0⟩ ∧ m.offset = 30) := by
  obtain ⟨i, j, k⟩ := id
  obtain ⟨present, declared, listed⟩ := at_
  rcases i with _ | i
  · obtain rfl := Option.some.inj present
    rcases j with _ | _ | j
    · obtain rfl := Option.some.inj declared
      rcases k with _ | k
      · obtain rfl := Option.some.inj listed
        exact Or.inl ⟨rfl, rfl⟩
      · cases listed
    · obtain rfl := Option.some.inj declared
      rcases k with _ | k
      · obtain rfl := Option.some.inj listed
        exact Or.inr ⟨rfl, rfl⟩
      · cases listed
    · cases declared
  · cases present

/-- A place recorded as overriding is listed for both methods, and tells of one of them only. -/
theorem not_overriding_symmetric_recorded :
    DistinctPlaces recordedOverride ∧ ListsOverride recordedOverride ⟨0, 0, 0⟩ ⟨0, 1, 0⟩ ∧
      ¬ ListsOverride recordedOverride ⟨0, 1, 0⟩ ⟨0, 0, 0⟩ := by
  -- Only the recorded place is listed beside a declaration, since the classes are not related.
  have answer (cls : ClassDecl) (m : Method) {id : MethodId} {file : SourceFile}
      (at_ : MethodAt recordedOverride.files id file cls m)
      (listed : sitesOf recordedOverride.files m.name ++
        overrides (Index.ofProject recordedOverride) cls m =
          [⟨"/p/src/a.ts", 2, 30, .overriding⟩]) :
      find (Index.ofProject recordedOverride) id =
        .ok [ofMethod file.path .declaration m, ⟨"/p/src/a.ts", 2, 30, .overriding⟩] := by
    rw [find_ofProject at_, listed]
  refine ⟨?_, ⟨_, _, _, _, ⟨rfl, rfl, rfl⟩, answer _ _ ⟨rfl, rfl, rfl⟩ (by decide +kernel),
    by decide⟩, ?_⟩
  · intro a b _ _ _ _ _ _ atA atB _ offset
    have methodA := recordedOverride_methods atA
    have methodB := recordedOverride_methods atB
    grind
  · rintro ⟨file, cls, m, locations, ⟨present, declared, listed⟩, found, member⟩
    rw [answer _ _ ⟨rfl, rfl, rfl⟩ (by decide +kernel), Except.ok.injEq] at found
    subst found
    obtain rfl := Option.some.inj present
    obtain rfl := Option.some.inj declared
    obtain rfl := Option.some.inj listed
    revert member
    decide

end References

end UnusedMethods
