import UnusedMethods.Proofs.Unused

/-!
# Declarations that share a name

Classes are related by name, while a declaration extends other declarations. A chain of declarations
is a chain of their names, so methods of one name at its two ends count as overriding each other, as
long as the ends have different names. If they share a name they do not: a name is never among its
own relatives, although one of the declarations may well extend the other.
-/

namespace UnusedMethods

open Relation (TransGen)

/-- One declaration extends another as far as names tell: its superclass stands for the name of the
other. -/
def DeclarationStep (files : List SourceFile) (sub super : ClassLocation) : Prop :=
  ∃ file cls written name, files[sub.file]? = some file ∧ file.classes[sub.cls]? = some cls ∧
    cls.superclass = some written ∧ file.StandsFor written name ∧ DeclaredAt files super name

theorem DeclaredAt.unique {files : List SourceFile} {location : ClassLocation} {a b : String}
    (first : DeclaredAt files location a) (second : DeclaredAt files location b) : a = b := by
  obtain ⟨file, cls, present, declared, named⟩ := first
  obtain ⟨file', cls', present', declared', named'⟩ := second
  obtain rfl : file = file' := Option.some.inj (present.symm.trans present')
  obtain rfl : cls = cls' := Option.some.inj (declared.symm.trans declared')
  exact Option.some.inj (named.symm.trans named')

/-- A step between declarations is a step between their names. -/
theorem DeclarationStep.extends {files : List SourceFile} {sub super : ClassLocation} {a b : String}
    (step : DeclarationStep files sub super) (source : DeclaredAt files sub a)
    (target : DeclaredAt files super b) : Extends files a b := by
  obtain ⟨file, cls, written, name, present, declared, superclass, stands, named⟩ := step
  obtain ⟨file', cls', present', declared', named'⟩ := source
  obtain rfl : file = file' := Option.some.inj (present.symm.trans present')
  obtain rfl : cls = cls' := Option.some.inj (declared.symm.trans declared')
  obtain rfl : name = b := named.unique target
  exact ⟨file, List.mem_of_getElem? present, cls, List.mem_of_getElem? declared, written, named',
    superclass, stands⟩

/-- A chain of declarations is a chain of their names. -/
theorem transGen_extends {files : List SourceFile} {sub super : ClassLocation} {a b : String}
    (chain : TransGen (DeclarationStep files) sub super) (source : DeclaredAt files sub a)
    (target : DeclaredAt files super b) : TransGen (Extends files) a b := by
  induction chain generalizing b with
  | single step => exact .single (step.extends source target)
  | tail before step ih =>
    -- The declaration before the last step is itself the end of a step, so it has a name.
    obtain ⟨_, _, ⟨_, _, _, name, _, _, _, _, middle⟩⟩ := TransGen.tail'_iff.mp before
    exact (ih middle).tail (step.extends middle target)

namespace References

/-- The references to the method at one position hold the method at another as overriding it. -/
def ListsOverride (project : Project) (a b : MethodId) : Prop :=
  ∃ file cls m locations, MethodAt project.files b file cls m ∧
    find (Index.ofProject project) a = .ok locations ∧
    ofMethod file.path .overriding m ∈ locations

/-- No two methods of a project are declared at one place. -/
def DistinctPlaces (project : Project) : Prop :=
  ∀ {a b : MethodId} {fileA fileB : SourceFile} {clsA clsB : ClassDecl} {mA mB : Method},
    MethodAt project.files a fileA clsA mA → MethodAt project.files b fileB clsB mB →
    fileA.path = fileB.path → mA.offset = mB.offset → a = b

variable {project : Project} {a b : MethodId} {fileA fileB : SourceFile} {clsA clsB : ClassDecl}
  {mA mB : Method} {nameA nameB name : String}

theorem listsOverride_of_related (atA : MethodAt project.files a fileA clsA mA)
    (atB : MethodAt project.files b fileB clsB mB) (namedA : clsA.name = some nameA)
    (namedB : clsB.name = some nameB) (twinA : mA.Counterpart name) (twinB : mB.Counterpart name)
    (related : Related project.files nameA nameB) : ListsOverride project a b := by
  refine ⟨fileB, clsB, mB, _, atB, find_ofProject atA, ?_⟩
  refine List.mem_cons_of_mem _ (List.mem_append_right _ ?_)
  rw [mem_overrides project namedA twinA.dynamic, twinA.named]
  exact ⟨b, fileB, clsB, mB, nameB, atB, namedB, related, twinB, rfl⟩

/-- A method that is listed as overriding another is declared in a related class: one place holds
one method, and no mention of a member is of the overriding kind. -/
theorem related_of_listsOverride
    (mentions : ∀ file ∈ project.files, ∀ r ∈ file.refs, r.kind ≠ .overriding)
    (distinct : DistinctPlaces project)
    (atA : MethodAt project.files a fileA clsA mA) (atB : MethodAt project.files b fileB clsB mB)
    (dynamic : mA.isStatic = false) (lists : ListsOverride project a b) :
    ∃ nameA nameB, clsA.name = some nameA ∧ clsB.name = some nameB ∧
      Related project.files nameA nameB := by
  obtain ⟨file, cls, m, locations, at_, answer, member⟩ := lists
  obtain ⟨rfl, rfl, rfl⟩ := atB.unique at_
  rw [find_ofProject atA, Except.ok.injEq] at answer
  subst answer
  simp only [List.mem_cons, List.mem_append, mem_sitesOf] at member
  rcases member with declaration | ⟨other, present, r, mention, _, place⟩ | override
  · simp [ofMethod] at declaration
  · exact absurd (congrArg Location.kind place) (mentions other present r mention)
  · cases namedA : clsA.name with
    | none => simp [overrides, namedA] at override
    | some nameA =>
      obtain ⟨id, file', cls', m', nameB, at', namedB, related, _, place⟩ :=
        (mem_overrides project namedA dynamic _).mp override
      have path : fileB.path = file'.path := congrArg Location.file place
      have offset : mB.offset = m'.offset := congrArg Location.offset place
      obtain rfl : b = id := distinct atB at' path offset
      obtain ⟨rfl, rfl, rfl⟩ := atB.unique at'
      exact ⟨nameA, nameB, rfl, namedB, related⟩

/-- Methods of classes that share a name never count as overriding each other. -/
theorem not_listsOverride_of_same_name (plain : project.PlainRefs)
    (distinct : DistinctPlaces project)
    (atA : MethodAt project.files a fileA clsA mA) (atB : MethodAt project.files b fileB clsB mB)
    (namedA : clsA.name = some name) (namedB : clsB.name = some name)
    (dynamic : mA.isStatic = false) : ¬ ListsOverride project a b := by
  intro lists
  have mentions : ∀ file ∈ project.files, ∀ r ∈ file.refs, r.kind ≠ .overriding := by
    intro file present r mention kind
    rcases plain file present r mention with h | h | h
    all_goals simp [h] at kind
  obtain ⟨nameA, nameB, named, named', related⟩ :=
    related_of_listsOverride mentions distinct atA atB dynamic lists
  -- The class of the other method would have to be related to its own name.
  obtain rfl : name = nameA := Option.some.inj (namedA.symm.trans named)
  obtain rfl : name = nameB := Option.some.inj (namedB.symm.trans named')
  exact related.1 rfl

/-- Two methods of instances of one name, in declarations that a chain leads between, count as
overriding each other if their classes have different names, and do not if they share one. -/
theorem listsOverride_of_chain (atA : MethodAt project.files a fileA clsA mA)
    (atB : MethodAt project.files b fileB clsB mB) (namedA : clsA.name = some nameA)
    (namedB : clsB.name = some nameB) (twinA : mA.Counterpart name) (twinB : mB.Counterpart name)
    (chain : TransGen (DeclarationStep project.files) ⟨a.file, a.cls⟩ ⟨b.file, b.cls⟩) :
    (nameA ≠ nameB → ListsOverride project a b ∧ ListsOverride project b a) ∧
      (project.PlainRefs → DistinctPlaces project → nameA = nameB →
        ¬ ListsOverride project a b ∧ ¬ ListsOverride project b a) := by
  constructor
  · intro different
    have path := transGen_extends chain ⟨fileA, clsA, atA.present, atA.declared, namedA⟩
      ⟨fileB, clsB, atB.present, atB.declared, namedB⟩
    have related : Related project.files nameA nameB := ⟨different.symm, Or.inl path⟩
    exact ⟨listsOverride_of_related atA atB namedA namedB twinA twinB related,
      listsOverride_of_related atB atA namedB namedA twinB twinA related.symm⟩
  · rintro plain distinct rfl
    exact ⟨not_listsOverride_of_same_name plain distinct atA atB namedA namedB twinA.dynamic,
      not_listsOverride_of_same_name plain distinct atB atA namedB namedA twinB.dynamic⟩

/-- A class `A` that extends the class `A` of another file under an alias, and a class `B` that
extends the first of them. -/
def aliasedBase : Project :=
  ⟨[{ path := "/p/src/a.ts"
      classes := [⟨some "A", none, 1, [⟨"run", .pub, false, .method, 1, 17⟩]⟩]
      refs := []
      imports := []
      requests := []
      exported := none
      isTarget := true },
    { path := "/p/src/b.ts"
      classes := [⟨some "A", some "BaseA", 2, [⟨"run", .pub, false, .method, 2, 65⟩]⟩,
        ⟨some "B", some "BaseA", 3, [⟨"run", .pub, false, .method, 3, 107⟩]⟩]
      refs := []
      imports := [⟨"BaseA", "A", "./a"⟩]
      requests := ["./a"]
      exported := none
      isTarget := true }]⟩

theorem aliasedBase_plainRefs : aliasedBase.PlainRefs := by
  unfold Project.PlainRefs aliasedBase
  decide

theorem aliasedBase_base :
    MethodAt aliasedBase.files ⟨0, 0, 0⟩ aliasedBase.files[0]
      ⟨some "A", none, 1, [⟨"run", .pub, false, .method, 1, 17⟩]⟩
      ⟨"run", .pub, false, .method, 1, 17⟩ :=
  ⟨rfl, rfl, rfl⟩

theorem aliasedBase_same :
    MethodAt aliasedBase.files ⟨1, 0, 0⟩ aliasedBase.files[1]
      ⟨some "A", some "BaseA", 2, [⟨"run", .pub, false, .method, 2, 65⟩]⟩
      ⟨"run", .pub, false, .method, 2, 65⟩ :=
  ⟨rfl, rfl, rfl⟩

theorem aliasedBase_other :
    MethodAt aliasedBase.files ⟨1, 1, 0⟩ aliasedBase.files[1]
      ⟨some "B", some "BaseA", 3, [⟨"run", .pub, false, .method, 3, 107⟩]⟩
      ⟨"run", .pub, false, .method, 3, 107⟩ :=
  ⟨rfl, rfl, rfl⟩

/-- Both classes of the second file extend the class of the first. -/
theorem aliasedBase_step {i : Nat} {cls : ClassDecl} (superclass : cls.superclass = some "BaseA")
    (declared : aliasedBase.files[1].classes[i]? = some cls) :
    DeclarationStep aliasedBase.files ⟨1, i⟩ ⟨0, 0⟩ :=
  ⟨aliasedBase.files[1], cls, "BaseA", "A", rfl, declared, superclass,
    .imported "A" (by decide) (by decide), ⟨_, _, rfl, rfl, rfl⟩⟩

theorem listsOverride_of_chain_aliased :
    TransGen (DeclarationStep aliasedBase.files) ⟨1, 1⟩ ⟨0, 0⟩ ∧
      ListsOverride aliasedBase ⟨1, 1, 0⟩ ⟨0, 0, 0⟩ ∧
      ListsOverride aliasedBase ⟨0, 0, 0⟩ ⟨1, 1, 0⟩ := by
  have chain : TransGen (DeclarationStep aliasedBase.files) ⟨1, 1⟩ ⟨0, 0⟩ :=
    .single (aliasedBase_step rfl aliasedBase_other.declared)
  have both := listsOverride_of_chain aliasedBase_other aliasedBase_base rfl rfl
    ⟨rfl, rfl, rfl⟩ ⟨rfl, rfl, rfl⟩ chain
  exact ⟨chain, both.1 (by decide)⟩

theorem aliasedBase_methods {id : MethodId} {file : SourceFile} {cls : ClassDecl} {m : Method}
    (at_ : MethodAt aliasedBase.files id file cls m) :
    (id = ⟨0, 0, 0⟩ ∧ m.offset = 17) ∨ (id = ⟨1, 0, 0⟩ ∧ m.offset = 65) ∨
      (id = ⟨1, 1, 0⟩ ∧ m.offset = 107) := by
  obtain ⟨i, j, k⟩ := id
  obtain ⟨present, declared, listed⟩ := at_
  rcases i with _ | _ | i
  · obtain rfl := Option.some.inj present
    rcases j with _ | j
    · obtain rfl := Option.some.inj declared
      rcases k with _ | k
      · obtain rfl := Option.some.inj listed
        exact Or.inl ⟨rfl, rfl⟩
      · cases listed
    · cases declared
  · obtain rfl := Option.some.inj present
    rcases j with _ | _ | j
    · obtain rfl := Option.some.inj declared
      rcases k with _ | k
      · obtain rfl := Option.some.inj listed
        exact Or.inr (Or.inl ⟨rfl, rfl⟩)
      · cases listed
    · obtain rfl := Option.some.inj declared
      rcases k with _ | k
      · obtain rfl := Option.some.inj listed
        exact Or.inr (Or.inr ⟨rfl, rfl⟩)
      · cases listed
    · cases declared
  · cases present

theorem aliasedBase_distinctPlaces : DistinctPlaces aliasedBase := by
  intro a b _ _ _ _ _ _ atA atB _ offset
  have first := aliasedBase_methods atA
  have second := aliasedBase_methods atB
  grind

/-- The two classes `A` are joined by a chain, and yet their methods do not count as overriding each
other. -/
theorem not_listsOverride_aliased :
    TransGen (DeclarationStep aliasedBase.files) ⟨1, 0⟩ ⟨0, 0⟩ ∧
      ¬ ListsOverride aliasedBase ⟨1, 0, 0⟩ ⟨0, 0, 0⟩ ∧
      ¬ ListsOverride aliasedBase ⟨0, 0, 0⟩ ⟨1, 0, 0⟩ := by
  refine ⟨.single (aliasedBase_step rfl aliasedBase_same.declared), ?_, ?_⟩
  · exact not_listsOverride_of_same_name aliasedBase_plainRefs aliasedBase_distinctPlaces
      aliasedBase_same aliasedBase_base rfl rfl rfl
  · exact not_listsOverride_of_same_name aliasedBase_plainRefs aliasedBase_distinctPlaces
      aliasedBase_base aliasedBase_same rfl rfl rfl

end References

end UnusedMethods
