import UnusedMethods.Proofs.Inheritance
import UnusedMethods.References

/-!
# What the index finds

The index of a project is folded up place by place; for each name it holds the places of that name
in loading order, as a plain scan of all files lists them. The overriding methods are those of the
related declarations. Together they say what a reference query answers for a method of the project.
-/

namespace UnusedMethods

/-- A method by position, with the file and the class that hold it. -/
structure MethodAt (files : List SourceFile) (id : MethodId) (file : SourceFile) (cls : ClassDecl)
    (m : Method) : Prop where
  present : files[id.file]? = some file
  declared : file.classes[id.cls]? = some cls
  listed : cls.methods[id.method]? = some m

/-- A position holds at most one method. -/
theorem MethodAt.unique {files : List SourceFile} {id : MethodId} {file file' : SourceFile}
    {cls cls' : ClassDecl} {m m' : Method} (first : MethodAt files id file cls m)
    (second : MethodAt files id file' cls' m') : file = file' ∧ cls = cls' ∧ m = m' := by
  obtain rfl : file = file' := Option.some.inj (first.present.symm.trans second.present)
  obtain rfl : cls = cls' := Option.some.inj (first.declared.symm.trans second.declared)
  exact ⟨rfl, rfl, Option.some.inj (first.listed.symm.trans second.listed)⟩

/-- A method of instances that can stand in for another of the given name. -/
structure Method.Counterpart (m : Method) (name : String) : Prop where
  named : m.name = name
  dynamic : m.isStatic = false
  kind : m.kind = .method

namespace References

theorem isCounterpart_iff (name : String) (m : Method) :
    isCounterpart name m = true ↔ m.Counterpart name := by
  simp only [isCounterpart, Bool.and_eq_true, beq_iff_eq, Bool.not_eq_true']
  constructor
  · rintro ⟨⟨named, dynamic⟩, kind⟩
    exact ⟨named, dynamic, kind⟩
  · rintro ⟨named, dynamic, kind⟩
    exact ⟨⟨named, dynamic⟩, kind⟩

theorem lookup_eq_ok {files : List SourceFile} {id : MethodId} {file : SourceFile}
    {cls : ClassDecl} {m : Method} (at_ : MethodAt files id file cls m) :
    lookup files.toArray id = .ok (file, cls, m) := by
  simp only [lookup, List.getElem?_toArray, at_.present, at_.declared, at_.listed]
  rfl

/-! ### The places of a name -/

/-- The places of some files that name a member, file by file. -/
def sitesOf (files : List SourceFile) (name : String) : List Location :=
  files.flatMap fun file => (file.refs.filter (·.name == name)).map (ofRef file.path)

theorem getD_addSite (sites : Std.HashMap String (Array Location)) (path : Path) (r : MemberRef)
    (name : String) :
    ((addSite sites path r).getD name #[]).toList =
      (sites.getD name #[]).toList ++ if r.name = name then [ofRef path r] else [] := by
  by_cases same : r.name = name
  · subst same
    simp [addSite, Std.HashMap.getD_eq_getD_getElem?]
  · simp [addSite, Std.HashMap.getD_alter, same]

/-- What the places of one file add to those of a name. -/
theorem getD_foldl_addSite (path : Path) (refs : List MemberRef)
    (sites : Std.HashMap String (Array Location)) (name : String) :
    ((refs.foldl (fun sites r => addSite sites path r) sites).getD name #[]).toList =
      (sites.getD name #[]).toList ++ (refs.filter (·.name == name)).map (ofRef path) := by
  induction refs generalizing sites with
  | nil => simp
  | cons r refs ih =>
    rw [List.foldl_cons, ih, getD_addSite]
    by_cases same : r.name = name
    · simp [same]
    · simp [same]

/-- The index holds for each name the places of that name in loading order. -/
theorem sites_ofProject (project : Project) (name : String) :
    ((Index.ofProject project).sites.getD name #[]).toList = sitesOf project.files name := by
  -- The fold starts from what earlier files have put there.
  have all (files : List SourceFile) (sites : Std.HashMap String (Array Location)) :
      ((files.foldl (fun sites file =>
          file.refs.foldl (fun sites r => addSite sites file.path r) sites) sites).getD name
            #[]).toList =
        (sites.getD name #[]).toList ++ sitesOf files name := by
    induction files generalizing sites with
    | nil => simp [sitesOf]
    | cons file files ih =>
      rw [List.foldl_cons, ih, getD_foldl_addSite, List.append_assoc]
      simp [sitesOf]
  simpa [Index.ofProject] using all project.files ∅

theorem mem_sitesOf (files : List SourceFile) (name : String) (l : Location) :
    l ∈ sitesOf files name ↔
      ∃ file ∈ files, ∃ r ∈ file.refs, r.name = name ∧ ofRef file.path r = l := by
  simp only [sitesOf, List.mem_flatMap, List.mem_map, List.mem_filter, beq_iff_eq, and_assoc]

/-! ### Overriding methods -/

/-- A location of a method of the given name in a declaration related to a class. -/
def OverrideOf (files : List SourceFile) (className name : String) (l : Location) : Prop :=
  ∃ id file cls m other, MethodAt files id file cls m ∧ cls.name = some other ∧
    Related files className other ∧ m.Counterpart name ∧ l = ofMethod file.path .overriding m

theorem mem_counterparts (files : List SourceFile) (name : String) (location : ClassLocation)
    (l : Location) :
    l ∈ counterparts files.toArray name location ↔
      ∃ file cls, files[location.file]? = some file ∧ file.classes[location.cls]? = some cls ∧
        ∃ m ∈ cls.methods, m.Counterpart name ∧ ofMethod file.path .overriding m = l := by
  simp only [counterparts, List.getElem?_toArray]
  cases present : files[location.file]? with
  | none => simp
  | some file =>
    cases declared : file.classes[location.cls]? with
    | none => simp [declared]
    | some cls =>
      simp [declared, List.mem_map, List.mem_filter, isCounterpart_iff, and_assoc]

/-- The overriding methods of a named class are those of the related declarations. -/
theorem mem_overrides (project : Project) {cls : ClassDecl} {m : Method} {className : String}
    (named : cls.name = some className) (dynamic : m.isStatic = false) (l : Location) :
    l ∈ overrides (Index.ofProject project) cls m ↔
      OverrideOf project.files className m.name l := by
  simp only [overrides, named, dynamic, Bool.false_eq_true, if_false, Index.ofProject,
    List.mem_flatMap, Hierarchy.mem_related, mem_counterparts]
  constructor
  · rintro ⟨⟨i, j⟩, ⟨other, ⟨_, _, present', declared', named'⟩, kin⟩,
      file, decl, present, declared, found, member, twin, rfl⟩
    -- The location is met as a related declaration and again as the holder of the method.
    rw [present', Option.some.injEq] at present
    subst present
    rw [declared', Option.some.injEq] at declared
    subst declared
    obtain ⟨k, position⟩ := List.mem_iff_getElem?.mp member
    exact ⟨⟨i, j, k⟩, _, _, found, other, ⟨present', declared', position⟩, named', kin, twin, rfl⟩
  · rintro ⟨id, file, decl, found, other, at_, named', kin, twin, rfl⟩
    exact ⟨⟨id.file, id.cls⟩, ⟨other, ⟨file, decl, at_.present, at_.declared, named'⟩, kin⟩, file,
      decl, at_.present, at_.declared, found, List.mem_of_getElem? at_.listed, twin, rfl⟩

/-- The answer to a reference query for a method of a project. -/
theorem find_ofProject {project : Project} {id : MethodId} {file : SourceFile} {cls : ClassDecl}
    {m : Method} (at_ : MethodAt project.files id file cls m) :
    find (Index.ofProject project) id =
      .ok (ofMethod file.path .declaration m ::
        (sitesOf project.files m.name ++ overrides (Index.ofProject project) cls m)) := by
  have found : lookup (Index.ofProject project).files id = .ok (file, cls, m) := lookup_eq_ok at_
  simp only [find, found, ← sites_ofProject project m.name]
  rfl

end References

end UnusedMethods
