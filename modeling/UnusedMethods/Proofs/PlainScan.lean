import Mathlib.Data.List.Forall2
import UnusedMethods.Proofs.Unused

/-!
# The index answers as a plain scan does

A reference query is answered from an index of names, a search of the class graph and a list of
related declarations. The answer is the one that a scan of all files gives, order and repetitions
included: the declaration, then the places of the name file by file, then the methods of related
classes in increasing order of position. A query fails only for a position where no method is, and
the failure tells at which level the position leaves the project.
-/

namespace UnusedMethods

/-- The level at which a position leaves the files: there is no such file, the file has no such
class, or the class has no such method. -/
inductive OutOfRange (files : List SourceFile) (id : MethodId) : String → Prop
  | file (beyond : files.length ≤ id.file) : OutOfRange files id "file"
  | cls {file : SourceFile} (present : files[id.file]? = some file)
      (beyond : file.classes.length ≤ id.cls) : OutOfRange files id "class"
  | method {file : SourceFile} {cls : ClassDecl} (present : files[id.file]? = some file)
      (declared : file.classes[id.cls]? = some cls) (beyond : cls.methods.length ≤ id.method) :
      OutOfRange files id "method"

/-- A position is out of range at some level, or it holds a method. -/
theorem outOfRange_or_methodAt (files : List SourceFile) (id : MethodId) :
    (∃ level, OutOfRange files id level) ∨ ∃ file cls m, MethodAt files id file cls m := by
  cases present : files[id.file]? with
  | none => exact Or.inl ⟨_, .file (List.getElem?_eq_none_iff.mp present)⟩
  | some file =>
    cases declared : file.classes[id.cls]? with
    | none => exact Or.inl ⟨_, .cls present (List.getElem?_eq_none_iff.mp declared)⟩
    | some cls =>
      cases listed : cls.methods[id.method]? with
      | none => exact Or.inl ⟨_, .method present declared (List.getElem?_eq_none_iff.mp listed)⟩
      | some m => exact Or.inr ⟨file, cls, m, present, declared, listed⟩

/-- A position that holds a method is in range at all levels. -/
theorem OutOfRange.not_methodAt {files : List SourceFile} {id : MethodId} {level : String}
    (outside : OutOfRange files id level) {file : SourceFile} {cls : ClassDecl} {m : Method} :
    ¬ MethodAt files id file cls m := by
  rintro ⟨present, declared, listed⟩
  cases outside with
  | file beyond =>
    rw [List.getElem?_eq_none beyond] at present
    cases present
  | cls present' beyond =>
    rw [present', Option.some.injEq] at present
    subst present
    rw [List.getElem?_eq_none beyond] at declared
    cases declared
  | method present' declared' beyond =>
    rw [present', Option.some.injEq] at present
    subst present
    rw [declared', Option.some.injEq] at declared
    subst declared
    rw [List.getElem?_eq_none beyond] at listed
    cases listed

/-- Locations in the order of files and classes. -/
def ClassLocation.Before (a b : ClassLocation) : Prop :=
  a.file < b.file ∨ a.file = b.file ∧ a.cls < b.cls

namespace Hierarchy

theorem mem_declaredIn {file : SourceFile} {i : Nat} {entry : String × ClassLocation}
    (member : entry ∈ declaredIn file i) : entry.2.file = i := by
  obtain ⟨_, _, named⟩ := List.mem_filterMap.mp member
  obtain ⟨_, _, rfl⟩ := Option.map_eq_some_iff.mp named
  rfl

theorem declaredIn_pairwise (file : SourceFile) (i : Nat) :
    (declaredIn file i).Pairwise fun a b => a.2.Before b.2 := by
  rw [declaredIn, List.pairwise_filterMap]
  refine (zipIdx_pairwise file.classes).imp ?_
  intro a b less entryA fromA entryB fromB
  obtain ⟨_, _, rfl⟩ := Option.map_eq_some_iff.mp fromA
  obtain ⟨_, _, rfl⟩ := Option.map_eq_some_iff.mp fromB
  exact Or.inr ⟨rfl, less⟩

/-- Declarations are listed in increasing order of location. -/
theorem declared_pairwise (files : List SourceFile) :
    (ofFiles files).declared.Pairwise fun a b => a.2.Before b.2 := by
  refine List.pairwise_flatMap.mpr ⟨fun entry _ => declaredIn_pairwise entry.1 entry.2, ?_⟩
  -- Between two files the positions of the files decide.
  refine (zipIdx_pairwise files).imp fun less a first b second => Or.inl ?_
  rw [mem_declaredIn first, mem_declaredIn second]
  exact less

/-- The declarations related to a class are listed in increasing order of location, each once. -/
theorem related_pairwise (files : List SourceFile) (name : String) :
    ((ofFiles files).related name).Pairwise ClassLocation.Before := by
  rw [related, List.pairwise_map]
  exact (declared_pairwise files).sublist List.filter_sublist

end Hierarchy

namespace References

theorem lookup_eq_error {files : List SourceFile} {id : MethodId} {level : String}
    (outside : OutOfRange files id level) :
    lookup files.toArray id = .error (missing level id) := by
  cases outside with
  | file beyond =>
    simp only [lookup, List.getElem?_toArray, List.getElem?_eq_none beyond]
    rfl
  | cls present beyond =>
    simp only [lookup, List.getElem?_toArray, present, List.getElem?_eq_none beyond]
    rfl
  | method present declared beyond =>
    simp only [lookup, List.getElem?_toArray, present, declared, List.getElem?_eq_none beyond]
    rfl

/-- A query for a position where no method is fails with the level at which the position leaves the
project. -/
theorem find_of_outOfRange {project : Project} {id : MethodId} {level : String}
    (outside : OutOfRange project.files id level) :
    find (Index.ofProject project) id = .error (missing level id) := by
  have absent : lookup (Index.ofProject project).files id = .error (missing level id) :=
    lookup_eq_error outside
  simp only [find, absent]
  rfl

/-! ### Overriding methods by position -/

/-- The location of the method at a position, as one that overrides another. -/
def OverrideAt (files : List SourceFile) (id : MethodId) (l : Location) : Prop :=
  ∃ file cls m, MethodAt files id file cls m ∧ l = ofMethod file.path .overriding m

/-- The positions of the methods of instances of a name that are declared in classes related to a
class, in increasing order. -/
structure OverridingIds (files : List SourceFile) (className name : String) (ids : List MethodId) :
    Prop where
  increasing : ids.Pairwise MethodId.Before
  exact : ∀ id, id ∈ ids ↔ ∃ file cls m kin, MethodAt files id file cls m ∧
    cls.name = some kin ∧ Related files className kin ∧ m.Counterpart name

/-- The positions of the methods of a name in the class at a location. -/
def counterpartIds (files : List SourceFile) (name : String) (l : ClassLocation) :
    List MethodId :=
  match files[l.file]? with
  | none => []
  | some file =>
    match file.classes[l.cls]? with
    | none => []
    | some cls =>
      (cls.methods.zipIdx.filter fun entry => isCounterpart name entry.1).map fun entry =>
        ⟨l.file, l.cls, entry.2⟩

theorem mem_counterpartIds (files : List SourceFile) (name : String) (l : ClassLocation)
    (id : MethodId) :
    id ∈ counterpartIds files name l ↔
      id.file = l.file ∧ id.cls = l.cls ∧
        ∃ file cls m, MethodAt files id file cls m ∧ m.Counterpart name := by
  unfold counterpartIds
  constructor
  · intro member
    split at member
    · cases member
    next file present =>
      split at member
      · cases member
      next cls declared =>
        obtain ⟨⟨m, k⟩, kept, rfl⟩ := List.mem_map.mp member
        obtain ⟨inside, twin⟩ := List.mem_filter.mp kept
        have listed := List.mem_zipIdx_iff_getElem?.mp inside
        exact ⟨rfl, rfl, file, cls, m, ⟨present, declared, listed⟩, (isCounterpart_iff ..).mp twin⟩
  · rintro ⟨sameFile, sameCls, file, cls, m, at_, twin⟩
    rw [← sameFile, ← sameCls, at_.present]
    simp only [at_.declared]
    refine List.mem_map.mpr ⟨(m, id.method), List.mem_filter.mpr ⟨?_, ?_⟩, rfl⟩
    · exact List.mem_zipIdx_iff_getElem?.mpr at_.listed
    · exact (isCounterpart_iff ..).mpr twin

theorem counterpartIds_pairwise (files : List SourceFile) (name : String) (l : ClassLocation) :
    (counterpartIds files name l).Pairwise MethodId.Before := by
  unfold counterpartIds
  split
  · exact .nil
  · split
    · exact .nil
    · rw [List.pairwise_map]
      refine ((zipIdx_pairwise _).sublist List.filter_sublist).imp fun less => ?_
      exact Or.inr ⟨rfl, Or.inr ⟨rfl, less⟩⟩

/-- The methods of a name in a class are those at their positions, one for one. -/
theorem forall₂_counterparts (files : List SourceFile) (name : String) (l : ClassLocation) :
    List.Forall₂ (OverrideAt files) (counterpartIds files name l)
      (counterparts files.toArray name l) := by
  unfold counterpartIds counterparts
  rw [List.getElem?_toArray]
  cases present : files[l.file]? with
  | none => exact .nil
  | some file =>
    cases declared : file.classes[l.cls]? with
    | none => simp [declared]
    | some cls =>
      -- Both lists select from the methods of the class, once with their positions.
      have methods : cls.methods.filter (isCounterpart name) =
          (cls.methods.zipIdx.filter fun entry => isCounterpart name entry.1).map (·.1) := by
        conv_lhs => rw [← List.zipIdx_map_fst 0 cls.methods, List.filter_map]
        rfl
      simp only [declared, methods, List.map_map, List.forall₂_map_left_iff,
        List.forall₂_map_right_iff, List.forall₂_same]
      rintro ⟨m, k⟩ kept
      have listed := List.mem_zipIdx_iff_getElem?.mp (List.mem_filter.mp kept).1
      exact ⟨file, cls, m, ⟨present, declared, listed⟩, rfl⟩

/-- The overriding methods of the related declarations, by position. -/
theorem overridingIds_related (files : List SourceFile) (className name : String) :
    OverridingIds files className name
      (((Hierarchy.ofFiles files).related className).flatMap (counterpartIds files name)) where
  increasing := by
    refine List.pairwise_flatMap.mpr ⟨fun l _ => counterpartIds_pairwise files name l, ?_⟩
    -- Between two declarations their locations decide.
    refine (Hierarchy.related_pairwise files className).imp ?_
    intro l l' before a first b second
    obtain ⟨fileA, clsA, _⟩ := (mem_counterpartIds ..).mp first
    obtain ⟨fileB, clsB, _⟩ := (mem_counterpartIds ..).mp second
    rcases before with less | ⟨same, less⟩
    · exact Or.inl (by rw [fileA, fileB]; exact less)
    · exact Or.inr ⟨by rw [fileA, fileB, same], Or.inl (by rw [clsA, clsB]; exact less)⟩
  exact id := by
    simp only [List.mem_flatMap, Hierarchy.mem_related, mem_counterpartIds]
    constructor
    · rintro ⟨l, ⟨kin, ⟨file', cls', present, declared, named⟩, related⟩, sameFile, sameCls, file,
        cls, m, at_, twin⟩
      -- The location is met as a related declaration and again as the holder of the method.
      rw [← sameFile, at_.present, Option.some.injEq] at present
      subst present
      rw [← sameCls, at_.declared, Option.some.injEq] at declared
      subst declared
      exact ⟨file, cls, m, kin, at_, named, related, twin⟩
    · rintro ⟨file, cls, m, kin, at_, named, related, twin⟩
      exact ⟨⟨id.file, id.cls⟩, ⟨kin, ⟨file, cls, at_.present, at_.declared, named⟩, related⟩, rfl,
        rfl, file, cls, m, at_, twin⟩

/-- What a plain scan lists as overriding a method of a class: nothing for a class without a name or
a static method, else the methods of the name in related classes in increasing order of position. -/
structure ScannedOverrides (files : List SourceFile) (cls : ClassDecl) (m : Method)
    (locations : List Location) : Prop where
  none_of_anonymous : cls.name = none → locations = []
  none_of_static : m.isStatic = true → locations = []
  listed : ∀ className, cls.name = some className → m.isStatic = false →
    ∃ ids, OverridingIds files className m.name ids ∧
      List.Forall₂ (OverrideAt files) ids locations

theorem scannedOverrides_overrides (project : Project) (cls : ClassDecl) (m : Method) :
    ScannedOverrides project.files cls m (overrides (Index.ofProject project) cls m) where
  none_of_anonymous anonymous := by simp [overrides, anonymous]
  none_of_static static := by
    unfold overrides
    split
    · rfl
    · simp [static]
  listed className named dynamic := by
    refine ⟨_, overridingIds_related project.files className m.name, ?_⟩
    simp only [overrides, named, dynamic, Bool.false_eq_true, if_false, Index.ofProject]
    refine List.rel_flatMap (R := Eq) (List.forall₂_refl _) ?_
    rintro l _ rfl
    exact forall₂_counterparts project.files m.name l

/-- A reference query fails exactly for a position that is out of range, and tells the level. For
any other position it answers what a plain scan of the files lists: the declaration, the places of
the name in loading order, and the methods of the name in related classes in increasing order. -/
theorem find_eq_plain_scan (project : Project) (id : MethodId) :
    (∀ failure, find (Index.ofProject project) id = .error failure ↔
      ∃ level, OutOfRange project.files id level ∧ failure = missing level id) ∧
    ((¬ ∃ level, OutOfRange project.files id level) →
      ∃ file cls m overriding, MethodAt project.files id file cls m ∧
        find (Index.ofProject project) id = .ok (ofMethod file.path .declaration m ::
          (sitesOf project.files m.name ++ overriding)) ∧
        ScannedOverrides project.files cls m overriding) := by
  constructor
  · intro failure
    constructor
    · intro failed
      rcases outOfRange_or_methodAt project.files id with ⟨level, outside⟩ | ⟨file, cls, m, at_⟩
      · rw [find_of_outOfRange outside, Except.error.injEq] at failed
        exact ⟨level, outside, failed.symm⟩
      · rw [find_ofProject at_] at failed
        cases failed
    · rintro ⟨level, outside, rfl⟩
      exact find_of_outOfRange outside
  · intro inside
    obtain ⟨file, cls, m, at_⟩ := (outOfRange_or_methodAt project.files id).resolve_left inside
    exact ⟨file, cls, m, _, at_, find_ofProject at_, scannedOverrides_overrides project cls m⟩

open Detection (crossed) in
theorem find_eq_plain_scan_crossed :
    (¬ ∃ level, OutOfRange crossed.files ⟨0, 0, 0⟩ level) ∧
      ∃ file cls m overriding, MethodAt crossed.files ⟨0, 0, 0⟩ file cls m ∧
        find (Index.ofProject crossed) ⟨0, 0, 0⟩ = .ok (ofMethod file.path .declaration m ::
          (sitesOf crossed.files m.name ++ overriding)) ∧
        ScannedOverrides crossed.files cls m overriding := by
  have inside : ¬ ∃ level, OutOfRange crossed.files ⟨0, 0, 0⟩ level := by
    rintro ⟨level, outside⟩
    exact outside.not_methodAt ⟨rfl, rfl, rfl⟩
  exact ⟨inside, (find_eq_plain_scan crossed ⟨0, 0, 0⟩).2 inside⟩

end References

end UnusedMethods
