import UnusedMethods.Hierarchy
import UnusedMethods.Proofs.Reachability

/-!
# Inheritance by name

The hierarchy of some files, said without the graph: one name extends another if some class of the
first name is declared with a superclass that stands for the second. The ancestors of a name are the
other names that it reaches by such steps, the descendants are those that reach it, and the related
declarations are the declarations of both.
-/

namespace UnusedMethods

open Relation (ReflTransGen TransGen)

/-- What a superclass name stands for in a file: the name under which it is imported, and itself if
it is not imported or is the default export of a module that is not known. -/
inductive SourceFile.StandsFor (file : SourceFile) (written : String) : String → Prop where
  | imported (name : String) (found : file.importedName written = some name)
      (proper : name ≠ defaultExport) : StandsFor file written name
  | unlinked (found : file.importedName written = some defaultExport) :
      StandsFor file written written
  | own (absent : file.importedName written = none) : StandsFor file written written

/-- A class of one name is declared to extend a class of another. -/
def Extends (files : List SourceFile) (sub super : String) : Prop :=
  ∃ file ∈ files, ∃ cls ∈ file.classes, ∃ written,
    cls.name = some sub ∧ cls.superclass = some written ∧ file.StandsFor written super

/-- Two different names of which one extends the other, directly or not. -/
def Related (files : List SourceFile) (name other : String) : Prop :=
  other ≠ name ∧ (TransGen (Extends files) name other ∨ TransGen (Extends files) other name)

/-- A class of a name is declared at a location. -/
def DeclaredAt (files : List SourceFile) (location : ClassLocation) (name : String) : Prop :=
  ∃ file cls, files[location.file]? = some file ∧ file.classes[location.cls]? = some cls ∧
    cls.name = some name

theorem Related.symm {files : List SourceFile} {a b : String} (related : Related files a b) :
    Related files b a :=
  ⟨related.1.symm, related.2.symm⟩

/-- The graph walk from a node reaches another node exactly by one step or more. -/
theorem transGen_iff_of_ne {step : String → String → Prop} {a b : String} (different : b ≠ a) :
    ReflTransGen step a b ↔ TransGen step a b := by
  rw [Relation.reflTransGen_iff_eq_or_transGen]
  exact or_iff_right different

namespace Hierarchy

theorem superName_eq_iff (file : SourceFile) (written name : String) :
    superName file written = name ↔ file.StandsFor written name := by
  constructor
  · intro stands
    subst stands
    unfold superName
    split
    next imported found =>
      -- A default that linking has not replaced stands for the written name.
      by_cases proper : imported = defaultExport
      · subst proper
        simpa using .unlinked found
      · simpa [proper] using .imported imported found proper
    next absent => exact .own absent
  · intro stands
    cases stands with
    | imported _ found proper => simp [superName, found, proper]
    | unlinked found => simp [superName, found]
    | own absent => simp [superName, absent]

theorem mem_edges (files : List SourceFile) (a b : String) :
    (a, b) ∈ (ofFiles files).edges ↔ Extends files a b := by
  simp only [ofFiles, edgesIn, List.mem_flatMap, List.mem_filterMap, Extends]
  constructor
  · rintro ⟨file, member, cls, declared, edge⟩
    split at edge
    next name written named extended =>
      simp only [Option.some.injEq, Prod.mk.injEq] at edge
      refine ⟨file, member, cls, declared, written, ?_, extended, ?_⟩
      · rw [named, edge.1]
      · exact (superName_eq_iff file written b).mp edge.2
    · simp at edge
  · rintro ⟨file, member, cls, declared, written, named, extended, stands⟩
    refine ⟨file, member, cls, declared, ?_⟩
    simp [named, extended, (superName_eq_iff file written b).mpr stands]

theorem mem_declared (files : List SourceFile) (name : String) (location : ClassLocation) :
    (name, location) ∈ (ofFiles files).declared ↔ DeclaredAt files location name := by
  obtain ⟨i, j⟩ := location
  simp only [ofFiles, declaredIn, List.mem_flatMap, List.mem_filterMap, Prod.exists,
    List.mem_zipIdx_iff_getElem?, Option.map_eq_some_iff, Prod.mk.injEq, ClassLocation.mk.injEq,
    DeclaredAt]
  constructor
  · rintro ⟨file, i', present, cls, j', declared, name', named, rfl, rfl, rfl⟩
    exact ⟨file, cls, present, declared, named⟩
  · rintro ⟨file, cls, present, declared, named⟩
    exact ⟨file, i, present, cls, j, declared, name, named, rfl, rfl, rfl⟩

theorem step_graph (files : List SourceFile) : (ofFiles files).graph.Step = Extends files := by
  funext a b
  exact propext (mem_edges files a b)

theorem sub_mem_nodes {files : List SourceFile} {a b : String} (extends_ : Extends files a b) :
    a ∈ (ofFiles files).graph.nodes := by
  obtain ⟨file, member, cls, declared, _, named, _⟩ := extends_
  obtain ⟨i, present⟩ := List.mem_iff_getElem?.mp member
  obtain ⟨j, position⟩ := List.mem_iff_getElem?.mp declared
  have entry := (mem_declared files a ⟨i, j⟩).mpr ⟨file, cls, present, position, named⟩
  exact List.mem_append_left _ (List.mem_map.mpr ⟨_, entry, rfl⟩)

theorem super_mem_nodes {files : List SourceFile} {a b : String} (extends_ : Extends files a b) :
    b ∈ (ofFiles files).graph.nodes :=
  List.mem_append_right _ (List.mem_map.mpr ⟨(a, b), (mem_edges files a b).mpr extends_, rfl⟩)

/-- The ancestors of a name are the other names that it reaches by one step or more. -/
theorem mem_ancestors (files : List SourceFile) (a b : String) :
    b ∈ (ofFiles files).ancestors a ↔ b ≠ a ∧ TransGen (Extends files) a b := by
  simp only [ancestors, List.mem_filter, FiniteGraph.mem_reachableFrom, List.mem_singleton,
    exists_eq_left, step_graph, bne_iff_ne, ne_eq]
  constructor
  · rintro ⟨⟨_, path⟩, different⟩
    exact ⟨different, (transGen_iff_of_ne different).mp path⟩
  · rintro ⟨different, path⟩
    -- The search starts from nodes only; the first step shows that the name is one.
    obtain ⟨_, first, _⟩ := Relation.TransGen.head'_iff.mp path
    exact ⟨⟨sub_mem_nodes first, path.to_reflTransGen⟩, different⟩

/-- The descendants of a name are the other names that reach it by one step or more. -/
theorem mem_descendants (files : List SourceFile) (a b : String) :
    b ∈ (ofFiles files).descendants a ↔ b ≠ a ∧ TransGen (Extends files) b a := by
  simp only [descendants, List.mem_filter, FiniteGraph.mem_reachableFrom, List.mem_singleton,
    exists_eq_left, FiniteGraph.reverse_reflTransGen, step_graph, bne_iff_ne, ne_eq]
  constructor
  · rintro ⟨⟨_, path⟩, different⟩
    exact ⟨different, (transGen_iff_of_ne (Ne.symm different)).mp path⟩
  · rintro ⟨different, path⟩
    -- Here it is the last step that ends at the name.
    obtain ⟨_, _, last⟩ := Relation.TransGen.tail'_iff.mp path
    exact ⟨⟨super_mem_nodes last, path.to_reflTransGen⟩, different⟩

theorem mem_relatedNames (files : List SourceFile) (name other : String) :
    other ∈ (ofFiles files).relatedNames name ↔ Related files name other := by
  simp only [relatedNames, List.mem_append, mem_ancestors, mem_descendants, Related, and_or_left]

/-- The related declarations of a name are the declarations of all related names. -/
theorem mem_related (files : List SourceFile) (name : String) (location : ClassLocation) :
    location ∈ (ofFiles files).related name ↔
      ∃ other, DeclaredAt files location other ∧ Related files name other := by
  simp only [related, List.mem_map, List.mem_filter, List.contains_iff_mem, mem_relatedNames,
    Prod.exists, mem_declared]
  constructor
  · rintro ⟨other, _, ⟨declared, kin⟩, rfl⟩
    exact ⟨other, declared, kin⟩
  · rintro ⟨other, declared, kin⟩
    exact ⟨other, location, ⟨declared, kin⟩, rfl⟩

end Hierarchy

end UnusedMethods
