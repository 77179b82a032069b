import UnusedMethods.Proofs.LoadedPaths
import UnusedMethods.Proofs.Mentions
import UnusedMethods.Proofs.Unused

/-!
# Exports, imports and how they are linked

What a tree exports and imports is said here by the forms of its statements. The outline of a file
keeps of it the classes, the imports of single names and the name behind the default export; linking
a project replaces the imports of defaults by these names. So a name that a file writes for a base
class stands for the class that another file exports, as far as the outline keeps the connection.
-/

namespace UnusedMethods

open Script

/-! ### What statements declare, export and import -/

namespace Script.Node

theorem part_mem (node : Node) (i : Nat) (within : i < node.children.length) :
    node.part i ∈ node.children := by
  rw [part, List.getD_eq_getElem?_getD, List.getElem?_eq_getElem within]
  exact List.getElem_mem within

/-- A declaration of a class of the given name. -/
def DeclaresClass (node : Node) (name : String) : Prop :=
  ∃ traits, node.form = .class_ traits ∧ traits.isExpression = false ∧
    (node.part 1).form = .name name

/-- A statement at the top of a program that is or exports the given declaration. -/
inductive HoldsAtTop (program node : Node) : Prop
  | plain (listed : node ∈ program.children)
  | exported {statement : Node} {source : Option String} (listed : statement ∈ program.children)
      (form : statement.form = .exportNamed source) (declared : statement.part 0 = node)
  | byDefault {statement : Node} (listed : statement ∈ program.children)
      (form : statement.form = .exportDefault) (declared : statement.part 0 = node)

/-- A statement makes a class its module's default export: it declares it or names it. -/
def DefaultExports (statement : Node) (name : String) : Prop :=
  statement.form = .exportDefault ∧
    ((statement.part 0).form = .reference name ∨ (statement.part 0).DeclaresClass name)

/-- A program exports what it calls by one name under another. -/
inductive Exports (program : Node) (name : String) : String → Prop
  | declared {statement : Node} {source : Option String} (listed : statement ∈ program.children)
      (form : statement.form = .exportNamed source)
      (declares : (statement.part 0).DeclaresClass name) : Exports program name name
  | specified {statement part : Node} {exported : String} {isType : Bool}
      (listed : statement ∈ program.children) (form : statement.form = .exportNamed none)
      (inside : part ∈ statement.children)
      (specifier : part.form = .exportName name exported isType) :
      Exports program name exported
  | byDefault {statement : Node} (listed : statement ∈ program.children)
      (exports : statement.DefaultExports name) : Exports program name defaultExport

/-- The first default export of a program that has a name behind it has the given one. -/
def FirstDefault (program : Node) (name : String) : Prop :=
  ∃ before statement after, program.children = before ++ statement :: after ∧
    statement.DefaultExports name ∧ ∀ other ∈ before, ∀ name', ¬ other.DefaultExports name'

theorem FirstDefault.exports {program : Node} {name : String}
    (first : program.FirstDefault name) : program.Exports name defaultExport := by
  obtain ⟨before, statement, after, children, exports, _⟩ := first
  refine .byDefault ?_ exports
  rw [children]
  exact List.mem_append_right _ List.mem_cons_self

/-- All imports of single names in a program, in reading order. -/
def importBindings (program : Node) : List ImportBinding :=
  program.occurrences.flatMap (·.bindings)

/-- An import of a single name, before which a program does not import the local name. -/
def FirstImport (program : Node) (binding : ImportBinding) : Prop :=
  ∃ before after, program.importBindings = before ++ binding :: after ∧
    ∀ other ∈ before, other.name ≠ binding.name

theorem FirstImport.mem {program : Node} {binding : ImportBinding}
    (first : program.FirstImport binding) : binding ∈ program.importBindings := by
  obtain ⟨before, after, split, _⟩ := first
  rw [split]
  exact List.mem_append_right _ List.mem_cons_self

/-- A program imports all of a module under a name. -/
def ImportsAll (program : Node) (name source : String) : Prop :=
  ∃ statement ∈ program.children, statement.form = .import_ source ∧
    ∃ part ∈ statement.children, part.form = .importAll name

end Script.Node

/-! ### What the outline keeps -/

theorem declaredClass_eq_some {node : Node} {name : String} (declares : node.DeclaresClass name) :
    declaredClass? node = some node := by
  obtain ⟨traits, form, statement, _⟩ := declares
  simp [declaredClass?, form, statement]

theorem boundText_eq_some {node : Node} {name : String} (declares : node.DeclaresClass name) :
    boundText? (node.part 1) = some name := by
  obtain ⟨_, _, _, named⟩ := declares
  simp [boundText?, named]

/-- The outline lists every class that is declared at the top. -/
theorem classOutline_mem (path : Path) (lines : Text.LineTable) {program node : Node}
    {name : String} (held : program.HoldsAtTop node) (declares : node.DeclaresClass name) :
    classOutline lines node ∈ (outline path lines program).classes := by
  have declared := declaredClass_eq_some declares
  apply List.mem_map_of_mem
  apply List.mem_filterMap.mpr
  cases held with
  | plain listed =>
    obtain ⟨traits, form, _, _⟩ := declares
    exact ⟨node, listed, by simpa [topClass?, form] using declared⟩
  | exported listed form first => exact ⟨_, listed, by simp [topClass?, form, first, declared]⟩
  | byDefault listed form first => exact ⟨_, listed, by simp [topClass?, form, first, declared]⟩

theorem exportedName_eq_some (statement : Node) (name : String) :
    exportedName? statement = some name ↔ statement.DefaultExports name := by
  constructor
  · intro named
    unfold exportedName? at named
    split at named
    next form =>
      simp only at named
      -- Behind a default export stands a name, a declared class, or nothing that has a name.
      split at named
      next text reference =>
        cases named
        exact ⟨form, Or.inl reference⟩
      next traits inner =>
        split at named
        · cases named
        next statement_ =>
          unfold boundText? at named
          split at named
          next text bound =>
            cases named
            exact ⟨form, Or.inr ⟨traits, inner, Bool.eq_false_iff.mpr statement_, bound⟩⟩
          · cases named
      · cases named
    · cases named
  · rintro ⟨form, reference | ⟨traits, inner, statement_, bound⟩⟩
    · simp [exportedName?, form, reference]
    · simp [exportedName?, form, inner, statement_, boundText?, bound]

/-- The outline keeps the name behind the first default export that has one. -/
theorem exported_outline (path : Path) (lines : Text.LineTable) {program : Node} {name : String}
    (first : program.FirstDefault name) : (outline path lines program).exported = some name := by
  obtain ⟨before, statement, after, children, exports, others⟩ := first
  apply List.findSome?_eq_some_iff.mpr
  refine ⟨before, statement, after, children, (exportedName_eq_some _ _).mpr exports, ?_⟩
  intro other member
  cases named : exportedName? other with
  | none => rfl
  | some name' => exact absurd ((exportedName_eq_some _ _).mp named) (others other member name')

theorem find_of_firstImport {program : Node} {binding : ImportBinding}
    (first : program.FirstImport binding) :
    program.importBindings.find? (·.name == binding.name) = some binding := by
  obtain ⟨before, after, split, others⟩ := first
  rw [List.find?_eq_some_iff_append]
  refine ⟨beq_self_eq_true _, before, after, split, ?_⟩
  intro other member
  simpa using others other member

theorem firstImport_of_find {program : Node} {binding : ImportBinding} {name : String}
    (found : program.importBindings.find? (·.name == name) = some binding) :
    binding.name = name ∧ program.FirstImport binding := by
  obtain ⟨same, before, after, split, others⟩ := List.find?_eq_some_iff_append.mp found
  obtain rfl : binding.name = name := by simpa using same
  refine ⟨rfl, before, after, split, ?_⟩
  intro other member
  simpa using others other member

/-- A mention of a member is an access, a destructuring or in a type. -/
theorem mention_kind (occurrence : Occurrence) (mention : Mention)
    (mentioned : occurrence.mention? = some mention) :
    mention.kind = .access ∨ mention.kind = .destructure ∨ mention.kind = .typeQuery := by
  cases (mention_eq_some occurrence mention).mp mentioned with
  | member | privateMember | privateIn | index => exact Or.inl rfl
  | patternKey | targetKey | targetName => exact Or.inr (Or.inl rfl)
  | indexedAccess | qualified => exact Or.inr (Or.inr rfl)

/-! ### Linked files -/

namespace Imports

variable (disk : Disk) (allowJs : Bool) (defaults : List (Path × String)) (file : SourceFile)

/-- A file with its imports of defaults bound to names. -/
def linkFile : SourceFile :=
  { file with imports := file.imports.map (linkBinding disk allowJs defaults file.path) }

theorem linkBinding_name (path : Path) (binding : ImportBinding) :
    (linkBinding disk allowJs defaults path binding).name = binding.name := by
  unfold linkBinding
  split
  · rfl
  · split
    · rfl
    · rfl

/-- What a local name is imported as in a linked file is decided by its first import. -/
theorem importedName_linkFile (name : String) :
    (linkFile disk allowJs defaults file).importedName name =
      (file.imports.find? (·.name == name)).map
        fun binding => (linkBinding disk allowJs defaults file.path binding).imported := by
  have sameName : ((fun binding : ImportBinding => binding.name == name) ∘
      linkBinding disk allowJs defaults file.path) = fun binding => binding.name == name := by
    funext binding
    rw [Function.comp_apply, linkBinding_name]
  rw [SourceFile.importedName, linkFile, List.find?_map, sameName, Option.map_map]
  rfl

variable {disk allowJs defaults}

theorem linkBinding_of_ne {path : Path} {binding : ImportBinding}
    (proper : binding.imported ≠ defaultExport) :
    linkBinding disk allowJs defaults path binding = binding := by
  simp [linkBinding, proper]

theorem linkBinding_of_default {path target : Path} {binding : ImportBinding} {name : String}
    (byDefault : binding.imported = defaultExport)
    (resolved : resolveFrom? disk allowJs path binding.source = some target)
    (exported : defaults.lookup target = some name) :
    (linkBinding disk allowJs defaults path binding).imported = name := by
  simp [linkBinding, byDefault, resolved, exported]

/-- The default export of a file is found by its path, if no two files have one cleaned path. -/
theorem lookup_defaultNames {files : List SourceFile}
    (different : (files.map fun file => Path.clean file.path).Nodup) {file : SourceFile}
    (member : file ∈ files) {name : String} (exported : file.exported = some name) :
    (defaultNames files).lookup (Path.clean file.path) = some name := by
  have entry : (Path.clean file.path, name) ∈ defaultNames files := by
    rw [defaultNames, List.mem_reverse, List.mem_filterMap]
    exact ⟨file, member, by rw [exported]; rfl⟩
  have keys : (defaultNames files).Pairwise fun a b => b.1 ≠ a.1 := by
    rw [defaultNames, List.pairwise_reverse, List.pairwise_filterMap]
    refine (List.pairwise_map.mp different).imp ?_
    intro a b apart entryA fromA entryB fromB
    obtain ⟨_, _, rfl⟩ := Option.map_eq_some_iff.mp fromA
    obtain ⟨_, _, rfl⟩ := Option.map_eq_some_iff.mp fromB
    exact apart
  -- No other entry has the key, so the lookup stops at this one.
  obtain ⟨before, after, split⟩ := List.append_of_mem entry
  rw [List.lookup_eq_some_iff]
  refine ⟨before, after, split, ?_⟩
  intro other earlier
  rw [split, List.pairwise_append] at keys
  simpa using keys.2.2 other earlier _ List.mem_cons_self

end Imports

end UnusedMethods
