import UnusedMethods.Proofs.ImportedBase
import UnusedMethods.Proofs.Usage

/-!
# Literal keys in declarations and in brackets

A method may be declared with a name, a string or a number as its key, and a member may be accessed
by a literal in brackets, in an expression or in a type. A name and a string call the member alike
in both places, so a method that some file of the project accesses by its literal is not found
unused. A number names the method that it declares, but in brackets it names none: such an access is
no mention, and the method may be found unused in spite of it.
-/

namespace UnusedMethods

open Script

/-! ### Accesses by a literal -/

namespace Script

/-- A node is a literal written in brackets, where a name is written as a string. -/
inductive Node.Indexes (index : Node) : KeyLiteral → Prop
  | identifier {name : String} {legacy : Legacy} (form : index.form = .string name legacy) :
      Indexes index (.identifier name)
  | string {value : String} {legacy : Legacy} (form : index.form = .string value legacy) :
      Indexes index (.string value)
  | number {value : String} {legacy : Legacy} (form : index.form = .number value legacy) :
      Indexes index (.number value)

/-- A node accesses a member, or the type of one, by a literal in brackets. -/
inductive Node.AccessesBy (node : Node) (literal : KeyLiteral) : Prop
  | value {object key : Node} (form : node.form = .index) (parts : node.children = [object, key])
      (indexes : key.Indexes literal)
  | type {object index leaf : Node} (form : node.form = .indexedAccess)
      (parts : node.children = [object, index]) (type : index.form = .literalType)
      (written : index.children = [leaf]) (indexes : leaf.Indexes literal)

/-- The literal is a number. -/
def KeyLiteral.IsNumber (literal : KeyLiteral) : Prop :=
  ∃ value, literal = .number value

theorem Node.Indexes.form_of_not_number {index : Node} {literal : KeyLiteral}
    (indexes : index.Indexes literal) (named : ¬ literal.IsNumber) :
    ∃ legacy, index.form = .string literal.name legacy := by
  cases indexes with
  | identifier form => exact ⟨_, form⟩
  | string form => exact ⟨_, form⟩
  | number form => exact absurd ⟨_, rfl⟩ named

theorem Node.Indexes.form_of_number {index : Node} {literal : KeyLiteral}
    (indexes : index.Indexes literal) (number : literal.IsNumber) :
    ∃ legacy, index.form = .number literal.name legacy := by
  obtain ⟨_, rfl⟩ := number
  cases indexes with
  | number form => exact ⟨_, form⟩

/-- An access by a name or a string mentions the member that the literal is the key of. -/
theorem Node.AccessesBy.mentions {node : Node} {literal : KeyLiteral}
    (accesses : node.AccessesBy literal) (named : ¬ literal.IsNumber) (inQuery : Prop) :
    ∃ m, Mentions node inQuery m ∧ m.name = literal.name ∧ m.kind ≠ .declaration := by
  cases accesses with
  | value form parts indexes =>
    obtain ⟨_, string⟩ := indexes.form_of_not_number named
    exact ⟨_, .index form parts string, rfl, by simp⟩
  | type form parts type written indexes =>
    obtain ⟨_, string⟩ := indexes.form_of_not_number named
    exact ⟨_, .indexedAccess form parts type written string, rfl, by simp⟩

/-- An access by a number mentions no member. -/
theorem Node.AccessesBy.not_mentions {node : Node} {literal : KeyLiteral}
    (accesses : node.AccessesBy literal) (number : literal.IsNumber) (inQuery : Prop)
    (m : Mention) : ¬ Mentions node inQuery m := by
  intro mentions
  cases accesses with
  | value form parts indexes =>
    obtain ⟨_, written⟩ := indexes.form_of_number number
    refine (MentionsNothing.index form parts ?_).not_mentions m mentions
    simp [written]
  | type form parts type written indexes =>
    obtain ⟨_, digits⟩ := indexes.form_of_number number
    cases mentions with
    | indexedAccess _ parts' _ written' string =>
      obtain ⟨_, rfl⟩ : _ ∧ _ = _ := by simpa using parts.symm.trans parts'
      obtain rfl : _ = _ := by simpa using written.symm.trans written'
      exact absurd (digits.symm.trans string) (by simp)
    | _ => simp_all

/-- A member of a class declares a method with a literal as its key. -/
def Node.DeclaresWith (member : Node) (literal : KeyLiteral) (m : Method) : Prop :=
  (member.part 1).Writes literal ∧
    ∃ lines hasBody, declaredMethod? lines member = some (m, hasBody)

/-- A method is called by the literal that it is declared with. -/
theorem Node.DeclaresWith.name_eq {member : Node} {literal : KeyLiteral} {m : Method}
    (declares : member.DeclaresWith literal m) : m.name = literal.name := by
  obtain ⟨writes, lines, hasBody, declared⟩ := declares
  unfold declaredMethod? at declared
  split at declared
  next role traits _ key function form parts =>
    have spelled : key.keyName? = some literal.name := by
      have at_ : member.part 1 = key := by simp [Node.part, parts]
      exact at_ ▸ writes.keyName_eq
    simp only [spelled, Option.map_some] at declared
    cases role with
    | method | constructor =>
      obtain ⟨rfl, _⟩ := Prod.mk.inj (Option.some.inj declared)
      rfl
    | getter | setter => cases declared
  · cases declared

end Script

/-! ### Methods of loaded projects -/

namespace Project

open Detection References

/-- A file of a loaded project holds the mentions in its tree. -/
theorem HasTree.exists_exactRefs {disk : Disk} {place : Whereabouts} {scan : Config.Scan}
    {project : Project} (loaded : Project.load disk place scan = .ok project) {path : Path}
    {program : Node} (tree : project.HasTree disk path program) :
    ∃ file ∈ project.files, ∃ lines, program.ExactRefs lines file.refs := by
  obtain ⟨set, targets, _, _, files, _, _, _, read, _, linked⟩ := exists_of_loadWith _ _ _ _ loaded
  obtain ⟨linkedFile, member, rfl⟩ := List.mem_map.mp tree.present
  have origin := member
  rw [linked, Imports.linkDefaults] at origin
  obtain ⟨marked, inside, rfl⟩ := List.mem_map.mp origin
  obtain ⟨file, present, rfl⟩ := List.mem_map.mp inside
  -- Marking and linking leave the references of a file as they are read.
  obtain ⟨lines, program', parses, outlined⟩ := exists_outline_of_read (read file present)
  obtain rfl : program = program' := Option.some.inj (tree.parses.symm.trans parses)
  refine ⟨_, member, lines, ?_⟩
  have exact_ := exactRefs_outline file.path lines program
  rw [← outlined] at exact_
  exact exact_

/-- In a loaded project, no method is found that is declared with a name or a string by which some
file accesses a member in brackets. An access by a number mentions nothing. -/
theorem accessed_key_not_found {disk : Disk} {place : Whereabouts} {scan : Config.Scan}
    {project : Project} (loaded : Project.load disk place scan = .ok project) {path : Path}
    {program : Node} (tree : project.HasTree disk path program) {position : List Nat} {node : Node}
    (at_ : program.nodeAt? position = some node) {literal : KeyLiteral}
    (accesses : node.AccessesBy literal) :
    (¬ literal.IsNumber → ∀ keepGoing, ∃ d,
      run project (find (Index.ofProject project)) keepGoing = .ok d ∧
      ∀ (member : Node) (m : Method), member.DeclaresWith literal m →
        ∀ finding ∈ d.findings, finding.method ≠ m.name) ∧
    (literal.IsNumber → ∀ m, ¬ program.MentionsAt position m) := by
  constructor
  · intro named keepGoing
    obtain ⟨d, result, found⟩ := run_found project keepGoing
    refine ⟨d, result, ?_⟩
    intro member m declares finding reported same
    obtain ⟨file, present, lines, exact_⟩ := tree.exists_exactRefs loaded
    obtain ⟨mention, mentions, called, used⟩ := accesses.mentions named (program.InQuery position)
    -- The mention is among the references, under the name of the method that would be silent.
    have listed := exact_.mem ⟨node, at_, mentions⟩
    rw [found] at reported
    obtain ⟨_, _, inside⟩ := List.mem_flatMap.mp reported
    have silent := silent_of_mem_foundInFile inside
    exact used (silent.unnamed file present _ listed
      (called.trans (declares.name_eq.symm.trans same.symm)))
  · rintro number m ⟨node', at', mentions⟩
    obtain rfl : node = node' := Option.some.inj (at_.symm.trans at')
    exact accesses.not_mentions number _ m mentions

/-! ### A class with a numbered method -/

/-- A project of one file. Its class declares a method with a number and one with a name, and both
are accessed in brackets. -/
def keyedDisk : Disk where
  root := .dir [("p", .dir [
    ("tsconfig.json", .file "\x7b\"files\":[\"src/a.ts\"],\"exclude\":[]\x7d".toUTF8),
    ("src", .dir [
      ("a.ts", .file "class A\x7b1()\x7b\x7dr()\x7b\x7d\x7dx['r'];x[1]".toUTF8)])])]
  current := "/"

def keyedFile : SourceFile where
  path := "/p/src/a.ts"
  classes := [⟨some "A", none, 1,
    [⟨"1", .pub, false, .method, 1, 8⟩, ⟨"r", .pub, false, .method, 1, 13⟩]⟩]
  refs := [⟨"r", .access, 1, 21⟩]
  imports := []
  requests := []
  exported := none
  isTarget := false

def keyedProject : Project :=
  ⟨[{ keyedFile with isTarget := true }]⟩

def keyedSet : Config.FileSet :=
  ⟨"/p", ["/p/src/a.ts"], [], [], false⟩

theorem keyedFile_read : SourceFile.read keyedDisk "/p/src/a.ts" = .ok keyedFile := by
  decide +kernel

theorem keyedSet_load : Config.FileSet.load keyedDisk pairPlace.manifest = .ok keyedSet := by
  decide +kernel

open Loading in
/-- A file that asks for no other is read alone. -/
theorem drain_alone {read : Path → Except Failure SourceFile}
    {leads : Path → SourceFile → List Path} {p : Path} {file : SourceFile}
    (readable : read p = .ok file) (nowhere : leads p file = []) (fuel : Nat) :
    drain read leads false (fuel + 2) (meet ∅ [p]) [p] [] = .ok [file] := by
  simp [drain, readable, nowhere, Path.distinctBeyond]

/-- The bound of the loop suffices for one file. -/
theorem exists_pathCount : ∃ fuel, Disk.pathCount = fuel + 2 :=
  Nat.exists_eq_add_of_le' (Nat.succ_le_of_lt
    (Path.length_lt_pathCount ["/p/src/a.js"] (by decide) (by decide)))

open Loading in
/-- A project that lists one file, which asks for no other. -/
theorem load_alone {disk : Disk} {place : Whereabouts} {dir p : Path} {allowJs : Bool}
    (manifest : Config.FileSet.load disk place.manifest = .ok ⟨dir, [p], [], [], allowJs⟩)
    (present : disk.hasFile p = true) {file : SourceFile}
    (readable : SourceFile.read disk p = .ok file) (alone : file.requests = []) {project : Project}
    (linked : (Targets.ofScan place.sourceDir .standard).map (fun targets =>
      Imports.linkDefaults disk allowJs [mark targets file]) = .ok project.files) :
    Project.load disk place .standard = .ok project := by
  obtain ⟨fuel, enough⟩ := exists_pathCount
  have drained : drain (SourceParser.standard.read disk) (leads disk allowJs)
      Config.Scan.standard.keepGoing Disk.pathCount (meet ∅ [p]) [p] [] = .ok [file] := by
    rw [enough]
    exact drain_alone readable (by rw [leads, alone, List.filterMap_nil]) fuel
  exact loadWith_of_drain .standard disk place .standard manifest (gather_of_listed present)
    drained linked

theorem keyedProject_load : Project.load keyedDisk pairPlace .standard = .ok keyedProject :=
  load_alone keyedSet_load (by decide +kernel) keyedFile_read rfl (by decide +kernel)

/-- The tree of the file. -/
def keyedTree : Node :=
  (keyedDisk.tree? "/p/src/a.ts").getD .absent

/-- The forms of a node and of its parts. -/
def forms (node : Node) : Form × List Form :=
  (node.form, node.children.map (·.form))

theorem accessesBy_of_forms {node : Node} {object written : Form} {literal : KeyLiteral}
    (shape : forms node = (.index, [object, written]))
    (indexes : ∀ key : Node, key.form = written → key.Indexes literal) :
    node.AccessesBy literal := by
  obtain ⟨form, children⟩ := Prod.mk.inj shape
  obtain ⟨first, rest, parts, _, tail⟩ := List.map_eq_cons_iff.mp children
  obtain ⟨key, last, rfl, same, nothing⟩ := List.map_eq_cons_iff.mp tail
  obtain rfl := List.map_eq_nil_iff.mp nothing
  exact .value form parts (indexes key same)

theorem keyedTree_shape :
    (keyedDisk.tree? "/p/src/a.ts").isSome = true ∧
      (keyedTree.nodeAt? [1, 0]).map forms =
        some (.index, [.reference "x", .string "r" .none]) ∧
      (keyedTree.nodeAt? [2, 0]).map forms =
        some (.index, [.reference "x", .number "1" .none]) ∧
      (keyedTree.nodeAt? [0, 6, 0]).map (fun member => ((member.part 1).form,
          declaredMethod? (Text.LineTable.ofBytes ByteArray.empty) member)) =
        some (.number "1" .none, some (⟨"1", .pub, false, .method, 1, 8⟩, true)) := by
  decide +kernel

theorem keyedProject_tree : keyedProject.HasTree keyedDisk "/p/src/a.ts" keyedTree where
  present := by simp [keyedProject, keyedFile]
  parses := (Option.getD_of_ne_none (Option.isSome_iff_ne_none.mp keyedTree_shape.1) _).symm

theorem accessed_key_not_found_keyed :
    Project.load keyedDisk pairPlace .standard = .ok keyedProject ∧
      keyedProject.HasTree keyedDisk "/p/src/a.ts" keyedTree ∧
      ∃ node, keyedTree.nodeAt? [1, 0] = some node ∧ node.AccessesBy (.identifier "r") ∧
        ∃ d, run keyedProject (find (Index.ofProject keyedProject)) false = .ok d ∧
          ∀ (member : Node) (m : Method), member.DeclaresWith (.identifier "r") m →
            ∀ finding ∈ d.findings, finding.method ≠ m.name := by
  obtain ⟨_, access, _⟩ := keyedTree_shape
  obtain ⟨node, at_, shape⟩ := Option.map_eq_some_iff.mp access
  have accesses : node.AccessesBy (.identifier "r") :=
    accessesBy_of_forms shape fun _ form => .identifier form
  have named : ¬ (KeyLiteral.identifier "r").IsNumber := by
    rintro ⟨_, number⟩
    cases number
  exact ⟨keyedProject_load, keyedProject_tree, node, at_, accesses,
    (accessed_key_not_found keyedProject_load keyedProject_tree at_ accesses).1 named false⟩

/-- A method declared with a number is found, although the file accesses it by the number. -/
theorem accessed_number_found :
    Project.load keyedDisk pairPlace .standard = .ok keyedProject ∧
      keyedProject.HasTree keyedDisk "/p/src/a.ts" keyedTree ∧
      (∃ node, keyedTree.nodeAt? [2, 0] = some node ∧ node.AccessesBy (.number "1")) ∧
      (∃ member, keyedTree.nodeAt? [0, 6, 0] = some member ∧
        member.DeclaresWith (.number "1") ⟨"1", .pub, false, .method, 1, 8⟩) ∧
      ∃ d, run keyedProject (find (Index.ofProject keyedProject)) false = .ok d ∧
        ⟨"A", "1", "/p/src/a.ts", 1⟩ ∈ d.findings := by
  obtain ⟨_, _, access, declaration⟩ := keyedTree_shape
  obtain ⟨node, at_, shape⟩ := Option.map_eq_some_iff.mp access
  obtain ⟨member, inside, declared⟩ := Option.map_eq_some_iff.mp declaration
  obtain ⟨key, method⟩ := Prod.mk.inj declared
  obtain ⟨d, result, found⟩ := run_found keyedProject false
  refine ⟨keyedProject_load, keyedProject_tree,
    ⟨node, at_, accessesBy_of_forms shape fun _ form => .number form⟩,
    ⟨member, inside, .number key, _, _, method⟩, d, result, ?_⟩
  rw [found]
  decide +kernel

end Project

end UnusedMethods
