import UnusedMethods.Proofs.Linking
import UnusedMethods.Proofs.NameCollision

/-!
# Base classes that are imported

A class whose base is imported from another file of its project is related to the class that the
other file exports, if the export and the import call it by names that the outlines keep: the name
of the class itself, or the default. Then methods of one name in the two classes count as
overriding each other, and neither is found unused. An export under another name is not followed.
-/

namespace UnusedMethods

open Script Relation

/-! ### Files with their trees -/

/-- The tree to which the text of a file on a disk is parsed. -/
def Disk.tree? (disk : Disk) (path : Path) : Option Node :=
  match disk.read path, Dialect.ofPath? path with
  | .ok bytes, some dialect => (parseProgram dialect (Text.decodeLossy bytes)).toOption
  | _, _ => none

/-- A file that is read is the outline of its tree. -/
theorem exists_outline_of_read {disk : Disk} {path : Path} {file : SourceFile}
    (read : SourceFile.read disk path = .ok file) :
    ∃ lines program, disk.tree? path = some program ∧ file = outline path lines program := by
  unfold SourceFile.read SourceParser.read at read
  split at read
  · cases read
  next bytes present =>
    obtain ⟨dialect, program, known, tree, outlined⟩ :=
      readSource_eq_ok (SourceFile.readSource_of_ofBytes read)
    refine ⟨_, program, ?_, outlined⟩
    simp [Disk.tree?, present, known, tree, Except.toOption]

/-- A project has a file at a path, and the file has a tree. -/
structure Project.HasTree (project : Project) (disk : Disk) (path : Path) (program : Node) :
    Prop where
  present : path ∈ project.files.map (·.path)
  parses : disk.tree? path = some program

/-! ### Ways to name a base class -/

namespace Imports

/-- A request of a file leads to another file. -/
def LeadsTo (disk : Disk) (allowJs : Bool) (file : Path) (request : String) (target : Path) :
    Prop :=
  ∃ path, resolveFrom? disk allowJs file request = some path ∧ path.key = target.key

/-- What a file writes for a base class refers to what another file exports under a name. -/
inductive BaseFrom (disk : Disk) (allowJs : Bool) (file : Path) (program : Node) (target : Path) :
    Node → String → Prop
  | imported {base : Node} {binding : ImportBinding} (written : base.form = .reference binding.name)
      (bound : binding ∈ program.importBindings)
      (leads : LeadsTo disk allowJs file binding.source target) :
      BaseFrom disk allowJs file program target base binding.imported
  | member {base : Node} {name object source : String} {place : Nat}
      (written : base.form = .member name place)
      (qualified : (base.part 0).form = .reference object)
      (bound : program.ImportsAll object source) (leads : LeadsTo disk allowJs file source target) :
      BaseFrom disk allowJs file program target base name

/-- What a file writes for a base class refers to a class that another file exports, by the name of
the class or as the default, and no import of something else comes in between. -/
inductive KeepsBase (disk : Disk) (allowJs : Bool) (file : Path) (program : Node) (target : Path)
    (exporting : Node) (name : String) : Node → Prop
  | named {base : Node} {written source : String} (reference : base.form = .reference written)
      (first : program.FirstImport ⟨written, name, source⟩)
      (leads : LeadsTo disk allowJs file source target) (exports : exporting.Exports name name)
      (proper : name ≠ defaultExport) :
      KeepsBase disk allowJs file program target exporting name base
  | byDefault {base : Node} {written source : String} (reference : base.form = .reference written)
      (first : program.FirstImport ⟨written, defaultExport, source⟩)
      (leads : LeadsTo disk allowJs file source target) (exports : exporting.FirstDefault name)
      (proper : name ≠ defaultExport) :
      KeepsBase disk allowJs file program target exporting name base
  | member {base : Node} {object source : String} {place : Nat}
      (written : base.form = .member name place)
      (qualified : (base.part 0).form = .reference object)
      (bound : program.ImportsAll object source) (leads : LeadsTo disk allowJs file source target)
      (exports : exporting.Exports name name)
      (others : ∀ imported source, program.FirstImport ⟨name, imported, source⟩ →
        imported = name ∧ name ≠ defaultExport) :
      KeepsBase disk allowJs file program target exporting name base

/-- The ways that are kept are ways to refer to an exported class. -/
theorem KeepsBase.baseFrom {disk : Disk} {allowJs : Bool} {file target : Path}
    {program exporting base : Node} {name : String}
    (keeps : KeepsBase disk allowJs file program target exporting name base) :
    ∃ exported, exporting.Exports name exported ∧
      BaseFrom disk allowJs file program target base exported := by
  cases keeps with
  | named reference first leads exports _ =>
    exact ⟨name, exports, .imported reference first.mem leads⟩
  | byDefault reference first leads exports _ =>
    exact ⟨defaultExport, exports.exports, .imported reference first.mem leads⟩
  | member written qualified bound leads exports _ =>
    exact ⟨name, exports, .member written qualified bound leads⟩

end Imports

/-! ### Loaded projects -/

namespace Project

open Loading Imports

/-- A project consists of files read from plain paths of a disk, marked and linked. -/
structure LoadedFrom (disk : Disk) (allowJs : Bool) (targets : Targets) (files : List SourceFile)
    (project : Project) : Prop where
  read : ∀ file ∈ files, SourceFile.read disk file.path = .ok file
  plain : ∀ file ∈ files, file.path.IsPlain
  different : (files.map (·.path)).Nodup
  linked : project.files = (files.map (mark targets)).map
    (linkFile disk allowJs (defaultNames (files.map (mark targets))))

theorem exists_loadedFrom {disk : Disk} (proper : disk.Proper) {path : Path} {place : Whereabouts}
    (located : Whereabouts.locate disk path = .ok place) {set : Config.FileSet}
    (manifest : Config.FileSet.load disk place.manifest = .ok set) {scan : Config.Scan}
    {project : Project} (loaded : Project.load disk place scan = .ok project) :
    ∃ targets files, LoadedFrom disk set.allowJs targets files project := by
  obtain ⟨set', targets, initial, order, files, manifest', gathered, discovered, read, sublist,
    linked⟩ := exists_of_loadWith _ disk place scan loaded
  obtain rfl : set = set' := Except.ok.inj (manifest.symm.trans manifest')
  obtain ⟨manifestPlain, below⟩ := Whereabouts.isPlain_manifest proper located
  have setPlain := Config.FileSet.plain_of_load proper manifestPlain below manifest
  have plain := discovered.isPlain (isPlain_of_gather proper setPlain gathered)
  refine ⟨targets, files, read, ?_, discovered.nodup.sublist sublist, linked⟩
  intro file member
  exact plain file.path (sublist.subset (List.mem_map_of_mem member))

namespace LoadedFrom

variable {disk : Disk} {allowJs : Bool} {targets : Targets} {files : List SourceFile}
  {project : Project} (from_ : LoadedFrom disk allowJs targets files project)

include from_

theorem exists_outline {path : Path} {program : Node} (tree : project.HasTree disk path program) :
    ∃ lines, outline path lines program ∈ files := by
  have present := tree.present
  rw [from_.linked, List.map_map, List.map_map] at present
  obtain ⟨file, member, rfl⟩ := List.mem_map.mp present
  obtain ⟨lines, program', parses, outlined⟩ := exists_outline_of_read (from_.read file member)
  obtain rfl : program = program' := Option.some.inj (tree.parses.symm.trans parses)
  exact ⟨lines, outlined ▸ member⟩

/-- What a file with a tree has become in the project. -/
theorem linkFile_mem {file : SourceFile} (member : file ∈ files) :
    linkFile disk allowJs (defaultNames (files.map (mark targets))) (mark targets file) ∈
      project.files := by
  rw [from_.linked]
  exact List.mem_map_of_mem (List.mem_map_of_mem member)

/-- Places in loaded files are plain references. -/
theorem plainRefs : project.PlainRefs := by
  intro file member r mentioned
  rw [from_.linked] at member
  obtain ⟨_, marked, rfl⟩ := List.mem_map.mp member
  obtain ⟨file, read, rfl⟩ := List.mem_map.mp marked
  obtain ⟨lines, program, _, outlined⟩ := exists_outline_of_read (from_.read file read)
  have listed : r ∈ (outline file.path lines program).refs := outlined ▸ mentioned
  obtain ⟨occurrence, _, mapped⟩ := List.mem_filterMap.mp listed
  obtain ⟨mention, found, rfl⟩ := Option.map_eq_some_iff.mp mapped
  exact mention_kind occurrence mention found

/-- The default export of a file is known by the path of the file. -/
theorem lookup_default {path : Path} {program : Node} (tree : project.HasTree disk path program)
    {name : String} (first : program.FirstDefault name) :
    (defaultNames (files.map (mark targets))).lookup path = some name := by
  obtain ⟨lines, member⟩ := from_.exists_outline tree
  -- Plain paths are clean, so they stay different as keys of the table.
  have cleaned : ((files.map (mark targets)).map fun file => Path.clean file.path) =
      files.map (·.path) := by
    rw [List.map_map]
    exact List.map_congr_left fun file member => (from_.plain file member).clean_eq
  have found := lookup_defaultNames (cleaned ▸ from_.different)
    (List.mem_map_of_mem (f := mark targets) member) (exported_outline path lines first)
  rwa [show Path.clean (mark targets (outline path lines program)).path = path from
    (from_.plain _ member).clean_eq] at found

/-- A request that leads to a file of the project resolves to its very path. -/
theorem resolve_of_leadsTo {path target : Path} {program exporting : Node}
    (tree : project.HasTree disk path program) (other : project.HasTree disk target exporting)
    {request : String} (leads : LeadsTo disk allowJs path request target) :
    resolveFrom? disk allowJs path request = some target := by
  obtain ⟨found, resolved, same⟩ := leads
  obtain ⟨_, member⟩ := from_.exists_outline tree
  obtain ⟨_, member'⟩ := from_.exists_outline other
  have foundPlain := isPlain_of_resolveFrom disk allowJs path found (from_.plain _ member) request
    resolved
  have targetPlain : target.IsPlain := from_.plain _ member'
  -- Plain paths are their own keys, so paths to one file are equal.
  rw [foundPlain.key_eq, targetPlain.key_eq] at same
  exact same ▸ resolved

/-- What a file writes for a base class that is kept stands for the exported class. -/
theorem standsFor {path target : Path} {program exporting base : Node} {name : String}
    (tree : project.HasTree disk path program) (other : project.HasTree disk target exporting)
    (keeps : KeepsBase disk allowJs path program target exporting name base)
    (lines : Text.LineTable) :
    ∃ written, superclassName? base = some written ∧
      (linkFile disk allowJs (defaultNames (files.map (mark targets)))
        (mark targets (outline path lines program))).StandsFor written name := by
  cases keeps with
  | @named written source reference first _ _ proper =>
    refine ⟨written, by simp [superclassName?, reference], .imported name ?_ proper⟩
    rw [importedName_linkFile]
    have found : (mark targets (outline path lines program)).imports.find? (·.name == written) =
        some ⟨written, name, source⟩ := find_of_firstImport first
    -- Linking touches imports of defaults only.
    rw [found, Option.map_some, linkBinding_of_ne proper]
  | @byDefault written source reference first leads exports proper =>
    refine ⟨written, by simp [superclassName?, reference], .imported name ?_ proper⟩
    rw [importedName_linkFile]
    have found : (mark targets (outline path lines program)).imports.find? (·.name == written) =
        some ⟨written, defaultExport, source⟩ := find_of_firstImport first
    rw [found, Option.map_some]
    exact congrArg some (linkBinding_of_default rfl (from_.resolve_of_leadsTo tree other leads)
      (from_.lookup_default other exports))
  | member written _ _ _ _ others =>
    -- The outline keeps the member alone, which is then looked up like a name of the file's own.
    refine ⟨name, by simp [superclassName?, written], ?_⟩
    have looked := importedName_linkFile disk allowJs (defaultNames (files.map (mark targets)))
      (mark targets (outline path lines program)) name
    cases bound : program.importBindings.find? (·.name == name) with
    | none =>
      have absent : (mark targets (outline path lines program)).imports.find? (·.name == name) =
        none := bound
      rw [absent] at looked
      exact .own looked
    | some binding =>
      have found : (mark targets (outline path lines program)).imports.find? (·.name == name) =
        some binding := bound
      obtain ⟨rfl, first⟩ := firstImport_of_find bound
      obtain ⟨same, proper⟩ := others binding.imported binding.source first
      rw [found, Option.map_some, linkBinding_of_ne (same ▸ proper), same] at looked
      exact .imported _ looked proper

/-- A class whose base is kept extends the exported class. -/
theorem extends_of_keepsBase {path target : Path} {program exporting cls : Node}
    {sub super : String} (tree : project.HasTree disk path program)
    (other : project.HasTree disk target exporting) (held : program.HoldsAtTop cls)
    (declares : cls.DeclaresClass sub)
    (keeps : KeepsBase disk allowJs path program target exporting super (cls.part 3)) :
    Extends project.files sub super := by
  obtain ⟨lines, member⟩ := from_.exists_outline tree
  obtain ⟨written, superclass, stands⟩ := from_.standsFor tree other keeps lines
  exact ⟨_, from_.linkFile_mem member, classOutline lines cls,
    classOutline_mem path lines held declares, written, boundText_eq_some declares, superclass,
    stands⟩

end LoadedFrom

end Project

/-! ### Methods of related classes -/

/-- No method of a class is reported if a related class declares a counterpart of its name. -/
theorem Detection.className_ne_of_related {project : Project} (plain : project.PlainRefs)
    {className other name : String} (related : Related project.files className other)
    {id : MethodId} {file : SourceFile} {cls : ClassDecl} {m : Method}
    (at_ : MethodAt project.files id file cls m) (named : cls.name = some other)
    (twin : m.Counterpart name) (finding : Finding)
    (found : finding ∈ (reports project).map (·.2)) (same : finding.method = name) :
    finding.className ≠ className := by
  rintro rfl
  obtain ⟨⟨id', _⟩, reported, rfl⟩ := List.mem_map.mp found
  obtain ⟨⟨file', cls', m', className', at', unused⟩, described⟩ :=
    (mem_reports plain _ _).mp reported
  obtain ⟨file'', cls'', m'', className'', at'', named'', rfl⟩ := described
  obtain ⟨rfl, rfl, rfl⟩ := at'.unique at''
  obtain rfl : className' = className'' := Option.some.inj (unused.named.symm.trans named'')
  -- The method of the finding would have a counterpart in a related class.
  exact unused.unmatched file (List.mem_of_getElem? at_.present) cls
    (List.mem_of_getElem? at_.declared) other named related m (List.mem_of_getElem? at_.listed)
    ⟨twin.named.trans same.symm, twin.dynamic, twin.kind⟩

namespace Project

open References Detection

/-- In a loaded project, a class whose base is imported from another file, by its own name or as the
default, has the exported class among its ancestors. Methods of instances of one name in two such
classes override each other, and no finding tells of either. -/
theorem inherits_imported_base {disk : Disk} (proper : disk.Proper) {path : Path}
    {place : Whereabouts} (located : Whereabouts.locate disk path = .ok place)
    {set : Config.FileSet} (manifest : Config.FileSet.load disk place.manifest = .ok set)
    {scan : Config.Scan} {project : Project} (loaded : Project.load disk place scan = .ok project)
    {importer exporter : Path} {importing exporting : Node}
    (tree : project.HasTree disk importer importing)
    (other : project.HasTree disk exporter exporting) {cls : Node} {sub super : String}
    (held : importing.HoldsAtTop cls) (declares : cls.DeclaresClass sub) (different : sub ≠ super)
    (keeps : Imports.KeepsBase disk set.allowJs importer importing exporter exporting super
      (cls.part 3)) :
    super ∈ (Hierarchy.ofFiles project.files).ancestors sub ∧
      ∀ {a b : MethodId} {fileA fileB : SourceFile} {clsA clsB : ClassDecl} {mA mB : Method}
        {name : String}, MethodAt project.files a fileA clsA mA →
        MethodAt project.files b fileB clsB mB → clsA.name = some sub → clsB.name = some super →
        mA.Counterpart name → mB.Counterpart name →
        ListsOverride project a b ∧ ListsOverride project b a ∧
          ∀ keepGoing, ∃ d, run project (find (Index.ofProject project)) keepGoing = .ok d ∧
            ∀ finding ∈ d.findings, finding.method = name →
              finding.className ≠ sub ∧ finding.className ≠ super := by
  obtain ⟨targets, files, from_⟩ := exists_loadedFrom proper located manifest loaded
  have extends_ := from_.extends_of_keepsBase tree other held declares keeps
  have related : Related project.files sub super := ⟨different.symm, Or.inl (.single extends_)⟩
  refine ⟨(Hierarchy.mem_ancestors ..).mpr ⟨different.symm, .single extends_⟩, ?_⟩
  intro a b fileA fileB clsA clsB mA mB name atA atB namedA namedB twinA twinB
  refine ⟨listsOverride_of_related atA atB namedA namedB twinA twinB related,
    listsOverride_of_related atB atA namedB namedA twinB twinA related.symm, ?_⟩
  -- Each method is listed among the other's overrides, so neither is found unused.
  intro keepGoing
  obtain ⟨d, result, _, found⟩ := run_eq_ok project keepGoing
  refine ⟨d, result, ?_⟩
  intro finding member same
  rw [found] at member
  exact ⟨className_ne_of_related from_.plainRefs related atB namedB twinB finding member same,
    className_ne_of_related from_.plainRefs related.symm atA namedA twinA finding member same⟩

/-! ### Two files with classes -/

/-- The outline of the file that imports a class under two names. -/
def pairImporter : SourceFile where
  path := "/p/src/f.ts"
  classes := [⟨some "D", some "N", 2, [⟨"r", .pub, false, .method, 2, 39⟩]⟩,
    ⟨some "E", some "C", 3, [⟨"r", .pub, false, .method, 3, 64⟩]⟩]
  refs := []
  imports := [⟨"N", "N", "./g"⟩, ⟨"C", "C", "./g"⟩]
  requests := ["./g"]
  exported := none
  isTarget := false

/-- The outline of the file that exports a class under two names. -/
def pairExporter : SourceFile where
  path := "/p/src/g.ts"
  classes := [⟨some "C", none, 3, [⟨"r", .pub, false, .method, 3, 37⟩]⟩]
  refs := []
  imports := []
  requests := ["./f"]
  exported := none
  isTarget := false

def pairProject : Project :=
  ⟨[{ pairImporter with isTarget := true }, { pairExporter with isTarget := true }]⟩

theorem pairImporter_read : SourceFile.read pairDisk "/p/src/f.ts" = .ok pairImporter := by
  decide +kernel

theorem pairExporter_read : SourceFile.read pairDisk "/p/src/g.ts" = .ok pairExporter := by
  decide +kernel

open Loading in
/-- Two files that ask for each other are read once each. -/
theorem drain_of_cycle {read : Path → Except Failure SourceFile}
    {leads : Path → SourceFile → List Path} {p q : Path} {fileP fileQ : SourceFile}
    (readP : read p = .ok fileP) (readQ : read q = .ok fileQ) (fromP : leads p fileP = [q])
    (fromQ : leads q fileQ = [p]) (different : p.key ≠ q.key) (fuel : Nat) :
    drain read leads false (fuel + 3) (meet ∅ [p]) [p] [] = .ok [fileP, fileQ] := by
  simp [drain, readP, readQ, fromP, fromQ, Path.distinctBeyond, meet, different]

open Loading in
theorem pair_drain :
    drain (SourceParser.standard.read pairDisk) (leads pairDisk false) false Disk.pathCount
      (meet ∅ ["/p/src/f.ts"]) ["/p/src/f.ts"] [] = .ok [pairImporter, pairExporter] := by
  have fromImporter : leads pairDisk false "/p/src/f.ts" pairImporter = ["/p/src/g.ts"] := by
    decide +kernel
  have fromExporter : leads pairDisk false "/p/src/g.ts" pairExporter = ["/p/src/f.ts"] := by
    decide +kernel
  have different : Path.key "/p/src/f.ts" ≠ Path.key "/p/src/g.ts" := by decide +kernel
  have two := Path.length_lt_pathCount ["/p/src/f.ts", "/p/src/g.ts"] (by decide) (by decide)
  obtain ⟨fuel, enough⟩ := Nat.exists_eq_add_of_le' (Nat.succ_le_of_lt two)
  rw [enough]
  exact drain_of_cycle pairImporter_read pairExporter_read fromImporter fromExporter different fuel

/-- The project of the two files. -/
theorem pairProject_load : Project.load pairDisk pairPlace .standard = .ok pairProject :=
  loadWith_of_drain .standard pairDisk pairPlace .standard pairSet_load pairSet_gather pair_drain
    (by decide +kernel)

theorem pairDisk_proper : pairDisk.Proper where
  entries := by
    refine .dir _ ?_ ?_
    · simp only [List.mem_singleton, forall_eq]
      exact ⟨by decide, by decide, by simp⟩
    simp only [List.mem_singleton, forall_eq]
    refine .dir _ ?_ ?_
    · simp only [List.mem_cons, List.not_mem_nil, or_false, forall_eq_or_imp, forall_eq]
      exact ⟨⟨by decide, by decide, by simp⟩, ⟨by decide, by decide, by simp⟩⟩
    simp only [List.mem_cons, List.not_mem_nil, or_false, forall_eq_or_imp, forall_eq]
    refine ⟨.file _, .dir _ ?_ ?_⟩
    · simp only [List.mem_cons, List.not_mem_nil, or_false, forall_eq_or_imp, forall_eq]
      exact ⟨⟨by decide, by decide, by simp⟩, ⟨by decide, by decide, by simp⟩⟩
    · simp only [List.mem_cons, List.not_mem_nil, or_false, forall_eq_or_imp, forall_eq]
      exact ⟨.file _, .file _⟩
  rooted := ⟨_, rfl⟩
  current := Path.isAbsolute_slash

theorem pairPlace_locate : Whereabouts.locate pairDisk "/p" = .ok pairPlace := by
  decide +kernel

/-- The tree of a file of the pair. -/
def pairTree (path : Path) : Node :=
  (pairDisk.tree? path).getD .absent

theorem pairTree_importer :
    (pairDisk.tree? "/p/src/f.ts").isSome = true ∧
      (pairTree "/p/src/f.ts").children.length = 3 ∧
      ((pairTree "/p/src/f.ts").part 1).form = .class_ ⟨false, false, false⟩ ∧
      (((pairTree "/p/src/f.ts").part 1).part 1).form = .name "D" ∧
      (((pairTree "/p/src/f.ts").part 1).part 3).form = .reference "N" ∧
      ((pairTree "/p/src/f.ts").part 2).form = .class_ ⟨false, false, false⟩ ∧
      (((pairTree "/p/src/f.ts").part 2).part 1).form = .name "E" ∧
      (((pairTree "/p/src/f.ts").part 2).part 3).form = .reference "C" ∧
      (pairTree "/p/src/f.ts").importBindings = [⟨"N", "N", "./g"⟩, ⟨"C", "C", "./g"⟩] := by
  decide +kernel

theorem pairTree_exporter :
    (pairDisk.tree? "/p/src/g.ts").isSome = true ∧
      (pairTree "/p/src/g.ts").children.length = 3 ∧
      ((pairTree "/p/src/g.ts").part 1).form = .exportNamed none ∧
      ((pairTree "/p/src/g.ts").part 1).children.length = 3 ∧
      (((pairTree "/p/src/g.ts").part 1).part 1).form = .exportName "C" "N" false ∧
      (((pairTree "/p/src/g.ts").part 1).part 2).form = .exportName "C" "C" false ∧
      ((pairTree "/p/src/g.ts").part 2).form = .class_ ⟨false, false, false⟩ ∧
      (((pairTree "/p/src/g.ts").part 2).part 1).form = .name "C" := by
  decide +kernel

theorem pairImporter_tree :
    pairProject.HasTree pairDisk "/p/src/f.ts" (pairTree "/p/src/f.ts") where
  present := by simp [pairProject, pairImporter]
  parses := (Option.getD_of_ne_none (Option.isSome_iff_ne_none.mp pairTree_importer.1) _).symm

theorem pairExporter_tree :
    pairProject.HasTree pairDisk "/p/src/g.ts" (pairTree "/p/src/g.ts") where
  present := by simp [pairProject, pairExporter]
  parses := (Option.getD_of_ne_none (Option.isSome_iff_ne_none.mp pairTree_exporter.1) _).symm

theorem pair_leadsTo :
    Imports.LeadsTo pairDisk false "/p/src/f.ts" "./g" "/p/src/g.ts" :=
  ⟨"/p/src/g.ts", by decide +kernel, rfl⟩

theorem pair_exports (exported : String) (i : Nat) (within : i < 3)
    (form : (((pairTree "/p/src/g.ts").part 1).part i).form = .exportName "C" exported false) :
    (pairTree "/p/src/g.ts").Exports "C" exported := by
  obtain ⟨_, statements, exports, parts, _⟩ := pairTree_exporter
  exact .specified (Node.part_mem _ 1 (by omega)) exports (Node.part_mem _ i (by omega)) form

theorem inherits_imported_base_pair :
    Project.load pairDisk pairPlace .standard = .ok pairProject ∧
      "C" ∈ (Hierarchy.ofFiles pairProject.files).ancestors "E" ∧
      ListsOverride pairProject ⟨0, 1, 0⟩ ⟨1, 0, 0⟩ ∧
      ListsOverride pairProject ⟨1, 0, 0⟩ ⟨0, 1, 0⟩ := by
  obtain ⟨_, statements, _, _, _, cls, named, reference, bindings⟩ := pairTree_importer
  have keeps : Imports.KeepsBase pairDisk pairSet.allowJs "/p/src/f.ts" (pairTree "/p/src/f.ts")
      "/p/src/g.ts" (pairTree "/p/src/g.ts") "C" (((pairTree "/p/src/f.ts").part 2).part 3) :=
    .named reference ⟨[⟨"N", "N", "./g"⟩], [], bindings, by simp⟩ pair_leadsTo
      (pair_exports "C" 2 (by omega) pairTree_exporter.2.2.2.2.2.1) (by decide)
  obtain ⟨ancestor, methods⟩ := inherits_imported_base pairDisk_proper pairPlace_locate pairSet_load
    pairProject_load pairImporter_tree pairExporter_tree
    (.plain (Node.part_mem _ 2 (by omega))) ⟨_, cls, rfl, named⟩ (by decide) keeps
  have twin (m : Method) (plain : m = ⟨"r", .pub, false, .method, m.line, m.offset⟩) :
      m.Counterpart "r" := by
    rw [plain]
    exact ⟨rfl, rfl, rfl⟩
  obtain ⟨forward, backward, _⟩ := methods (a := ⟨0, 1, 0⟩) (b := ⟨1, 0, 0⟩) ⟨rfl, rfl, rfl⟩
    ⟨rfl, rfl, rfl⟩ rfl rfl (twin _ rfl) (twin _ rfl)
  exact ⟨pairProject_load, ancestor, forward, backward⟩

theorem pair_edges : (Hierarchy.ofFiles pairProject.files).edges = [("D", "N"), ("E", "C")] := by
  decide +kernel

/-- A class that is imported under the name of a renaming export is not found. -/
theorem not_inherits_renamed_export :
    Project.load pairDisk pairPlace .standard = .ok pairProject ∧
      pairProject.HasTree pairDisk "/p/src/f.ts" (pairTree "/p/src/f.ts") ∧
      pairProject.HasTree pairDisk "/p/src/g.ts" (pairTree "/p/src/g.ts") ∧
      (∃ cls, (pairTree "/p/src/g.ts").HoldsAtTop cls ∧ cls.DeclaresClass "C") ∧
      (pairTree "/p/src/g.ts").Exports "C" "N" ∧
      (∃ cls, (pairTree "/p/src/f.ts").HoldsAtTop cls ∧ cls.DeclaresClass "D" ∧
        Imports.BaseFrom pairDisk pairSet.allowJs "/p/src/f.ts" (pairTree "/p/src/f.ts")
          "/p/src/g.ts" (cls.part 3) "N") ∧
      "C" ∉ (Hierarchy.ofFiles pairProject.files).ancestors "D" := by
  obtain ⟨_, statements, cls, named, reference, _, _, _, bindings⟩ := pairTree_importer
  obtain ⟨_, statements', _, _, renamed, _, origin, originNamed⟩ := pairTree_exporter
  have base : Imports.BaseFrom pairDisk pairSet.allowJs "/p/src/f.ts" (pairTree "/p/src/f.ts")
      "/p/src/g.ts" (((pairTree "/p/src/f.ts").part 1).part 3) "N" :=
    have bound : ⟨"N", "N", "./g"⟩ ∈ (pairTree "/p/src/f.ts").importBindings := by
      rw [bindings]
      exact List.mem_cons_self
    .imported reference bound pair_leadsTo
  refine ⟨pairProject_load, pairImporter_tree, pairExporter_tree,
    ⟨_, .plain (Node.part_mem _ 2 (by omega)), _, origin, rfl, originNamed⟩,
    pair_exports "N" 1 (by omega) renamed,
    ⟨_, .plain (Node.part_mem _ 1 (by omega)), ⟨_, cls, rfl, named⟩, base⟩, ?_⟩
  rw [Hierarchy.mem_ancestors]
  rintro ⟨_, path⟩
  have edge (a b : String) (extends_ : Extends pairProject.files a b) :
      a = "D" ∧ b = "N" ∨ a = "E" ∧ b = "C" := by
    have listed := (Hierarchy.mem_edges pairProject.files a b).mpr extends_
    rw [pair_edges] at listed
    simpa using listed
  -- The only step from `D` leads to `N`, and none leads on from there.
  obtain ⟨middle, first, rest⟩ := TransGen.head'_iff.mp path
  obtain ⟨_, rfl⟩ | ⟨absurd_, _⟩ := edge _ _ first
  · rcases ReflTransGen.cases_head rest with same | ⟨next, second, _⟩
    · exact absurd same (by decide)
    · have impossible := edge _ _ second
      simp at impossible
  · exact absurd absurd_ (by decide)

end Project

end UnusedMethods
