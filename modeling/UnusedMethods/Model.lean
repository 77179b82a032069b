import UnusedMethods.Path

/-!
# The model of a project

A source file is reduced to what the search for unused methods needs: the classes at its top level
with their methods, the places where members are named, the names that its imports bind, and the
modules that it asks for.
-/

namespace UnusedMethods

/-- The visibility of a class member, as its modifier says. -/
inductive Visibility where
  | pub
  | prot
  | priv
deriving DecidableEq, Repr

inductive MethodKind where
  | method
  | constructor
deriving DecidableEq, Repr

structure Method where
  name : String
  visibility : Visibility
  isStatic : Bool
  kind : MethodKind
  line : Nat
  offset : Nat
deriving DecidableEq, Repr

namespace Method

/-- A constructor, or a method with the name of one. -/
def isConstructor (m : Method) : Bool :=
  m.kind == .constructor || m.name == "constructor"

/-- A method that is worth reporting: outside code can call it, and by its own name. -/
def isEligible (m : Method) : Bool :=
  m.visibility != .priv && !m.isStatic && !m.isConstructor

end Method

/-- A class declaration; a class may lack a name. -/
structure ClassDecl where
  name : Option String
  superclass : Option String
  line : Nat
  methods : List Method
deriving DecidableEq, Repr

/-- How a place refers to a method. -/
inductive ReferenceKind where
  | declaration
  | access
  /-- A property of a destructuring pattern. -/
  | destructure
  /-- A name inside a type. -/
  | typeQuery
  /-- A declaration of the same name in a related class. -/
  | overriding
deriving DecidableEq, Repr

/-- A place where a member is named. -/
structure MemberRef where
  name : String
  kind : ReferenceKind
  line : Nat
  offset : Nat
deriving DecidableEq, Repr

/-- A local name bound to an export of another module. -/
structure ImportBinding where
  name : String
  imported : String
  source : String
deriving DecidableEq, Repr

/-- The name under which a module's default export is imported. -/
def defaultExport : String := "default"

structure SourceFile where
  path : Path
  classes : List ClassDecl
  refs : List MemberRef
  imports : List ImportBinding
  requests : List String
  -- The name behind the default export, if it has one.
  exported : Option String
  isTarget : Bool
deriving DecidableEq, Repr

namespace SourceFile

/-- A file in which nothing is declared and nothing named. -/
def blank (path : Path) : SourceFile :=
  ⟨path, [], [], [], [], none, false⟩

/-- The name that a local name has in the module it is imported from. -/
def importedName (file : SourceFile) (name : String) : Option String :=
  -- Of several bindings of one name the first counts.
  (file.imports.find? (·.name == name)).map (·.imported)

end SourceFile

/-- A project: its files in loading order. -/
structure Project where
  files : List SourceFile
deriving DecidableEq, Repr

/-- The files that are searched, with their positions. -/
def Project.targets (project : Project) : List (Nat × SourceFile) :=
  (project.files.zipIdx.filter (·.1.isTarget)).map fun (file, i) => (i, file)

/-! ### Positions -/

theorem zipIdx_pairwise {α : Type} (xs : List α) : xs.zipIdx.Pairwise fun a b => a.2 < b.2 := by
  have increasing : (xs.zipIdx.map (·.2)).Pairwise (· < ·) := by
    rw [List.zipIdx_map_snd]
    exact List.pairwise_lt_range'
  exact List.pairwise_map.mp increasing

end UnusedMethods
