import Std.Data.HashMap
import UnusedMethods.Failure
import UnusedMethods.Hierarchy

/-!
# References to methods

All places that refer to a method: its declaration, every place that names a member of its name,
and every method of its name in a related class. Names are looked up in an index that is built
once for a project.
-/

namespace UnusedMethods

/-- A method by position: file, class in the file, method in the class. -/
structure MethodId where
  file : Nat
  cls : Nat
  method : Nat
deriving DecidableEq, Repr

/-- A place that refers to a method. -/
structure Location where
  file : Path
  line : Nat
  offset : Nat
  kind : ReferenceKind
deriving DecidableEq, Repr

/-- Finds the references to a method. -/
abbrev Resolver := MethodId → Except Failure (List Location)

namespace References

def ofMethod (path : Path) (kind : ReferenceKind) (m : Method) : Location :=
  ⟨path, m.line, m.offset, kind⟩

def ofRef (path : Path) (r : MemberRef) : Location :=
  ⟨path, r.line, r.offset, r.kind⟩

/-- What is prepared once for a project: its files and hierarchy, and the places of each name in
loading order. -/
structure Index where
  files : Array SourceFile
  hierarchy : Hierarchy
  sites : Std.HashMap String (Array Location)

/-- Add a place to those of a name. -/
def addSite (sites : Std.HashMap String (Array Location)) (path : Path) (r : MemberRef) :
    Std.HashMap String (Array Location) :=
  sites.alter r.name fun old => some ((old.getD #[]).push (ofRef path r))

def Index.ofProject (project : Project) : Index :=
  { files := project.files.toArray
    hierarchy := Hierarchy.ofFiles project.files
    sites := project.files.foldl (fun sites file =>
      file.refs.foldl (fun sites r => addSite sites file.path r) sites) ∅ }

/-- The failure for a position where nothing is. -/
def missing (what : String) (id : MethodId) : Failure :=
  .unresolved "<unknown>" "<unknown>"
    ("no " ++ what ++ " at " ++ toString id.file ++ ":" ++ toString id.cls ++ ":" ++
      toString id.method)

/-- The file, class and method at a position. -/
def lookup (files : Array SourceFile) (id : MethodId) :
    Except Failure (SourceFile × ClassDecl × Method) := do
  let some file := files[id.file]? | throw (missing "file" id)
  let some cls := file.classes[id.cls]? | throw (missing "class" id)
  let some method := cls.methods[id.method]? | throw (missing "method" id)
  return (file, cls, method)

/-- A method that overrides, or is overridden by, methods of the given name. -/
def isCounterpart (name : String) (m : Method) : Bool :=
  m.name == name && !m.isStatic && m.kind == .method

/-- The methods of a name in the class at a location. -/
def counterparts (files : Array SourceFile) (name : String) (l : ClassLocation) :
    List Location :=
  match files[l.file]? with
  | none => []
  | some file =>
    match file.classes[l.cls]? with
    | none => []
    | some cls => (cls.methods.filter (isCounterpart name)).map (ofMethod file.path .overriding)

/-- The methods of the same name in related classes. -/
def overrides (index : Index) (cls : ClassDecl) (m : Method) : List Location :=
  match cls.name with
  | none => []
  | some name =>
    if m.isStatic then []
    else (index.hierarchy.related name).flatMap (counterparts index.files m.name)

def find (index : Index) : Resolver := fun id => do
  let (file, cls, m) ← lookup index.files id
  return ofMethod file.path .declaration m ::
    ((index.sites.getD m.name #[]).toList ++ overrides index cls m)

end References

end UnusedMethods
