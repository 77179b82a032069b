import UnusedMethods.Model
import UnusedMethods.Reachability

/-!
# Class hierarchies

Classes are known by name: two declarations of one name count as one class. An edge leads from
each named class to the class it extends, under the name that the class has where it is declared.
So a collision of names can only make more classes related, never fewer.
-/

namespace UnusedMethods

/-- Where a class is declared: the position of its file and its position in the file. -/
structure ClassLocation where
  file : Nat
  cls : Nat
deriving DecidableEq, Repr

/-- The named classes of a project and who extends whom. -/
structure Hierarchy where
  /-- The declarations, in increasing order of location. -/
  declared : List (String × ClassLocation)
  /-- From each class to the class it extends. -/
  edges : List (String × String)
deriving Repr

namespace Hierarchy

/-- The name of the class that a superclass name stands for in a file. -/
def superName (file : SourceFile) (superclass : String) : String :=
  match file.importedName superclass with
  -- A default export that is not linked to a name is known by its local name.
  | some imported => if imported != defaultExport then imported else superclass
  | none => superclass

def declaredIn (file : SourceFile) (i : Nat) : List (String × ClassLocation) :=
  file.classes.zipIdx.filterMap fun (cls, j) => cls.name.map fun name => (name, ⟨i, j⟩)

def edgesIn (file : SourceFile) : List (String × String) :=
  file.classes.filterMap fun cls =>
    match cls.name, cls.superclass with
    | some name, some superclass => some (name, superName file superclass)
    | _, _ => none

def ofFiles (files : List SourceFile) : Hierarchy :=
  ⟨files.zipIdx.flatMap fun (file, i) => declaredIn file i, files.flatMap edgesIn⟩

/-- The graph from classes to the classes they extend. -/
def graph (h : Hierarchy) : Graph :=
  ⟨h.declared.map (·.1) ++ h.edges.map (·.2), h.edges⟩

def contains (h : Hierarchy) (name : String) : Bool :=
  h.graph.nodes.contains name

/-- The names that a class extends, directly or not, other than its own. -/
def ancestors (h : Hierarchy) (name : String) : List String :=
  (h.graph.reachableFrom [name]).filter (· != name)

/-- The names that extend a class, directly or not, other than its own. -/
def descendants (h : Hierarchy) (name : String) : List String :=
  (h.graph.reverse.reachableFrom [name]).filter (· != name)

/-- The names related to a class. -/
def relatedNames (h : Hierarchy) (name : String) : List String :=
  h.ancestors name ++ h.descendants name

/-- The declarations of the classes related to a class, in increasing order of location. -/
def related (h : Hierarchy) (name : String) : List ClassLocation :=
  let names := h.relatedNames name
  (h.declared.filter fun (n, _) => names.contains n).map (·.2)

end Hierarchy

end UnusedMethods
