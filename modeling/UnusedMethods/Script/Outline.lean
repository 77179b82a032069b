import UnusedMethods.Script.Occurrence
import UnusedMethods.Text.Lines

/-!
# Outlines

The outline of a parsed text: its top-level classes with their methods, the members that it
mentions, and what it imports and exports. Signatures that only overload a method are not counted
beside the method.
-/

namespace UnusedMethods.Script

open Text (LineTable)

/-- The visibility that a member's accessibility gives it. -/
def visibilityOf : Option Accessibility → Visibility
  | some .private_ => .priv
  | some .protected_ => .prot
  | some .public_ => .pub
  | none => .pub

/-- A method as a member of a class declares it, and whether the declaration has a body. Accessors
are not methods, and a key that does not spell a name declares none. -/
def declaredMethod? (lines : LineTable) (member : Node) : Option (Method × Bool) :=
  match member.form, member.children with
  | .method role traits, [_, key, function] =>
    let declare (kind : MethodKind) : Option (Method × Bool) :=
      key.keyName?.map fun name =>
        (⟨name, visibilityOf traits.accessibility, traits.isStatic, kind, lines.line key.start,
          key.start⟩, (function.part 4).isPresent)
    match role with
    | .method => declare .method
    | .constructor => declare .constructor
    | .getter => none
    | .setter => none
  | _, _ => none

/-- Add a declaration to those before it, which stand in reverse order: it replaces the last one if
that is a signature of the same method. -/
def addDeclaration (before : List (Method × Bool)) (next : Method × Bool) :
    List (Method × Bool) :=
  match before with
  | (last, hasBody) :: rest =>
    -- Only the declaration right before it: a class lists its overloads next to each other.
    if last.name == next.1.name && last.isStatic == next.1.isStatic && !hasBody then next :: rest
    else next :: before
  | [] => [next]

/-- Methods without the signatures that overload them. -/
def collapseOverloads (declared : List (Method × Bool)) : List Method :=
  ((declared.foldl addDeclaration []).reverse).map (·.1)

def boundText? (node : Node) : Option String :=
  match node.form with
  | .name text => some text
  | _ => none

/-- The name of an extended class: a variable, or a member of a namespace. -/
def superclassName? (node : Node) : Option String :=
  match node.form with
  | .reference name => some name
  | .member name _ => some name
  | _ => none

def classOutline (lines : LineTable) (node : Node) : ClassDecl where
  name := boundText? (node.part 1)
  superclass := superclassName? (node.part 3)
  line := lines.line node.start
  methods := collapseOverloads ((node.part 6).children.filterMap (declaredMethod? lines))

/-- The class that a node declares, not as an expression. -/
def declaredClass? (node : Node) : Option Node :=
  match node.form with
  | .class_ traits => if traits.isExpression then none else some node
  | _ => none

/-- The class that a statement declares, exported or not. -/
def topClass? (statement : Node) : Option Node :=
  match statement.form with
  | .exportNamed _ => declaredClass? (statement.part 0)
  | .exportDefault => declaredClass? (statement.part 0)
  | _ => declaredClass? statement

/-- The name behind the default export that a statement makes, if it has one. -/
def exportedName? (statement : Node) : Option String :=
  match statement.form with
  | .exportDefault =>
    let exported := statement.part 0
    match exported.form with
    | .reference name => some name
    | .class_ traits => if traits.isExpression then none else boundText? (exported.part 1)
    | _ => none
  | _ => none

def outline (path : Path) (lines : LineTable) (program : Node) : SourceFile :=
  let occurrences := program.occurrences
  { path := path
    classes := (program.children.filterMap topClass?).map (classOutline lines)
    refs := occurrences.filterMap fun o =>
      o.mention?.map fun m => ⟨m.name, m.kind, lines.line m.place, m.place⟩
    imports := occurrences.flatMap (·.bindings)
    requests := occurrences.filterMap (·.request?)
    exported := program.children.findSome? exportedName?
    isTarget := false }

end UnusedMethods.Script
