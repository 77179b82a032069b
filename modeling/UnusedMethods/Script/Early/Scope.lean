import UnusedMethods.Script.Tree
import UnusedMethods.Script.Complaint
import Std.Data.TreeMap

/-!
# Scopes

Names are declared in scopes. Two declarations of a name in one scope may stand together or clash,
depending on what they declare; a clash is reported at the first of them. A variable declared with
`var` belongs to the nearest function, and it clashes with declarations in all scopes on the way.
-/

namespace UnusedMethods.Script

/-- What a name is declared as. -/
inductive Entity where
  /-- A variable of a function: declared with `var`, or a parameter. -/
  | variable
  /-- A variable of a block. -/
  | lexical
  | function
  | class_
  | import_
  | alias
  | interface_
  | enum_
  | constEnum
  | enumMember
  | typeParameter
  /-- A namespace that holds values. -/
  | module_
  /-- A namespace that holds types only. -/
  | typeModule
deriving DecidableEq, Repr

/-- The entities that a new declaration clashes with. -/
def Entity.clashes : Entity → List Entity
  | .variable => [.lexical, .class_, .enum_, .constEnum, .module_]
  | .lexical => [.variable, .lexical, .function, .class_, .enum_, .constEnum, .module_]
  | .function => [.variable, .lexical, .enum_, .constEnum]
  | .class_ => [.variable, .lexical, .class_, .enum_, .constEnum, .alias]
  | .import_ => [.import_]
  | .alias => [.class_, .interface_, .enum_, .constEnum, .typeParameter, .alias]
  | .interface_ => [.enum_, .constEnum, .typeParameter, .alias]
  | .enum_ =>
    [.variable, .lexical, .function, .class_, .constEnum, .typeParameter, .alias, .interface_]
  | .constEnum =>
    [.variable, .lexical, .function, .class_, .enum_, .module_, .typeParameter, .alias,
     .interface_]
  | .enumMember => [.enumMember]
  | .typeParameter => [.class_, .interface_, .enum_, .constEnum, .alias]
  | .module_ => [.variable, .lexical, .constEnum]
  | .typeModule => []

/-- A declaration of a name. -/
structure Declaration where
  name : String
  place : Nat
  entity : Entity
  /-- The entities that it clashes with. -/
  clashes : List Entity
  /-- It belongs to the nearest function and not to the nearest block. -/
  hoists : Bool
deriving Repr

/-- A scope: for every name what it is declared as, and where first. -/
structure Scope where
  ofFunction : Bool
  names : Std.TreeMap String (List Entity × Nat)

namespace Scope

def fresh (ofFunction : Bool) : Scope :=
  ⟨ofFunction, ∅⟩

/-- Add a declaration, or tell where an earlier one clashes with it. -/
def add (scope : Scope) (new : Declaration) : Except Diagnostic Scope :=
  match scope.names[new.name]? with
  | none => .ok { scope with names := scope.names.insert new.name ([new.entity], new.place) }
  | some (entities, place) =>
    if entities.any (new.clashes.contains ·) then .error ⟨.redeclared new.name, place⟩
    else .ok { scope with names := scope.names.insert new.name (new.entity :: entities, place) }

end Scope

/-- Add a declaration to the nearest scope, or to all up to the nearest function. -/
def declareIn (new : Declaration) : List Scope → Except Diagnostic (List Scope)
  | [] => .ok []
  | scope :: outer => do
    let scope ← scope.add new
    if new.hoists && !scope.ofFunction then
      let outer ← declareIn new outer
      pure (scope :: outer)
    else pure (scope :: outer)

mutual

/-- The names that a pattern binds, and where. -/
def Node.boundNames : Node → List (String × Nat)
  | .mk form start _ children =>
    match form with
    | .name name => [(name, start)]
    | .annotated _ => Node.boundNamesOfFirst children
    | .withDefault => Node.boundNamesOfFirst children
    | .declarator _ => Node.boundNamesOfFirst children
    | .objectPattern => Node.boundNamesOfAll children
    | .arrayPattern => Node.boundNamesOfAll children
    | .rest => Node.boundNamesOfAll children
    | .patternProperty _ => Node.boundNamesOfSecond children
    | .parameter .. => Node.boundNamesOfSecond children
    | _ => []

def Node.boundNamesOfFirst : List Node → List (String × Nat)
  | first :: _ => Node.boundNames first
  | [] => []

def Node.boundNamesOfSecond : List Node → List (String × Nat)
  | _ :: rest => Node.boundNamesOfFirst rest
  | [] => []

def Node.boundNamesOfAll : List Node → List (String × Nat)
  | first :: rest => Node.boundNames first ++ Node.boundNamesOfAll rest
  | [] => []

end

end UnusedMethods.Script
