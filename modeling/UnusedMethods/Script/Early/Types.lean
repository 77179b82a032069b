import UnusedMethods.Script.Early.Names

/-!
# Checks of types, variables and modules

Where annotations may stand, which names types may have, and where namespaces, imports and exports
may be written.
-/

namespace UnusedMethods.Script

/-! ### Annotations -/

/-- A variable that is said to be assigned, but has a value or no type. -/
def checkDefinite (node : Node) (definite : Option Nat) : Option Diagnostic :=
  definite.bind fun place =>
    if (node.part 1).isPresent then complain .definiteWithInitializer place
    else match (node.part 0).form with
      | .annotated _ =>
        if ((node.part 0).part 1).isPresent then none else complain .definiteWithoutType place
      | _ => complain .definiteWithoutType place

/-- A question mark after the pattern of a variable. -/
def checkOptional (node : Node) : Option Diagnostic :=
  match node.form with
  | .annotated optional => optional.bind fun place => complain .strayOptional place
  | _ => none

/-- A question mark or a type after an element of an array pattern. -/
def checkArrayPattern (elements : List Node) : Option Diagnostic :=
  elements.findSome? fun element =>
    match element.form with
    | .annotated _ =>
      let type := element.part 1
      firstOf
        [checkOptional element,
         if type.isPresent then complain .strayTyping type.start else none]
    | _ => none

/-- A type in an annotation may not be marked. -/
def checkTyping (type : Node) : Option Diagnostic :=
  match type.form with
  | .markedType mark isBefore =>
    complain (.typeMark mark (if isBefore then "start" else "end")) type.start
  | _ => none

/-! ### Names of types -/

def typeNames : List String :=
  ["any", "bigint", "boolean", "never", "number", "object", "string", "symbol", "undefined",
   "unknown", "void"]

/-- A declared type may not take the name of one that exists from the start. -/
def checkTypeName (around : Surroundings) (what : String) (name : Node) : Option Diagnostic :=
  match name.form with
  | .name text =>
    if around.dialect.typed && typeNames.contains text then
      complain (.takenTypeName what text) name.start
    else none
  | _ => none

/-- How type parameters vary is said where a type is declared. -/
def checkVariance (around : Surroundings) (node : Node) (isIn isOut : Bool) : Option Diagnostic :=
  let declares := match around.scope.form with
    | .class_ _ => true
    | .interface_ _ => true
    | .typeAlias _ => true
    | _ => false
  if declares then none
  else if isIn then complain (.modifierVariance "in") node.start
  else if isOut then complain (.modifierVariance "out") node.start
  else none

/-- The value is a text, so that the next member of an enumeration cannot be counted on. -/
def Node.isText (value : Node) : Bool :=
  match value.form with
  | .string .. => true
  | .template => true
  | _ => false

/-- A member of an enumeration without a value may not follow one whose value is a text. -/
def checkEnumMembers : Bool → List Node → Option Diagnostic
  | _, [] => none
  | needsValue, member :: rest =>
    let value := member.part 1
    if value.isPresent then checkEnumMembers value.isText rest
    else if needsValue then complain .enumInitializer member.start
    else checkEnumMembers false rest

/-! ### Modules -/

/-- Imports and exports of plain text belong to the top level of a module. -/
def checkModulePlace (around : Surroundings) (node : Node) (what : String) : Option Diagnostic :=
  if around.dialect.typed then none
  else if !around.dialect.isModule then complain (.outsideModule what) node.start
  else match around.parent.form with
    | .program => none
    | _ => complain (.notTopLevel what) node.start

/-- A namespace stands at the top level of a module or of another namespace. -/
def checkNamespacePlace (around : Surroundings) (node : Node) : Option Diagnostic :=
  let outer := around.path.dropWhile fun node =>
    match node.form with
    | .exportNamed _ => true
    | .body => true
    | _ => false
  match (outer.headD Node.absent).form with
  | .program => none
  | .module_ _ => none
  | _ => complain .namespacePlace node.start

/-- A namespace. What is added to the global scope must be declared. -/
def checkNamespace (around : Surroundings) (node : Node) (isAmbient : Bool) : Option Diagnostic :=
  let isGlobal := !(node.part 0).isPresent
  firstOf
    [checkNamespacePlace around node,
     if isGlobal && !isAmbient && !around.isAmbient then complain .globalDeclare node.start
     else none]

/-- A namespace exports its members one by one. -/
def checkExportAssign (around : Surroundings) (node : Node) : Option Diagnostic :=
  let owner := around.path.getD 1 Node.absent
  match owner.form, (owner.part 0).form with
  | .module_ _, .name _ => complain .assignmentInNamespace node.start
  | _, _ => none

/-- The statement exports something in another way than by an assignment. -/
def Node.exports (statement : Node) : Bool :=
  match statement.form with
  | .exportNamed _ => statement.children.any (·.isPresent)
  | .exportDefault => true
  | .exportAll _ => true
  | _ => false

/-- A module that exports by an assignment exports nothing else. -/
def checkExports (statements : List Node) : Option Diagnostic :=
  if !statements.any (·.exports) then none
  else statements.findSome? fun statement =>
    match statement.form with
    | .exportAssign => complain .assignmentMixed statement.start
    | _ => none

end UnusedMethods.Script
