import UnusedMethods.Script.Early.Surroundings
import UnusedMethods.Script.Complaint

/-!
# Checks of names and literals

Strict code reserves some words, protects two names, and forbids old spellings of literals. The
name `arguments` has no meaning where no function is around.
-/

namespace UnusedMethods.Script

def complain (complaint : Complaint) (place : Nat) : Option Diagnostic :=
  some ⟨complaint, place⟩

def firstOf (checks : List (Option Diagnostic)) : Option Diagnostic :=
  checks.findSome? id

/-- Words that strict code reserves. -/
def strictWords : List String :=
  ["implements", "interface", "let", "package", "private", "protected", "public", "static",
   "yield"]

/-- Names that strict code may not bind or assign. -/
def protectedNames : List String :=
  ["eval", "arguments"]

/-! ### Uses -/

/-- Names are free where text only declares, and directly in a namespace. -/
def namesAreFree (around : Surroundings) : Bool :=
  around.dialect.ambient || match around.scope.form with
    | .module_ _ => true
    | _ => false

/-- A name that may not be used where it stands. -/
def checkNameUse (around : Surroundings) (name : String) (place : Nat) : Option Diagnostic :=
  if namesAreFree around then none
  else if name == "await" && around.dialect.isModule then complain (.keywordReserved name) place
  else if around.isStrict && strictWords.contains name then
    complain (.keywordReserved name) place
  else none

/-- Where the name `arguments` means nothing, seen from inside out: in a block that runs when a
class is made, and in the value of a field. -/
def argumentsPlace? (place : Nat) : List Node → Option String
  | [] => none
  | node :: outer =>
    match node.form with
    | .function _ => none
    | .staticBlock => some "static initialization block"
    -- The key of a field still belongs to what is around the class.
    | .field _ =>
      if (node.part 3).covers place then some "class field initializer"
      else argumentsPlace? place outer
    | _ => argumentsPlace? place outer

def checkReference (around : Surroundings) (name : String) (place : Nat) : Option Diagnostic :=
  match checkNameUse around name place with
  | some fault => some fault
  | none =>
    if name != "arguments" then none
    else (argumentsPlace? place around.path).bind fun what => complain (.argumentsPlace what) place

/-! ### Bindings -/

/-- The declaration that binds a name says that it is defined elsewhere. -/
def isDeclaredElsewhere : List Node → Bool
  | [] => false
  | node :: outer =>
    match node.form with
    | .bindings _ isAmbient => isAmbient
    | .class_ traits => traits.isAmbient
    | .function traits => traits.isAmbient
    | .module_ isAmbient => isAmbient
    | .enum_ _ isAmbient => isAmbient
    | .typeAlias isAmbient => isAmbient
    | .interface_ isAmbient => isAmbient
    | .parameter .. => false
    | .program => false
    | _ => isDeclaredElsewhere outer

/-- A name may be protected and yet be bound as the name of a type, or as that of a function without
a body or of one of its parameters. -/
def bindsNoValue : List Node → Bool
  | [] => false
  | parent :: outer =>
    match parent.form with
    | .typeAlias _ => true
    | .interface_ _ => true
    | .function _ => !(parent.part 4).isPresent
    | .parameter .. => (outer.find? (·.hasScope)).elim false fun owner =>
        match owner.form with
        | .signature => true
        | .function _ => !(owner.part 4).isPresent
        | _ => false
    | .annotated _ => bindsNoValue outer
    | .rest => bindsNoValue outer
    | .parameters => (outer.head?).elim false fun owner =>
        match owner.form with
        | .signature => true
        | .function _ => !(owner.part 4).isPresent
        | _ => false
    | _ => false

/-- How the declaration that binds a name is written, if it binds variables of a block. -/
def lexicalBinding? : List Node → Option String
  | [] => none
  | node :: outer =>
    match node.form with
    | .bindings .let_ _ => some "let"
    | .bindings .const_ _ => some "const"
    | .bindings .using_ _ => some "using"
    | .bindings .awaitUsing _ => some "await using"
    | .bindings .var _ => none
    | .function _ => none
    | _ => lexicalBinding? outer

/-- A name that may not be bound where it stands. -/
def checkBound (around : Surroundings) (name : String) (place : Nat) : Option Diagnostic :=
  -- What is defined elsewhere may carry any name, but strict code still protects two of them.
  let used := if isDeclaredElsewhere around.path then none else checkNameUse around name place
  match used with
  | some fault => some fault
  | none =>
    if around.isStrict then
      if protectedNames.contains name && !bindsNoValue around.path then
        complain (.strictAssignment name) place
      else none
    else if name == "let" then
      (lexicalBinding? around.path).bind fun binding => complain (.letName binding) place
    else none

/-! ### Assignments -/

def Node.assigned : Node → List Node
  | .mk form _ _ children =>
    match form with
    | .assign _ => children.take 1
    | .update => children
    | .arrayTarget => children
    | .targetName _ => children.take 1
    | .targetProperty => children.drop 1
    | .withDefault => children.take 1
    | .rest => children
    | _ => []

/-- An assignment to a name that strict code may not assign. -/
def checkAssigned (around : Surroundings) (node : Node) : Option Diagnostic :=
  if !around.isStrict then none
  else node.assigned.findSome? fun target =>
    match target.form with
    | .reference name =>
      if protectedNames.contains name then complain (.strictAssignment name) target.start else none
    | _ => none

/-! ### Literals and directives -/

/-- A spelling of a literal that strict code forbids. -/
def checkLegacy (around : Surroundings) (legacy : Legacy) (decimal : Complaint) (place : Nat) :
    Option Diagnostic :=
  if !around.isStrict then none
  else match legacy with
    | .none => none
    | .octal => complain .octalLiteral place
    | .decimal => complain decimal place

/-- All parameters are plain names, with or without types. -/
def Node.isSimpleList (parameters : Node) : Bool :=
  parameters.children.all fun parameter =>
    match parameter.form with
    | .parameter .. =>
      let pattern := parameter.part 1
      let pattern := match pattern.form with
        | .annotated _ => pattern.part 0
        | _ => pattern
      match pattern.form with
      | .name _ => true
      | _ => false
    | .thisParameter => true
    | _ => false

/-- A function cannot become strict by a directive after its parameters have been read, unless they
are plain names. -/
def checkDirective (around : Surroundings) (node : Node) (raw : String) : Option Diagnostic :=
  if raw != "use strict" then none
  else
    -- The directive stands in the body, and the body in the function.
    let owner := (around.path.getD 1 Node.absent)
    let parameters := match owner.form with
      | .function _ => owner.part 2
      | .arrow _ => owner.part 1
      | _ => Node.absent
    if parameters.isSimpleList then none else complain .strictParameters node.start

end UnusedMethods.Script
