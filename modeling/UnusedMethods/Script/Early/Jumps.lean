import UnusedMethods.Script.Early.Names

/-!
# Checks of jumps, labels and loops

A jump must stay in the function around it, and what it jumps to must fit. Only some statements may
have a function for their body.
-/

namespace UnusedMethods.Script

/-- The enclosing statement with a label, in the function around. -/
def labeled? (around : Surroundings) (label : String) : Option Node :=
  (reachable around.path).find? fun node =>
    match node.form with
    | .labeled name => name == label
    | _ => false

/-- A label that an enclosing statement has already. -/
def checkLabel (around : Surroundings) (label : String) : Option Diagnostic :=
  (labeled? around label).bind fun outer => complain (.redeclaredLabel label) outer.start

/-- A label that no enclosing statement has, or one of another function. -/
def missingLabel (around : Surroundings) (place : Nat) : Option Diagnostic :=
  if around.path.any (·.isBoundary) then complain .jumpBoundary place
  else complain .undefinedLabel place

/-- A jump to the end of a statement. -/
def checkBreak (around : Surroundings) (node : Node) (label : Option (String × Nat)) :
    Option Diagnostic :=
  match label with
  | some (name, place) =>
    if (labeled? around name).isSome then none else missingLabel around place
  | none =>
    let isTarget (node : Node) : Bool := match node.form with
      | .switch_ => true
      | _ => node.isLoop
    if (reachable around.path).any isTarget then none else complain .strayBreak node.start

/-- A jump to the next round of a loop. -/
def checkContinue (around : Surroundings) (node : Node) (label : Option (String × Nat)) :
    Option Diagnostic :=
  match label with
  | some (name, place) =>
    match labeled? around name with
    | none => missingLabel around place
    | some target =>
      match (target.part 0).form with
      | .labeled _ => none
      | _ => if (target.part 0).isLoop then none else complain .continueTarget target.start
  | none =>
    if (reachable around.path).any Node.isLoop then none else complain .strayContinue node.start

/-- A function as the body of another statement. Only sloppy code may declare one there, and only
after a condition or a label. -/
def checkFunctionPlace (around : Surroundings) (isTolerated : Bool) (body : Node) :
    Option Diagnostic :=
  match body.form with
  | .function traits =>
    if traits.role = .declaration && (around.isStrict || !isTolerated) then
      complain .badFunctionPlace body.start
    else none
  | _ => none

/-- A labeled function may not be the body of another statement, labels apart. -/
def checkLabeledFunction (around : Surroundings) (body : Node) : Option Diagnostic :=
  let outer := around.path.dropWhile fun node =>
    match node.form with
    | .labeled _ => true
    | _ => false
  let owner := outer.headD Node.absent
  let isBody := match owner.form with
    | .if_ => true
    | .with_ => true
    | _ => owner.isLoop
  checkFunctionPlace around (!isBody) body

/-- A choice may have one default. -/
def checkDefaults (cases : List Node) : Option Diagnostic :=
  let defaults := cases.filter fun node =>
    match node.form with
    | .default_ => true
    | _ => false
  match defaults with
  | first :: _ :: _ => complain (.redeclared "default") first.start
  | _ => none

/-- A variable in the head of a loop over elements may not have a value; sloppy code may give one to
a plain variable whose values are keys. -/
def hasStrayValue (around : Surroundings) (loop : String) (binding : Binding) (declarator : Node) :
    Bool :=
  let isName := match (declarator.part 0).form with
    | .name _ => true
    | _ => false
  (declarator.part 1).isPresent &&
    (around.isStrict || loop != "in" || binding ≠ .var || !isName)

/-- The head of a loop over elements declares one variable, without a value and without a type. -/
def checkLoopHead (around : Surroundings) (loop : String) (left : Node) : Option Diagnostic :=
  match left.form with
  | .bindings binding _ =>
    if left.children.length > 1 then complain (.loopManyDeclarations loop) left.start
    else if left.children.any (hasStrayValue around loop binding) then
      complain (.loopInitializer loop) left.start
    else left.children.findSome? fun declarator =>
      match (declarator.part 0).form with
      | .annotated _ =>
        if ((declarator.part 0).part 1).isPresent then
          complain (.annotatedLoop loop) (declarator.part 0).start
        else none
      | _ => none
  | _ => none

end UnusedMethods.Script
