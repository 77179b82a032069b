import UnusedMethods.Script.Early.Members
import UnusedMethods.Script.Early.Types

/-!
# Checks of single nodes

What the grammar admits and the language forbids, as far as it can be seen from a node and what
encloses it. Each check answers with the first complaint that it has.
-/

namespace UnusedMethods.Script

/-! ### Expressions -/

/-- What may not be deleted. -/
def checkDelete (around : Surroundings) (operand : Node) : Option Diagnostic :=
  let target := operand.bare
  match target.form with
  | .reference _ => if around.isStrict then complain .deleteName target.start else none
  | .privateMember .. => complain .deletePrivate target.start
  | .chain =>
    match (target.part 0).form with
    | .privateMember _ place => complain .deletePrivate place
    | _ => none
  | _ => none

/-- The target of a constructor call is known in functions and in blocks of classes. -/
def checkNewTarget (around : Surroundings) (node : Node) : Option Diagnostic :=
  if around.path.any (·.isBoundary) then none else complain .newTarget node.start

/-- The place is in the parameters of the nearest function. -/
def isInParameters : List Node → Bool
  | [] => false
  | node :: outer =>
    match node.form with
    | .parameter .. => true
    | .function _ => false
    | .arrow _ => false
    | .body => false
    | _ => isInParameters outer

/-- An expression that suspends its function does not stand among its parameters. -/
def checkSuspension (around : Surroundings) (node : Node) (word : String) : Option Diagnostic :=
  if isInParameters around.path then complain (.parameterOperator word) node.start else none

/-- A block that runs when a class is made cannot await. -/
def checkAwait (around : Surroundings) (node : Node) : Option Diagnostic :=
  let inBlock := match around.scope.form with
    | .staticBlock => true
    | _ => false
  firstOf
    [checkSuspension around node "await",
     if inBlock then complain .staticAwait node.start else none]

/-- The prototype of an object is set once. -/
def checkPrototypes (properties : List Node) : Option Diagnostic :=
  let keys := properties.filterMap fun property =>
    match property.form with
    | .property none false false =>
      if (property.part 0).keyName? == some "__proto__" then some (property.part 0) else none
    | _ => none
  match keys with
  | first :: _ :: _ => complain (.redeclared "__proto__") first.start
  | _ => none

/-- An expression in markup holds no commas. -/
def checkMarkupExpression (value : Node) : Option Diagnostic :=
  match value.form with
  | .sequence => complain .markupComma value.start
  | _ => none

/-! ### Parameters -/

/-- The pattern of a parameter, without its type and its default value. -/
def Node.parameterPattern (parameter : Node) : Node :=
  let pattern := parameter.part 1
  let pattern := match pattern.form with
    | .withDefault => pattern.part 0
    | _ => pattern
  match pattern.form with
  | .annotated _ => pattern.part 0
  | _ => pattern

/-- A parameter that declares a property must be a name. -/
def checkParameter (node : Node) (isProperty : Bool) : Option Diagnostic :=
  if !isProperty then none
  else match node.parameterPattern.form with
    | .name _ => none
    | _ => complain .parameterPattern node.start

/-- The first parameter that must be given after one that need not be. A default value makes a
parameter neither. -/
def requiredAfterOptional? : Bool → List Node → Option Node
  | _, [] => none
  | seen, parameter :: rest =>
    match parameter.form, (parameter.part 1).form with
    | .parameter .., .withDefault => requiredAfterOptional? seen rest
    | .parameter _ isOptional, _ =>
      if seen && !isOptional then some parameter
      else requiredAfterOptional? (seen || isOptional) rest
    | _, _ => requiredAfterOptional? seen rest

/-! ### All checks -/

/-- The checks of a class as a whole. -/
def checkClass (around : Surroundings) (node : Node) (traits : ClassTraits) : Option Diagnostic :=
  let members := (node.part 6).children
  firstOf
    [checkTypeName around "Class" (node.part 1), checkClassName around node traits,
     checkConstructors members, checkAbstractPlace traits members,
     if traits.isAmbient || around.isAmbient then none else checkOverloads members]

/-- The checks of a statement. -/
def checkStatement (around : Surroundings) (node : Node) : Option Diagnostic :=
  let start := node.start
  let body (i : Nat) : Option Diagnostic := checkFunctionPlace around false (node.part i)
  match node.form with
  | .directive raw => checkDirective around node raw
  | .labeled label =>
    firstOf [checkNameUse around label start, checkLabel around label,
      checkLabeledFunction around (node.part 0)]
  | .break_ label =>
    firstOf [label.bind fun (name, place) => checkNameUse around name place,
      checkBreak around node label]
  | .continue_ label =>
    firstOf [label.bind fun (name, place) => checkNameUse around name place,
      checkContinue around node label]
  | .if_ =>
    firstOf [checkFunctionPlace around true (node.part 1),
      checkFunctionPlace around true (node.part 2)]
  | .while_ => body 1
  | .doWhile => body 0
  | .for_ => body 3
  | .forIn => firstOf [checkLoopHead around "in" (node.part 0), body 2]
  | .forOf => firstOf [checkLoopHead around "of" (node.part 0), body 2]
  | .with_ =>
    let forbidden := around.isStrict || around.dialect.typed
    firstOf [if forbidden then complain .withStatement start else none, body 1]
  | .switch_ => checkDefaults node.children
  | .declarator definite => firstOf [checkOptional (node.part 0), checkDefinite node definite]
  | .import_ _ => checkModulePlace around node "import statement"
  | .exportNamed _ => checkModulePlace around node "export statement"
  | .exportDefault => checkModulePlace around node "export statement"
  | .exportAll _ => checkModulePlace around node "export statement"
  | .exportAssign => checkExportAssign around node
  | .program => checkExports node.children
  | _ => none

/-- The checks of a type or of what declares one. -/
def checkTyped (around : Surroundings) (node : Node) : Option Diagnostic :=
  match node.form with
  | .typing => checkTyping (node.part 0)
  | .typeName name => checkNameUse around name node.start
  | .typeParameter isIn isOut =>
    firstOf [checkVariance around node isIn isOut,
      checkTypeName around "Type parameter" (node.part 0)]
  | .typeAlias _ => checkTypeName around "Type alias" (node.part 0)
  | .interface_ _ => checkTypeName around "Interface" (node.part 0)
  | .enum_ .. =>
    firstOf [checkTypeName around "Enum" (node.part 0),
      checkEnumMembers false (node.part 1).children]
  | .module_ isAmbient => checkNamespace around node isAmbient
  | _ => none

/-- The checks of an expression, a pattern or a part of a class. -/
def checkPart (around : Surroundings) (node : Node) : Option Diagnostic :=
  let start := node.start
  match node.form with
  | .reference name => checkReference around name start
  | .name name => checkBound around name start
  | .number _ legacy => checkLegacy around legacy .leadingZero start
  | .string _ legacy => checkLegacy around legacy .badEscape start
  | .unary "delete" => checkDelete around (node.part 0)
  | .super_ => checkSuper around node
  | .newTarget => checkNewTarget around node
  | .importMeta => if around.dialect.isModule then none else complain .importMeta start
  | .await_ => checkAwait around node
  | .yield_ => checkSuspension around node "yield"
  | .object _ => checkPrototypes node.children
  | .property role _ _ => checkProperty node role
  | .markupExpression => checkMarkupExpression (node.part 0)
  | .arrayPattern => checkArrayPattern node.children
  | .privateMember name place => checkPrivateMember around node name place
  | .privateIn name place => checkPrivate around name place
  | .parameter isProperty _ => checkParameter node isProperty
  | .parameters =>
    (requiredAfterOptional? false node.children).bind fun parameter =>
      complain .requiredAfterOptional parameter.start
  | .decorator => checkDecorator node
  | .method role traits => checkMethod around node role traits
  | .field traits => checkField around node traits
  | .classBody => checkPrivateUses around node
  | .class_ traits => checkClass around node traits
  | _ => checkAssigned around node

/-- All checks of a node. -/
def checkNode (around : Surroundings) (node : Node) : Option Diagnostic :=
  firstOf [checkStatement around node, checkTyped around node, checkPart around node]

end UnusedMethods.Script
