import UnusedMethods.Script.Parser.Modifier

/-!
# Patterns and parameters

A pattern binds names: a single name, or the properties of an object or the elements of an array.
A parameter is a pattern with decorators, modifiers, a type and a default value.
-/

namespace UnusedMethods.Script.Parse

/-- A type after a colon, absent if none is written. -/
def typing (parse : Grammar) : Parse Node := do
  if (← typed) && (← at? ":") then
    let start ← here
    advance
    let type ← within ({ · with allowsConditional := true }) (parse .type_)
    node .typing start [type]
  else return Node.absent

/-- Read a question mark after what typed text may leave out, and tell where it stands. -/
def optionalMark : Parse (Option Nat) := do
  if (← typed) && (← at? "?") then
    let place ← here
    advance
    return some place
  else return none

/-- A pattern with a type after it, if one is written. -/
def annotated (parse : Grammar) (optional : Option Nat) (pattern : Node) : Parse Node := do
  let type ← typing parse
  if optional.isSome || type.isPresent then
    node (.annotated optional) pattern.start [pattern, type]
  else return pattern

/-- The expression after an equals sign. -/
def initializer (parse : Grammar) : Parse Node := do
  expect "="
  within ({ · with allowsIn := true }) (parse (.assignment true))

/-- A pattern with a default value after it, if one is written. -/
def withDefault (parse : Grammar) (pattern : Node) : Parse Node := do
  if ← at? "=" then
    let value ← initializer parse
    node .withDefault pattern.start [pattern, value]
  else return pattern

/-- A pattern with a question mark, a type and a default value after it, as far as they are
written. -/
def bindingElement (parse : Grammar) : Parse Node := do
  let pattern ← parse .pattern
  withDefault parse (← annotated parse (← optionalMark) pattern)

/-- Complain about a default value of a rest element. -/
def refuseDefault (parse : Grammar) (place : Nat) : Parse Unit := do
  if ← at? "=" then
    let _ ← initializer parse
    report .restInitializer place

/-- A rest element of a pattern: all that the others leave. -/
def restElement (parse : Grammar) (nameOnly : Bool) : Parse Node := do
  let start ← here
  expect "..."
  let argument ← parse .pattern
  if ← at? ":" then report .restKey (← here)
  let typedArgument ← annotated parse none argument
  refuseDefault parse argument.start
  if nameOnly then
    match argument.form with
    | .name _ => pure ()
    | _ => report .badRest argument.start
  node .rest start [typedArgument]

/-- A rest parameter: all that the others leave. -/
def restParameter (parse : Grammar) : Parse Node := do
  let start ← here
  expect "..."
  let argument ← parse .pattern
  match ← optionalMark with
  | some place => report .restOptional place
  | none => pure ()
  let typedArgument ← annotated parse none argument
  refuseDefault parse argument.start
  node .rest start [typedArgument]

def patternProperty (parse : Grammar) : Parse Node := do
  let token ← peek
  let (key, _) ← propertyKey parse
  let shorthand := token.isName && !(← at? ":")
  if shorthand then
    -- The name stands twice in the tree: as the key and as what is bound.
    let bound := Node.mk (.name (token.word?.getD "")) key.start key.stop []
    let value ← withDefault parse bound
    node (.patternProperty true) token.start [key, value]
  else
    expect ":"
    let value ← bindingElement parse
    node (.patternProperty false) token.start [key, value]

def patternElement (parse : Grammar) : Parse Node := do
  if ← at? "," then node .hole (← here) []
  else bindingElement parse

def pattern (parse : Grammar) : Parse Node := do
  let start ← here
  if ← at? "\x7b" then
    advance
    let parts ← commaListWithRest "\x7d" (patternProperty parse) (restElement parse true)
      .restElementNotLast
    expect "\x7d"
    node .objectPattern start parts
  else if ← at? "[" then
    advance
    let parts ← commaListWithRest "]" (patternElement parse) (restElement parse false)
      .restElementNotLast
    expect "]"
    node .arrayPattern start parts
  else boundName

def decorator (parse : Grammar) : Parse Node := do
  let start ← here
  expect "@"
  let expression ← within ({ · with decorates := true }) (parse .leftHandSide)
  node .decorator start [expression]

def decorators (parse : Grammar) : Parse (List Node) :=
  many do
    if ← at? "@" then return some (← decorator parse) else return none

/-- A parameter. Only some modifiers may stand before it, none at all outside constructors, and
only typed text has them. -/
def parameter (parse : Grammar) (allowed : List String) : Parse Node := do
  let start ← here
  let decorators ← decorators parse
  let seen ← modifiers false false
  if ← typed then allowModifiers allowed .modifierOnParameter seen
  else allowModifiers [] (fun _ => .typedOnly "Parameter modifiers") seen
  let pattern ← parse .pattern
  let optional ← optionalMark
  let value ← withDefault parse (← annotated parse optional pattern)
  node (.parameter (!seen.isEmpty) optional.isSome) start [.group decorators, value]

/-- The parameter that gives `this` a type. -/
def thisParameter (parse : Grammar) : Parse Node := do
  let start ← here
  expect "this"
  let type ← typing parse
  node .thisParameter start [type]

/-- The parameters of a function, in parentheses. The comma after `this` may be left out. -/
def parametersAllowing (parse : Grammar) (allowed : List String) : Parse Node := do
  let start ← here
  expect "("
  let this ← if (← typed) && (← at? "this") then do
      let this ← enclosed (thisParameter parse)
      let _ ← eat ","
      pure [this]
    else pure []
  let parts ← commaListWithRest ")" (parameter parse allowed) (restParameter parse) .restNotLast
  expect ")"
  node .parameters start (this ++ parts)

/-- The parameters of a function that is no constructor. -/
def parameters (parse : Grammar) : Parse Node :=
  parametersAllowing parse []

/-- The parameters of a constructor, which may declare properties. -/
def constructorParameters (parse : Grammar) : Parse Node :=
  parametersAllowing parse ["public", "protected", "private", "readonly", "override"]

/-- The `this` among parameters. -/
def thisOf? (parameters : Node) : Option Node :=
  parameters.children.find? fun p => match p.form with | .thisParameter => true | _ => false

end UnusedMethods.Script.Parse
