import UnusedMethods.Script.Parser.Type

/-!
# Functions

A function has type parameters, parameters, a type of its result and a body, each of which may be
absent in some place. The body of a declaration without one ends like a statement.
-/

namespace UnusedMethods.Script.Parse

/-- A statement that is a bare string literal, as a directive. -/
def directive? (text : String) (statement : Node) : Option Node :=
  match statement.form, statement.children with
  | .expression, [inner] =>
    match inner.form with
    | .string .. =>
      some (statement.withForm (.directive (slice text (inner.start + 1) (inner.stop - 1))))
    | _ => none
  | _, _ => none

/-- Statements up to a closing brace or the end; string literals before all others are
directives. -/
def statements (parse : Grammar) : Parse (List Node) := do
  let text := (← read).text
  let (found, _) ← iterate (fun ((found, leading) : Array Node × Bool) => do
    let token ← peek
    if token.is "\x7d" || token.isBroken then return none
    let statement ← enclosed (parse (.statement .list))
    if leading then
      match directive? text statement with
      | some directive => return some (found.push directive, true)
      | none => return some (found.push statement, false)
    else return some (found.push statement, false)) (#[], true)
  return found.toList

def functionBody (parse : Grammar) : Parse Node := do
  let start ← here
  expect "\x7b"
  let statements ← statements parse
  expect "\x7d"
  node .body start statements

/-- The context inside an arrow function, which takes over whether `in` may be used. -/
def arrowContext (isAsync : Bool) (context : Context) : Context :=
  { context with awaits := isAsync, yields := false, returns := true, decorates := false }

/-- The context inside any other function. -/
def functionContext (isAsync isGenerator : Bool) (context : Context) : Context :=
  { context with
    allowsIn := true
    awaits := isAsync
    yields := isGenerator
    returns := true
    decorates := false }

/-- The parts of a function after its name, the body absent if none is written. -/
def functionParts (parse : Grammar) (isAsync isGenerator : Bool) (parameters : Parse Node) :
    Parse (List Node) :=
  within (functionContext isAsync isGenerator) do
    let typeParameters ← typeParameters parse
    let parameters ← parameters
    let result ← resultType parse
    let body ← if ← at? "\x7b" then functionBody parse else pure Node.absent
    return [typeParameters, parameters, result, body]

/-- Whether the parts of a function hold a body. -/
def hasBody (parts : List Node) : Bool :=
  (parts.getLastD Node.absent).isPresent

/-- End a function without a body. Only typed text has such functions. -/
def endBodiless (parts : List Node) (start : Nat) : Parse Unit := do
  if !hasBody parts then
    if !(← typed) then fail .noBody start
    endStatement

/-- The name of a function, absent if none is written. A declaration needs one. -/
def functionName (isRequired : Bool) : Parse Node := do
  let token ← peek
  if token.isName then boundName
  else
    if isRequired then
      if token.is "(" then report .noFunctionName token.start
      else if token.isWord then
        fail (.expected "Identifier" token.lexeme.describe) token.start
    return Node.absent

/-- A function from its keyword on. One that is only declared is no generator. -/
def functionFrom (parse : Grammar) (start : Nat) (role : FunctionRole)
    (isAsync isAmbient isRequired : Bool) : Parse Node := do
  expect "function"
  let isGenerator ← if isAmbient then pure false else eat "*"
  -- The name of an expression is bound inside the function, that of a declaration outside.
  let name ← if role = .expression then
      within (functionContext isAsync isGenerator) (functionName false)
    else functionName isRequired
  let parts ← functionParts parse isAsync isGenerator do
    parameters parse
  if isAmbient && hasBody parts then
    report .ambientBody (parts.getLastD Node.absent).start
  endBodiless parts start
  node (.function ⟨role, isAsync, isGenerator, isAmbient⟩) start (name :: parts)

/-- A method of a class or an object, from its parameters on. -/
def methodFunction (parse : Grammar) (isAsync isGenerator : Bool) (parameters : Parse Node) :
    Parse Node := do
  let start ← here
  let parts ← functionParts parse isAsync isGenerator parameters
  endBodiless parts start
  node (.function ⟨.member, isAsync, isGenerator, false⟩) start (Node.absent :: parts)

/-- Complain about the parameters of an accessor. -/
def checkAccessor (isGetter : Bool) (function : Node) : Parse Unit := do
  let parameters := function.part 2
  let isRest (p : Node) : Bool := match p.form with | .rest => true | _ => false
  let isThis (p : Node) : Bool := match p.form with | .thisParameter => true | _ => false
  let hasDefault (p : Node) : Bool := match (p.part 1).form with | .withDefault => true | _ => false
  let proper := parameters.children.filter (!isThis ·)
  if isGetter then
    if !proper.isEmpty then report .getterParameters parameters.start
  else match proper.find? isRest with
    | some rest => report .setterRest rest.start
    | none =>
      if proper.length != 1 then report .setterParameters parameters.start
      else if proper.any hasDefault then report .setterDefault parameters.start

end UnusedMethods.Script.Parse
