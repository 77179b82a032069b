import UnusedMethods.Script.Parser.Literal

/-!
# Arrow functions

An opening parenthesis may begin an arrow function or an expression. The next few tokens often
decide; where they do not, the parameters are tried first.
-/

namespace UnusedMethods.Script

inductive Likelihood where
  | no
  | maybe
  | yes
deriving DecidableEq, Repr

namespace Parse

/-- How likely the tokens from an opening parenthesis on begin an arrow function. -/
def parenLikelihood : Parse Likelihood := do
  let typed ← typed
  expect "("
  let second ← peek
  match second.lexeme with
  | .mark ")" =>
    advance
    if ← atOneOf ["=>", "\x7b"] then return .yes
    return if typed && (← at? ":") then .maybe else .no
  | .mark "[" => return .maybe
  | .mark "\x7b" => return .maybe
  | .mark "..." =>
    advance
    if (← peek).isName then return .yes
    return if (← literal?).isSome then .no else .maybe
  | .mark "@" => return .maybe
  | .word w =>
    advance
    let third ← peek
    -- Two names in a row are a modified parameter, unless the second converts the first.
    if modifierWords.contains w && w != "async" && third.isName then
      return if third.is "as" then .no else .yes
    if isReserved w && w != "this" then return .no
    match third.lexeme with
    | .mark ":" => return if typed then .yes else .no
    | .mark "?" =>
      if !typed then return .no
      advance
      return if ← atOneOf [":", ",", "=", ")"] then .yes else .no
    | .mark "," => return .maybe
    | .mark "=" => return .maybe
    | .mark ")" => return .maybe
    | _ => return .no
  | _ => return .no

/-- How likely the tokens from an opening angle bracket on begin an arrow function. Where markup
may be written, a lone name in brackets is a tag. -/
def angleLikelihood : Parse Likelihood := do
  let { typed, markup, .. } := (← read).dialect
  if !typed then return .no
  expect "<"
  let second ← peek
  if !second.isName && !second.is "const" then return .no
  if !markup then return .maybe
  if second.is "const" then advance
  advance
  if ← at? "extends" then
    advance
    return if ← atOneOf ["=", ">", "/"] then .no else .yes
  return if ← atOneOf [",", "="] then .yes else .no

/-- How likely the next tokens begin an arrow function with parameters in parentheses. -/
def arrowLikelihood : Parse Likelihood := do
  let token ← peek
  if !(token.isOneOf ["(", "<", "async"]) then return .no
  let saved ← get
  let answer ← try judge catch _ => pure .no
  restore saved
  return answer
where
  /-- Judge by the tokens after `async`, if it stands there. -/
  judge : Parse Likelihood := do
    if ← at? "async" then
      advance
      if (← peek).newline then return .no
    if ← at? "(" then parenLikelihood
    else if ← at? "<" then angleLikelihood
    else return .no

/-- What precedes the arrow: whether the function is asynchronous, and its type parameters,
parameters and result type. -/
structure ArrowHead where
  isAsync : Bool
  typeParameters : Node
  parameters : Node
  result : Node

/-- The head of an arrow function with parameters in parentheses. -/
def arrowHead (parse : Grammar) : Parse ArrowHead := do
  let isAsync ← eat "async"
  within (fun c => { c with awaits := c.awaits || isAsync, decorates := false }) do
    let typeParameters ← typeParameters parse
    let parameters ← parameters parse
    match thisOf? parameters with
    | some this => report .arrowThis this.start
    | none => pure ()
    let result ← resultType parse
    return ⟨isAsync, typeParameters, parameters, result⟩

/-- An arrow function from its arrow on. -/
def arrowFrom (parse : Grammar) (start : Nat) (head : ArrowHead) (arrowTypes : Bool) :
    Parse Node := do
  let token ← peek
  if token.is "=>" && token.newline then report .arrowNewline token.start
  expect "=>"
  let body ← if ← at? "\x7b" then
      within (arrowContext head.isAsync) (functionBody parse)
    else
      within (fun c => { c with awaits := head.isAsync, yields := false })
        (parse (.assignment arrowTypes))
  node (.arrow head.isAsync) start [head.typeParameters, head.parameters, head.result, body]

/-- An arrow function with one parameter without parentheses, from the arrow on. -/
def simpleArrow (parse : Grammar) (start : Nat) (name : String) (place : Nat)
    (isAsync arrowTypes : Bool) : Parse Node := do
  let bound ← node (.name name) place []
  let parameter ← node (.parameter false false) place [.group [], bound]
  let parameters ← node .parameters place [parameter]
  arrowFrom parse start ⟨isAsync, Node.absent, parameters, Node.absent⟩ arrowTypes

/-- Try an arrow function whose head has not been decided. In a conditional expression a result
type must be followed by the colon of the conditional. -/
def possibleArrow? (parse : Grammar) (arrowTypes : Bool) : Parse (Option Node) := do
  let start ← here
  if (← get).notArrows.contains start then return none
  let saved ← get
  let head ← attempt do
    let head ← arrowHead parse
    if ← at? "=>" then return some head else return none
  match head with
  | none =>
    -- Nested parentheses would otherwise be tried again at every level around them.
    modify fun s => { s with notArrows := s.notArrows.insert start }
    return none
  | some head =>
    let arrow ← arrowFrom parse start head arrowTypes
    -- The colon that was read as the start of a result type belongs to the conditional.
    if !arrowTypes && head.result.isPresent && !(← at? ":") then
      restore saved
      return none
    return some arrow

/-- An arrow function with parameters in parentheses, if one begins here. -/
def parenArrow? (parse : Grammar) (arrowTypes : Bool) : Parse (Option Node) := do
  match ← arrowLikelihood with
  | .no => return none
  | .yes =>
    let start ← here
    let head ← arrowHead parse
    return some (← arrowFrom parse start head true)
  | .maybe => possibleArrow? parse arrowTypes

/-- An asynchronous arrow function with one parameter without parentheses, if one begins here. -/
def asyncSimpleArrow? (parse : Grammar) (arrowTypes : Bool) : Parse (Option Node) := do
  let start ← here
  if !(← at? "async") then return none
  let begins ← lookahead do
    advance
    let next ← peek
    if next.newline || !next.isName then return false
    advance
    at? "=>"
  if !begins then return none
  advance
  let parameter ← parse (.binary 0)
  match parameter.form with
  | .reference name => return some (← simpleArrow parse start name parameter.start true arrowTypes)
  | _ => unexpected

end Parse

end UnusedMethods.Script
