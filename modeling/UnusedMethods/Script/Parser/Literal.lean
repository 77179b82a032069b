import UnusedMethods.Script.Parser.Class
import UnusedMethods.Script.Parser.Target

/-!
# Arrays, objects and parentheses

The expressions that hold lists of other expressions.
-/

namespace UnusedMethods.Script.Parse

/-- An expression without commas, in which `in` is an operator. -/
def item (parse : Grammar) : Parse Node :=
  within (fun c => { c with allowsIn := true, decorates := false }) (parse (.assignment true))

/-- An expression spread into a list. -/
def spread (parse : Grammar) : Parse Node := do
  let start ← here
  expect "..."
  let inner ← item parse
  node .spread start [inner]

/-- An argument, which may be spread. -/
def argument (parse : Grammar) : Parse Node := do
  if ← at? "..." then spread parse else item parse

def arguments (parse : Grammar) : Parse (List Node) := do
  expect "("
  let parts ← commaList ")" (argument parse)
  expect ")"
  return parts

def array (parse : Grammar) : Parse Node := do
  let start ← here
  expect "["
  let (parts, comma) ← commaListTrailing "]" do
    if ← at? "," then node .hole (← here) [] else argument parse
  expect "]"
  node (.array comma) start parts

/-- A property whose value is a name like its key, with a default value if the object is a
target. -/
def shorthand (parse : Grammar) (start : Nat) (key : Node) : Parse Node := do
  let name := key.keyName?.getD ""
  let value := Node.mk (.reference name) key.start key.stop []
  if ← at? "=" then
    -- A fault of the object, unless an equals sign after it makes it a target.
    modify fun s => { s with unfinished := s.unfinished ++ [start] }
    let init ← initializer parse
    let value ← node .withDefault key.start [value, init]
    node (.property none false true) start [key, value]
  else node (.property none false true) start [key, value]

/-- A getter or a setter of an object, after its keyword. -/
def objectAccessor (parse : Grammar) (start : Nat) (isGetter : Bool) : Parse Node := do
  let (key, isComputed) ← propertyKey parse
  let function ← methodFunction parse false false (parameters parse)
  checkAccessor isGetter function
  node (.property (some (if isGetter then .getter else .setter)) isComputed false) start
    [key, function]

/-- The token names a variable and is no operator here. -/
def refers (token : Token) : Parse Bool := do
  let context ← context
  return token.isName && !(context.awaits && token.is "await") &&
    !(context.yields && token.is "yield")

/-- A property of an object. Of the modifiers that may stand before members of classes, only one of
a method means something here. -/
def property (parse : Grammar) : Parse Node := do
  let start ← here
  if ← at? "..." then return ← spread parse
  let seen ← modifiers false false
  let allow (words : List String) : Parse Unit := allowModifiers words .modifierUnusable seen
  if ← contextual "get" then
    allow []
    return ← objectAccessor parse start true
  if ← contextual "set" then
    allow []
    return ← objectAccessor parse start false
  let isGenerator ← eat "*"
  let isReference ← refers (← peek)
  let (key, isComputed) ← propertyKey parse
  if isGenerator || (← atOneOf ["(", "<"]) then
    allow ["async"]
    let function ← methodFunction parse (seen.has "async") isGenerator (parameters parse)
    node (.property (some .method) isComputed false) start [key, function]
  else
    allow []
    if isReference && !(← at? ":") then shorthand parse start key
    else
      expect ":"
      let value ← item parse
      node (.property none isComputed false) start [key, value]

def object (parse : Grammar) : Parse Node := do
  let start ← here
  expect "\x7b"
  let (parts, comma) ← commaListTrailing "\x7d" (property parse)
  expect "\x7d"
  node (.object comma) start parts

/-- An expression in parentheses. -/
def parens (parse : Grammar) : Parse Node := do
  let start ← here
  expect "("
  let first ← here
  let (parts, comma) ← commaListTrailing ")" (item parse)
  match comma with
  | some place => report (.trailingComma "Parenthesized expressions") place
  | none => pure ()
  let last ← lastStop
  expect ")"
  match parts with
  | [] => fail .emptyParens start
  | [inner] => node .parens start [inner]
  | _ => node .parens start [.mk .sequence first last parts]

end UnusedMethods.Script.Parse
