import UnusedMethods.Script.Parser.State

/-!
# The grammar as a function

The productions refer to each other in circles. Each production is a plain definition that takes
the whole grammar as an argument: a function from nonterminals to parsers. The circle is closed in
one place, by a bound on the depth of nesting.
-/

namespace UnusedMethods.Script

/-- Where a statement stands. -/
inductive StatementPlace where
  /-- In a list of statements. -/
  | list
  /-- Alone, as the body of another statement. -/
  | single
deriving DecidableEq, Repr

/-- The parts of the language that refer to themselves through others. -/
inductive Nonterminal where
  | expression
  /-- An expression without commas; a flag says whether an arrow function in it may have a result
  type that a colon does not follow. -/
  | assignment (arrowTypes : Bool)
  /-- An expression whose operators bind tighter than a level. -/
  | binary (level : Nat)
  | unary
  /-- An expression that is not made from the one before it. -/
  | primary
  /-- A call, a member, or less. -/
  | leftHandSide
  /-- A member, or less, without a call. -/
  | callee
  | statement (place : StatementPlace)
  | pattern
  | type_
  /-- A type with the operators before it. -/
  | typeOperator
  /-- An element of markup; a flag says whether it stands between tags. -/
  | element (nested : Bool)
deriving DecidableEq, Repr

/-- A parser for every nonterminal. -/
abbrev Grammar := Nonterminal → Parse Node

namespace Parse

/-- A word of any kind, and where it starts. -/
def anyWord : Parse (String × Nat) := do
  let token ← peek
  match token.lexeme with
  | .word text =>
    advance
    return (text, token.start)
  | _ => unexpected

/-- Complain about `await` and `yield` as names where they are operators. -/
def checkName (name : String) (place : Nat) : Parse Unit := do
  let context ← context
  if context.awaits && name == "await" then report .awaitName place
  if context.yields && name == "yield" then report .yieldName place

/-- A word that names a variable, and where it starts. -/
def variableName : Parse (String × Nat) := do
  let token ← peek
  match token.lexeme with
  | .word text =>
    if isReserved text then fail (.reservedName text) token.start
    checkName text token.start
    advance
    return (text, token.start)
  | _ => unexpected

def boundName : Parse Node := do
  let (name, start) ← variableName
  node (.name name) start []

def stringLiteral : Parse Node := do
  let token ← peek
  match token.lexeme with
  | .string value legacy _ =>
    advance
    node (.string value legacy) token.start []
  | _ => unexpected

/-- A literal that is one token: a string, a number, a truth value or nothing. -/
def literal? : Parse (Option Node) := do
  let token ← peek
  let leaf (form : Form) : Parse (Option Node) := do
    advance
    return some (← node form token.start [])
  match token.lexeme with
  | .string value legacy _ => leaf (.string value legacy)
  | .number value _ legacy => leaf (.number value legacy)
  | .bigint _ => leaf .bigint
  | .word "true" => leaf .boolean
  | .word "false" => leaf .boolean
  | .word "null" => leaf .null
  | _ => return none

/-- The key of a property or a member, and whether it is computed. A computed key is an expression,
and a computed literal is the literal itself. -/
def propertyKey (parse : Grammar) : Parse (Node × Bool) := do
  let token ← peek
  match token.lexeme with
  | .string .. => return (← stringLiteral, false)
  | .number value _ legacy =>
    advance
    return (← node (.number value legacy) token.start [], false)
  | .bigint _ =>
    advance
    return (← node .bigint token.start [], false)
  | .mark "[" =>
    advance
    let key ← enclosed (within ({ · with allowsIn := true }) (parse (.assignment true)))
    expect "]"
    return (key, true)
  | .word name =>
    advance
    return (← node (.propertyName name) token.start [], false)
  | _ => unexpected

/-- The next token may begin the key of a property. -/
def atKey : Parse Bool := do
  let token ← peek
  match token.lexeme with
  | .string .. => return true
  | .number .. => return true
  | .bigint _ => return true
  | .privateName _ => return true
  | .word _ => return true
  | .mark "[" => return true
  | _ => return false

end Parse

end UnusedMethods.Script
