import UnusedMethods.Script.Parser.Module

/-!
# Statements

A statement is chosen by its first token. Where none fits, the statement is an expression, or a
label if a colon follows a name.
-/

namespace UnusedMethods.Script.Parse

/-- An expression in parentheses, as a condition. -/
def condition (parse : Grammar) : Parse Node := do
  expect "("
  let test ← parse .expression
  expect ")"
  return test

/-- A statement that is the body of another. -/
def inner (parse : Grammar) : Parse Node :=
  parse (.statement .single)

def block (parse : Grammar) : Parse Node := do
  let start ← here
  let found ← bracketed "\x7b" "\x7d" do return some (← parse (.statement .list))
  node .block start found

def ifStatement (parse : Grammar) : Parse Node := do
  let start ← here
  expect "if"
  let test ← condition parse
  let yes ← inner parse
  let no ← if ← eat "else" then inner parse else pure Node.absent
  node .if_ start [test, yes, no]

/-- A loop that tests before its body. -/
def whileStatement (parse : Grammar) : Parse Node := do
  let start ← here
  expect "while"
  let test ← condition parse
  let body ← inner parse
  node .while_ start [test, body]

/-- A loop that tests after its body. -/
def doStatement (parse : Grammar) : Parse Node := do
  let start ← here
  expect "do"
  let body ← inner parse
  expect "while"
  let test ← condition parse
  -- No line end is needed where the semicolon is left out.
  let _ ← eat ";"
  node .doWhile start [body, test]

/-- The rest of a loop over a range that its head sets up. -/
def forRest (parse : Grammar) (start : Nat) (isAwait : Bool) (init : Node) : Parse Node := do
  expect ";"
  -- Only now is it known that the loop does not fill the variables itself.
  match init.form with
  | .bindings binding _ =>
    for declarator in init.children do
      checkInitializer binding declarator
  | _ => pure ()
  let part : Parse Node := within ({ · with allowsIn := true }) (parse .expression)
  let test ← if ← atOneOf [";", ")"] then pure Node.absent else part
  expect ";"
  let step ← if ← at? ")" then pure Node.absent else part
  expect ")"
  if isAwait then report .awaitLoop start
  let body ← inner parse
  node .for_ start [init, test, step, body]

/-- The rest of a loop over the keys or the elements of a value. -/
def forEachRest (parse : Grammar) (start : Nat) (isAwait : Bool) (left : Node) : Parse Node := do
  let isIn ← at? "in"
  bump
  -- `in` takes a sequence, `of` does not.
  let right ← if isIn then parse .expression else parse (.assignment true)
  expect ")"
  if isIn && isAwait then report .awaitLoop start
  let body ← inner parse
  node (if isIn then .forIn else .forOf) start [left, right, body]

/-- The tokens after `using` begin a declaration, in a loop unless `of` follows. -/
def usingFollows (inLoop : Bool) : Parse Bool := do
  if !(← at? "using") then return false
  advance
  let next ← peek
  if inLoop && next.is "of" then return false
  return (next.isName || next.is "\x7b") && !next.newline

/-- How the next tokens declare variables that release what they hold, if they do. -/
def usingBinding? (inLoop : Bool) : Parse (Option Binding) := do
  if ← at? "using" then
    return if ← lookahead (usingFollows inLoop) then some .using_ else none
  if ← at? "await" then
    return if ← lookahead do advance; usingFollows false then some .awaitUsing else none
  return none

/-- How the head of a loop declares variables, if it declares any. -/
def loopBinding? : Parse (Option Binding) := do
  match (← peek).word? with
  | some "var" => return some .var
  | some "const" => return some .const_
  | some "let" =>
    if ← lookahead do
        advance
        let next ← peek
        return (next.isWord && !next.is "in") || next.is "[" || next.is "\x7b" then
      return some .let_
    else return none
  | _ => usingBinding? true

/-- A loop whose head declares variables, from them on. -/
def declaringLoop (parse : Grammar) (start : Nat) (isAwait : Bool) (binding : Binding) :
    Parse Node := do
  let place ← here
  bump
  if binding = .awaitUsing then bump
  let declared ← within ({ · with allowsIn := false }) (bindings parse place binding true false)
  if ← at? "in" then
    match binding with
    | .using_ => report (.usingLoop "using") place
    | .awaitUsing => report (.usingLoop "await using") place
    | _ => pure ()
  if ← atOneOf ["in", "of"] then forEachRest parse start isAwait declared
  else forRest parse start isAwait declared

/-- A loop whose head begins with an expression, from it on. -/
def plainLoop (parse : Grammar) (start : Nat) (isAwait : Bool) : Parse Node := do
  let token ← peek
  let init ← within ({ · with allowsIn := false }) (parse .expression)
  if !(← atOneOf ["in", "of"]) then return ← forRest parse start isAwait init
  if ← at? "of" then
    match init.form with
    -- It would read as the start of an arrow function: `for (async of => {};;)`.
    | .reference "async" =>
      if !isAwait && !token.escaped then report .asyncLoop token.start
    | _ => pure ()
    if token.is "let" then report .letLoop token.start
  let left ← target "=" init
  forEachRest parse start isAwait left

/-- A loop that begins with `for`. -/
def forStatement (parse : Grammar) : Parse Node := do
  let start ← here
  expect "for"
  let isAwait ← at? "await"
  if isAwait then
    if !(← context).awaits then report .strayAwait (← here)
    advance
  expect "("
  if ← at? ";" then return ← forRest parse start isAwait Node.absent
  match ← loopBinding? with
  | some binding => declaringLoop parse start isAwait binding
  | none => plainLoop parse start isAwait

/-- A jump out of a statement, which may name a label. -/
def jumpStatement (_parse : Grammar) : Parse Node := do
  let token ← peek
  bump
  let label ← if ← canEnd then pure none
    else do
      let word ← peek
      if !(← refers word) then unexpected
      advance
      pure (some (word.word?.getD "", word.start))
  endStatement
  node (if token.is "break" then .break_ label else .continue_ label) token.start []

def returnStatement (parse : Grammar) : Parse Node := do
  let start ← here
  expect "return"
  if !(← context).returns then report .strayReturn start
  let value ← if ← canEnd then pure []
    else pure [← within ({ · with allowsIn := true }) (parse .expression)]
  endStatement
  node .return_ start value

/-- A statement that throws a value. -/
def throwStatement (parse : Grammar) : Parse Node := do
  let start ← here
  expect "throw"
  if (← peek).newline then report .throwNewline start
  let value ← parse .expression
  endStatement
  node .throw_ start [value]

/-- A statement whose names are looked up in an object. -/
def withStatement (parse : Grammar) : Parse Node := do
  let start ← here
  expect "with"
  let object ← condition parse
  let body ← inner parse
  node .with_ start [object, body]

/-- A case of a choice. Variables that release what they hold need a block of their own in it. -/
def switchCase (parse : Grammar) : Parse Node := do
  let token ← peek
  if !token.isOneOf ["case", "default"] then fail .noSwitchClause token.start
  bump
  let test ← if token.is "case" then pure [← parse .expression] else pure []
  expect ":"
  let found ← many do
    let token ← peek
    if token.isOneOf ["case", "default", "\x7d"] || token.isBroken then return none
    let statement ← parse (.statement .list)
    match statement.form with
    | .bindings binding _ => if releases binding then report .usingCase statement.start
    | _ => pure ()
    return some statement
  node (if token.is "case" then .case_ else .default_) token.start (test ++ found)

def switchStatement (parse : Grammar) : Parse Node := do
  let start ← here
  expect "switch"
  let value ← condition parse
  let cases ← bracketed "\x7b" "\x7d" do return some (← switchCase parse)
  node .switch_ start (value :: cases)

/-- A handler of what is thrown. -/
def catchClause (parse : Grammar) : Parse Node := do
  let start ← here
  expect "catch"
  let parameter ← if ← eat "(" then do
      let pattern ← parse .pattern
      let pattern ← annotated parse none pattern
      expect ")"
      pure pattern
    else pure Node.absent
  let body ← block parse
  node .catch_ start [parameter, body]

/-- A statement that handles what is thrown in it. -/
def tryStatement (parse : Grammar) : Parse Node := do
  let start ← here
  expect "try"
  let body ← block parse
  let handler ← if ← at? "catch" then catchClause parse else pure Node.absent
  let final ← if ← eat "finally" then block parse else pure Node.absent
  if !handler.isPresent && !final.isPresent then report .noCatch body.stop
  node .try_ start [body, handler, final]

/-- An expression as a statement, or a label and the statement that it names. -/
def expressionStatement (parse : Grammar) : Parse Node := do
  let start ← here
  let value ← parse .expression
  match value.form with
  | .reference name =>
    if ← at? ":" then
      advance
      let body ← inner parse
      return ← node (.labeled name) start [body]
  | _ => pure ()
  endStatement
  node .expression start [value]

def classStatement (parse : Grammar) (place : StatementPlace) (start : Nat)
    (traits : ClassTraits) (decorators : List Node) : Parse Node := do
  let declared ← classFrom parse start traits decorators
  if place = .single then report .badClassPlace declared.start
  return declared

def functionStatement (parse : Grammar) (place : StatementPlace) (isAsync : Bool) :
    Parse Node := do
  let start ← here
  if isAsync then bump
  let declared ← functionFrom parse start .declaration isAsync false true
  match declared.form with
  | .function traits =>
    if place = .single then
      if traits.isAsync then report .badAsyncPlace start
      if traits.isGenerator then report .badGeneratorPlace start
  | _ => pure ()
  return declared

/-- A statement that begins with decorators. -/
def decoratedStatement (parse : Grammar) (place : StatementPlace) : Parse Node := do
  let start ← here
  let found ← decorators parse
  if ← at? "export" then return ← exportStatement parse found
  let seen ← modifiers false false
  if !(← at? "class") then unexpected
  allowModifiers ["declare", "abstract"] .modifierUnusable seen
  classStatement parse place start ⟨false, seen.has "abstract", seen.has "declare"⟩ found

/-- Variables that `let` declares, or an expression that begins with the name `let`. Before a
logical operator it is taken to declare. -/
def letStatement (parse : Grammar) (place : StatementPlace) : Parse Node := do
  let start ← here
  let next ← do
    let saved ← get
    advance
    let next ← peek
    restore saved
    pure next
  let operates := match next.lexeme with
    | .mark m => assignmentOperators.contains m || (3 < (operatorLevel m).getD 0)
    | .word w => w == "in" || w == "instanceof"
    | _ => false
  if operates then
    let value ← parse (.assignment true)
    endStatement
    node .expression start [value]
  else if next.is "." || next.is "(" then expressionStatement parse
  else if (place = .single && !next.is "[") || next.is ";" then
    let name ← reference
    endStatement
    node .expression start [name]
  else
    let declared ← variableStatement parse start .let_ false
    if place = .single then report .lexicalPlace start
    return declared

/-- Variables that release what they hold, or an expression. -/
def usingStatement (parse : Grammar) : Parse Node := do
  let start ← here
  match ← usingBinding? false with
  | some binding =>
    if binding = .awaitUsing then advance
    variableStatement parse start binding false
  | none => expressionStatement parse

/-- A statement that begins with a word which means something only in some places. -/
def contextualStatement (parse : Grammar) : Parse Node := do
  if (← typed) && (← atTypedDeclaration) then
    let start ← here
    let seen ← declarationModifiers
    modified parse start [] seen
  else expressionStatement parse

/-- A statement. -/
def statement (parse : Grammar) (place : StatementPlace) : Parse Node := do
  let token ← peek
  let start := token.start
  match token.lexeme with
  | .mark "\x7b" => block parse
  | .mark ";" =>
    advance
    node .empty start []
  | .mark "@" => decoratedStatement parse place
  | .word w =>
    match w with
    | "if" => ifStatement parse
    | "do" => doStatement parse
    | "while" => whileStatement parse
    | "for" => forStatement parse
    | "break" => jumpStatement parse
    | "continue" => jumpStatement parse
    | "with" => withStatement parse
    | "switch" => switchStatement parse
    | "throw" => throwStatement parse
    | "try" => tryStatement parse
    | "return" => returnStatement parse
    | "debugger" =>
      bump
      endStatement
      node .debugger start []
    | "class" => classStatement parse place start ⟨false, false, false⟩ []
    | "function" => functionStatement parse place false
    | "export" => exportStatement parse []
    | "import" =>
      if ← lookahead do advance; atOneOf ["(", "."] then expressionStatement parse
      else importStatement parse
    | "var" => variableStatement parse start .var false
    | "const" =>
      if (← typed) && (← lookahead do advance; at? "enum") then
        advance
        enumeration parse start true false
      else
        let declared ← variableStatement parse start .const_ false
        if place = .single then report .lexicalPlace start
        return declared
    | "let" => if token.escaped then expressionStatement parse else letStatement parse place
    | "async" =>
      if ← followedBy "function" then functionStatement parse place true
      else expressionStatement parse
    | "using" => usingStatement parse
    | "await" => usingStatement parse
    | _ => contextualStatement parse
  | _ => expressionStatement parse

end UnusedMethods.Script.Parse
