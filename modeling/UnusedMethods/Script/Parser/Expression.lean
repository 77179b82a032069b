import UnusedMethods.Script.Parser.Arrow
import UnusedMethods.Script.Parser.Markup

/-!
# Expressions

From the inside out: primary expressions, members and calls, unary and binary operators,
conditionals, assignments, sequences.
-/

namespace UnusedMethods.Script.Parse

/-- The level of a binary operator: one with a higher level binds tighter. -/
def operatorLevel (operator : String) : Option Nat :=
  match operator with
  | "??" => some 1
  | "||" => some 2
  | "&&" => some 3
  | "|" => some 4
  | "^" => some 5
  | "&" => some 6
  | "==" => some 7
  | "!=" => some 7
  | "===" => some 7
  | "!==" => some 7
  | "<" => some 8
  | ">" => some 8
  | "<=" => some 8
  | ">=" => some 8
  | "in" => some 8
  | "instanceof" => some 8
  | "as" => some 8
  | "satisfies" => some 8
  | "<<" => some 9
  | ">>" => some 9
  | ">>>" => some 9
  | "+" => some 10
  | "-" => some 10
  | "*" => some 11
  | "/" => some 11
  | "%" => some 11
  | "**" => some 12
  | _ => none

/-- The level of a token as a binary operator. -/
def levelOf (token : Token) : Option Nat :=
  match token.lexeme with
  | .word w => operatorLevel w
  | .mark m => operatorLevel m
  | _ => none

/-- The operators that assign. -/
def assignmentOperators : List String :=
  ["=", "+=", "-=", "*=", "/=", "%=", "**=", "<<=", ">>=", ">>>=", "&=", "|=", "^=", "&&=", "||=",
   "??="]

/-- The token may begin an expression. -/
def startsExpression (token : Token) : Bool :=
  match token.lexeme with
  | .word w =>
    !isReserved w || ["this", "super", "null", "true", "false", "function", "class", "new",
      "delete", "typeof", "void", "import"].contains w
  | .mark m =>
    ["(", "[", "\x7b", "/", "/=", "+", "-", "~", "!", "++", "--", "<", "@"].contains m
  | .eof => false
  | .bad => false
  | .markupText => false
  | _ => true

/-! ### Primary expressions -/

/-- A name that refers to a variable. -/
def reference : Parse Node := do
  let token ← peek
  match token.lexeme with
  | .word name =>
    if isReserved name || (name == "await" && (← context).awaits) then unexpected
    checkName name token.start
    advance
    node (.reference name) token.start []
  | _ => unexpected

def template (parse : Grammar) (tagged : Bool) : Parse Node := do
  let start ← here
  let parts ← templateRest (within ({ · with allowsIn := true }) (parse .expression)) tagged
  node .template start parts

/-- A call that imports a module, from its arguments on. -/
def importCall (parse : Grammar) (start : Nat) : Parse Node := do
  expect "("
  if ← at? ")" then fail .noSpecifier start
  let given ← commaList ")" (item parse)
  expect ")"
  if given.length > 2 then fail .importArguments start
  node .importCall start given

/-- An expression that begins with `import`. -/
def importExpression (parse : Grammar) : Parse Node := do
  let start ← here
  expect "import"
  if ← at? "." then
    advance
    if ← eat "meta" then return ← node .importMeta start []
    if !(← atOneOf ["source", "defer"]) then fail (.onlyMeta "import" "meta") start
    bump
    importCall parse start
  else if ← at? "(" then importCall parse start
  else unexpected

/-- The keyword `super`, after which a call or a member must stand. -/
def superKeyword : Parse Node := do
  let start ← here
  expect "super"
  if !(← atOneOf ["(", ".", "["]) then report .badSuper start
  node .super_ start []

/-- A regular expression. In markup, a slash right after a less-than sign that begins none is more
likely to belong to a closing tag. -/
def regex : Parse Node := do
  let env ← read
  let token ← peek
  let lexed := Lexed.regex env.text token
  if lexed.token.isBroken && env.dialect.markup && 0 < token.start &&
      testAt (· == '<') env.text (token.start - 1) then unexpected
  -- The lexer had taken the slash for an operator, and its token is replaced.
  retake lexed
  if lexed.token.isBroken then unexpected
  advance
  node .regex token.start []

def classExpression (parse : Grammar) : Parse Node := do
  let start ← here
  let decorators ← decorators parse
  let seen : Modifiers ← if decorators.isEmpty then pure [] else modifiers false false
  if !(← at? "class") then unexpected
  allowModifiers ["declare", "abstract"] .modifierUnusable seen
  classFrom parse start ⟨true, seen.has "abstract", seen.has "declare"⟩ decorators

/-- A callee or a tag, and the types given to it. -/
def detachTypes (callee : Node) : Node × Node :=
  match callee.form, callee.children with
  | .instantiation, [inner, types] => (inner, types)
  | _, _ => (callee, Node.absent)

/-- A call of a constructor, or the target of one. -/
def newExpression (parse : Grammar) : Parse Node := do
  let start ← here
  expect "new"
  if ← at? "." then
    advance
    if ← eat "target" then return ← node .newTarget start []
    fail (.onlyMeta "new" "target") start
  let callee ← parse .callee
  let token ← peek
  if token.is "?." then report .optionalNew token.start
  let (callee, types) := detachTypes callee
  let given ← if ← at? "(" then arguments parse else pure []
  match callee.form with
  | .importCall => report .newImport callee.start
  | _ => pure ()
  node .new_ start (callee :: types :: given)

/-- An expression that is not made from the one before it. -/
def primary (parse : Grammar) : Parse Node := do
  let token ← peek
  let start := token.start
  match token.lexeme with
  | .word w =>
    match w with
    | "this" =>
      bump
      node .this_ start []
    | "super" => superKeyword
    | "function" => functionFrom parse start .expression false false false
    | "class" => classExpression parse
    | "new" => newExpression parse
    | "import" => importExpression parse
    | "async" =>
      let isFunction ← lookahead do
        advance
        let next ← peek
        return next.is "function" && !next.newline
      if isFunction then
        bump
        functionFrom parse start .expression true false false
      else reference
    | _ =>
      match ← literal? with
      | some leaf => return leaf
      | none => reference
  | .template true _ _ => template parse false
  | .mark "(" => parens parse
  | .mark "[" => array parse
  | .mark "\x7b" => object parse
  | .mark "/" => regex
  | .mark "/=" => regex
  | .mark "@" => classExpression parse
  | _ =>
    match ← literal? with
    | some leaf => return leaf
    | none => unexpected

/-! ### Members and calls -/

/-- A member that is named after a point. -/
def namedMember (object : Node) (start : Nat) : Parse Node := do
  let token ← peek
  match token.lexeme with
  | .word name =>
    advance
    node (.member name token.start) start [object]
  | .privateName name =>
    advance
    node (.privateMember name token.start) start [object]
  | _ => unexpected

/-- A member that is computed in brackets. -/
def computedMember (parse : Grammar) (object : Node) (start : Nat) : Parse Node := do
  expect "["
  let key ← enclosed (within (fun c => { c with allowsIn := true, decorates := false })
    (parse .expression))
  expect "]"
  node .index start [object, key]

/-- What may follow type arguments in an expression. -/
def canFollowTypeArguments : Parse Bool := do
  let token ← peek
  match token.lexeme with
  | .mark "(" => return true
  | .template true _ _ => return true
  | .mark "<" => return false
  | .mark ">" => return false
  | .mark "+" => return false
  | .mark "-" => return false
  | _ => return token.newline || (levelOf token).isSome || !startsExpression token

/-- Type arguments in an expression, if the tokens are such and not comparisons. -/
def expressionTypeArguments? (parse : Grammar) : Parse (Option Node) := do
  if !(← typed) then return none
  attempt do
    -- `<<` may be two brackets, and `>>` closes two lists of arguments.
    splitLess
    if !(← at? "<") then return none
    let start ← here
    advance
    let types ← commaList ">" (freeType parse)
    if !(← at? ">") then return none
    joinGreater
    if !(← at? ">") then return none
    if types.isEmpty then report .emptyTypeArguments start
    advance
    if ← canFollowTypeArguments then
      return some (← node .type_ start types)
    else return none

/-- The members, templates and types that follow an expression. The flag tells whether one of them
is optional. -/
def memberRest (parse : Grammar) (start : Nat) (isCallee : Bool) (first : Node × Bool) :
    Parse (Node × Bool) :=
  iterate (fun ((object, optional) : Node × Bool) => do
    let token ← peek
    match token.lexeme with
    | .mark "." =>
      advance
      return some (← namedMember object start, optional)
    | .mark "?." =>
      -- A constructor is not called through a chain: the chain is left for a complaint.
      if isCallee then return none
      if ← lookahead do advance; atOneOf ["(", "<", "<<"] then return none
      advance
      let next ← peek
      match next.lexeme with
      | .mark "[" => return some (← computedMember parse object start, true)
      | .word _ => return some (← namedMember object start, true)
      | .privateName _ => return some (← namedMember object start, true)
      | .template true _ _ => fail .optionalTemplate next.start
      | _ => fail .nameAfterOptional token.start
    | .mark "[" =>
      -- A bracket after a decorator begins the computed key of the member that it decorates.
      if (← context).decorates then return none
      return some (← computedMember parse object start, optional)
    | .mark "!" =>
      if token.newline || !(← typed) then return none
      advance
      return some (← node .nonNull start [object], optional)
    | .template true _ _ =>
      if optional then report .optionalTemplate token.start
      let (tag, types) := detachTypes object
      let quasi ← template parse true
      return some (← node .tagged start [tag, types, quasi], optional)
    | .mark m =>
      if m == "<" || m == "<<" then
        match ← expressionTypeArguments? parse with
        | some types => return some (← node .instantiation start [object, types], optional)
        | none => return none
      else return none
    | _ => return none) first

def callOf (parse : Grammar) (start : Nat) (callee types : Node) : Parse Node := do
  let given ← arguments parse
  node .call start (callee :: types :: given)

/-- The calls and members that follow an expression. -/
def callRest (parse : Grammar) (start : Nat) (first : Node × Bool) : Parse (Node × Bool) :=
  iterate (fun (before : Node × Bool) => do
    let token ← peek
    if token.is "?." then
      advance
      let types ← expressionTypeArguments? parse
      let types := types.getD Node.absent
      let call ← callOf parse start before.1 types
      return some (← memberRest parse start false (call, true))
    else if token.is "(" then
      let (callee, types) := detachTypes before.1
      let call ← callOf parse start callee types
      return some (← memberRest parse start false (call, before.2))
    else return none) first

/-- A call, a member, or less. An optional part makes the whole a chain. -/
def leftHandSide (parse : Grammar) : Parse Node := do
  let start ← here
  let first ← parse .primary
  let members ← memberRest parse start false (first, false)
  let (whole, optional) ← callRest parse start members
  if optional then node .chain start [whole] else return whole

/-- A member or less, as the callee after `new`. -/
def callee (parse : Grammar) : Parse Node := do
  let start ← here
  let first ← parse .primary
  let (whole, _) ← memberRest parse start true (first, false)
  return whole

/-! ### Operators -/

/-- The operators before their operand that do not change it. -/
def unaryOperators : List String :=
  ["delete", "void", "typeof", "+", "-", "~", "!"]

/-- An expression with an increment or a decrement, or less. -/
def updateExpression (parse : Grammar) : Parse Node := do
  let token ← peek
  if token.isOneOf ["++", "--"] then
    advance
    let operand ← plainTarget (← parse .unary)
    node .update token.start [operand]
  else
    let operand ← leftHandSide parse
    let next ← peek
    if next.isOneOf ["++", "--"] && !next.newline then
      let operand ← plainTarget operand
      advance
      node .update token.start [operand]
    else return operand

/-- The next token is followed on its line by a word that is no operator, a number or a string. -/
def operandFollows : Parse Bool :=
  lookahead do
    advance
    let next ← peek
    if next.newline then return false
    match next.lexeme with
    | .word w => return !(["in", "instanceof", "of"].contains w)
    | .string .. => return true
    | .number .. => return true
    | .bigint _ => return true
    | _ => return false

/-- An expression that awaits its operand. -/
def awaitExpression (parse : Grammar) : Parse Node := do
  let start ← here
  if !(← context).awaits then report .strayAwait start
  bump
  let operand ← within ({ · with awaits := true }) (parse .unary)
  node .await_ start [operand]

/-- A type in angle brackets before an expression. -/
def typeAssertion (parse : Grammar) : Parse Node := do
  let start ← here
  expect "<"
  let type ← freeType parse
  expect ">"
  let operand ← parse .unary
  node .typeAssertion start [type, operand]

/-- A less-than sign at the start of an expression: markup, or a type, by dialect. -/
def angleExpression (parse : Grammar) : Parse Node := do
  let { typed, markup, .. } := (← read).dialect
  if markup then parse (.element false)
  else if typed then typeAssertion parse
  else
    let start ← here
    match ← attempt do return some (← parse (.element false)) with
    | some found =>
      report .strayMarkup start
      return found
    | none => unexpected

/-- An expression with the operators before it. -/
def unary (parse : Grammar) : Parse Node := do
  let token ← peek
  match token.lexeme with
  | .word "await" =>
    if (← context).awaits then awaitExpression parse
    else if ← operandFollows then awaitExpression parse
    else updateExpression parse
  | .mark "<" => angleExpression parse
  | .word w => if unaryOperators.contains w then applied w else updateExpression parse
  | .mark m => if unaryOperators.contains m then applied m else updateExpression parse
  | _ => updateExpression parse
where
  /-- An operator and its operand. -/
  applied (operator : String) : Parse Node := do
    let start ← here
    bump
    let operand ← parse .unary
    node (.unary operator) start [operand]

/-- Coalescing and the other logical operators may not be mixed without parentheses. -/
def mixesCoalesce (operator : String) (operand : Node) : Bool :=
  match operand.form with
  | .binary inner =>
    (operator == "??" && (inner == "||" || inner == "&&")) ||
      ((operator == "||" || operator == "&&") && inner == "??")
  | _ => false

/-- The operators that bind tighter than a level, with their operands. -/
def binaryRest (parse : Grammar) (level start : Nat) (first : Node) : Parse Node :=
  iterate (fun left => do
    joinGreater
    let token ← peek
    let context ← context
    match levelOf token with
    | none => return none
    | some found =>
      -- Powers alone group to the right.
      if found < level || (found == level && found != 12) then return none
      if token.is "in" && !context.allowsIn then return none
      let operator := match token.lexeme with
        | .word w => w
        | .mark m => m
        | _ => ""
      if operator == "as" || operator == "satisfies" then
        if token.newline then return none
        bump
        let type ← freeType parse
        if !(← typed) then
          report (.typedOnly (if operator == "as" then "Type assertion expressions"
            else "Type satisfaction expressions")) start
        return some (← node .cast start [left, type])
      bump
      let right ← parse (.binary found)
      match left.form, operator with
      | .unary _, "**" => report .exponentOperand start
      | .await_, "**" => report .exponentOperand start
      | _, _ => pure ()
      if mixesCoalesce operator left || mixesCoalesce operator right then
        report .mixedCoalesce start
      return some (← node (.binary operator) start [left, right])) first

/-- An expression whose operators bind tighter than a level. A private name is an operand of `in`
only. -/
def binary (parse : Grammar) (level : Nat) : Parse Node := do
  let token ← peek
  let left ← match token.lexeme with
    | .privateName name =>
      if !(← context).allowsIn then unexpected
      advance
      expect "in"
      let right ← parse (.binary 8)
      node (.privateIn name token.start) token.start [right]
    | _ => parse .unary
  binaryRest parse level token.start left

/-! ### Whole expressions -/

/-- An expression that yields a value. -/
def yieldExpression (parse : Grammar) : Parse Node := do
  let start ← here
  if !(← context).yields then report .strayYield start
  bump
  let next ← peek
  if next.newline then return ← node .yield_ start []
  let delegates ← eat "*"
  let next ← peek
  if !delegates && (next.isOneOf [";", "\x7d", "]", ")", ":", ","] || next.lexeme == .eof) then
    node .yield_ start []
  else
    let operand ← within ({ · with yields := true }) (parse (.assignment true))
    node .yield_ start [operand]

/-- The two branches of a conditional, if a question mark follows. -/
def conditionalRest (parse : Grammar) (start : Nat) (test : Node) (arrowTypes : Bool) :
    Parse Node := do
  if !(← at? "?") then return test
  advance
  let yes ← enclosed (within ({ · with allowsIn := true }) (parse (.assignment false)))
  expect ":"
  let no ← parse (.assignment arrowTypes)
  node .conditional start [test, yes, no]

/-- An expression without commas. -/
def assignment (parse : Grammar) (arrowTypes : Bool) : Parse Node := do
  let token ← peek
  if token.is "yield" then
    if (← context).yields then return ← yieldExpression parse
    if ← operandFollows then return ← yieldExpression parse
  -- An arrow function is no operand: it is sought before anything else is read.
  if let some arrow ← parenArrow? parse arrowTypes then return arrow
  if let some arrow ← asyncSimpleArrow? parse arrowTypes then return arrow
  let left ← binary parse 0
  let next ← peek
  if next.is "=>" then
    match left.form with
    | .reference name => return ← simpleArrow parse token.start name left.start false arrowTypes
    | _ => return left
  match next.lexeme with
  | .mark m =>
    if assignmentOperators.contains m then
      let target ← target m left
      advance
      let value ← parse (.assignment arrowTypes)
      node (.assign m) token.start [target, value]
    else conditionalRest parse token.start left arrowTypes
  | _ => return left

/-- An expression. -/
def expression (parse : Grammar) : Parse Node := do
  let start ← here
  let first ← parse (.assignment true)
  if !(← at? ",") then return first
  let rest ← many do
    if ← at? "," then
      advance
      return some (← parse (.assignment true))
    else return none
  node .sequence start (first :: rest)

end UnusedMethods.Script.Parse
