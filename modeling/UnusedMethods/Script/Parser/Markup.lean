import UnusedMethods.Script.Parser.Literal

/-!
# Markup

Elements written as tags. Between tags there is text, which is not divided into tokens; so the
token after a tag is read in a way of its own.
-/

namespace UnusedMethods.Script.Parse

/-- Read a token after which text may stand. -/
def advanceToText : Parse Unit := do
  let text := (← read).text
  -- The next token is not read by `advance`, which would skip blanks: between tags they are text.
  modify fun s => { s with lastStop := s.token.stop }
  retake (Lexed.markupChild text (← lastStop))

/-- Read the equals sign of an attribute, after which strings have no escapes. -/
def advanceToValue : Parse Unit := do
  let env ← read
  modify fun s => { s with lastStop := s.token.stop }
  retake (Lexed.markupValue (!env.dialect.isModule) env.text (← lastStop))

/-- Read a closing token, after which text may stand. -/
def expectBeforeText (mark : String) (nested : Bool) : Parse Unit := do
  let token ← peek
  if !token.is mark then fail (.expected mark token.lexeme.describe) token.start
  if nested then advanceToText else advance

/-- A word in a tag, which may hold hyphens. -/
def tagWord : Parse String := do
  let token ← peek
  if !token.isWord then unexpected
  retake (Lexed.markupName (← read).text token)
  let word := (← peek).word?.getD ""
  advance
  return word

/-- The name of a member in a tag. Dashes, which other names may hold, are refused in it. -/
def tagMember : Parse String := do
  let start := (← peek).start
  let word ← tagWord
  if word.contains '-' then fail .unexpectedToken start
  return word

/-- The name in a tag: a word, a word in a namespace, or a member. -/
def tagName : Parse String := do
  let first ← tagWord
  if ← at? ":" then
    advance
    return first ++ ":" ++ (← tagWord)
  iterate (fun name => do
    if ← at? "." then
      advance
      return some (name ++ "." ++ (← tagMember))
    else return none) first

def attributeValue (parse : Grammar) : Parse Node := do
  let token ← peek
  match token.lexeme with
  | .string .. => stringLiteral
  | .mark "\x7b" =>
    advance
    if ← at? "\x7d" then
      report .emptyMarkupExpression token.start
      advance
      node .markup token.start []
    else
      let value ← enclosed (parse .expression)
      expect "\x7d"
      node .markupExpression token.start [value]
  | .mark "<" => parse (.element false)
  | _ => unexpected

def tagAttribute (parse : Grammar) : Parse Node := do
  let start ← here
  if ← at? "\x7b" then
    advance
    expect "..."
    let value ← enclosed (parse .expression)
    expect "\x7d"
    node .markup start [value]
  else
    let _ ← tagWord
    if ← at? ":" then
      advance
      let _ ← tagWord
    if ← at? "=" then
      advanceToValue
      let value ← attributeValue parse
      node .markup start [value]
    else node .markup start []

/-- An expression between tags. -/
def markupExpression (parse : Grammar) : Parse Node := do
  let start ← here
  expect "\x7b"
  if ← at? "\x7d" then
    expectBeforeText "\x7d" true
    node .markup start []
  else
    let form := if ← eat "..." then Form.markup else .markupExpression
    let value ← enclosed (parse .expression)
    expectBeforeText "\x7d" true
    node form start [value]

/-- What stands between an opening and a closing tag. -/
def markupChildren (parse : Grammar) : Parse (List Node) :=
  many do
    let token ← peek
    match token.lexeme with
    | .mark "<" =>
      -- The closing tag belongs to the element around.
      if ← lookahead do advance; at? "/" then return none
      return some (← parse (.element true))
    | .mark "\x7b" => return some (← markupExpression parse)
    | .markupText =>
      advanceToText
      return some (← node .markup token.start [])
    | _ => unexpected

/-- An element, or several between empty tags. -/
def element (parse : Grammar) (nested : Bool) : Parse Node := do
  let start ← here
  expect "<"
  if ← at? ">" then
    expectBeforeText ">" true
    let children ← markupChildren parse
    expect "<"
    expect "/"
    expectBeforeText ">" nested
    node .markup start children
  else
    let name ← tagName
    let arguments ← if (← typed) && (← atOneOf ["<", "<<"]) then typeArguments parse
      else pure Node.absent
    let attributes ← many do
      if (← atOneOf ["/", ">", "<"]) || (← peek).isBroken then return none
      return some (← tagAttribute parse)
    if ← eat "/" then
      expectBeforeText ">" nested
      node .markup start (arguments :: attributes)
    else
      expectBeforeText ">" true
      let children ← markupChildren parse
      expect "<"
      expect "/"
      let closing ← here
      let closed ← tagName
      if closed != name then report (.markupMismatch name) closing
      expectBeforeText ">" nested
      node .markup start (arguments :: attributes ++ children)

end UnusedMethods.Script.Parse
