import UnusedMethods.Script.Parser.Pattern

/-!
# Types

Types are parsed for what they mention: queries of the type of a value, indexed types, qualified
names, and the expressions in computed keys. All other forms of types only hold their parts.
-/

namespace UnusedMethods.Script.Parse

/-- The types that are one word. -/
def typeWords : List String :=
  ["any", "unknown", "string", "number", "bigint", "boolean", "symbol", "object", "never",
   "undefined", "null", "void"]

/-- Parse a type in which conditional types may be written. -/
def freeType (parse : Grammar) : Parse Node :=
  within ({ · with allowsConditional := true }) (parse .type_)

/-- The next token may begin a type, whatever follows it. -/
def atTypeToken : Parse Bool := do
  let token ← peek
  match token.lexeme with
  | .word _ => return true
  | .string .. => return true
  | .number .. => return true
  | .bigint _ => return true
  | .template .. => return true
  | .mark m => return ["\x7b", "[", "<", "|", "&", "*", "?", "!", "...", "("].contains m
  | _ => return false

/-- The next token is a number. -/
def atNumber : Parse Bool := do
  match (← peek).lexeme with
  | .number .. => return true
  | .bigint _ => return true
  | _ => return false

/-- The next token may begin a type. A sign needs a number after it, and a parenthesis a parameter
or a type. -/
def atType : Parse Bool := do
  if ← at? "-" then lookahead do advance; atNumber
  else if ← at? "(" then
    lookahead do
      advance
      if ← atOneOf [")", "@"] then return true
      atTypeToken
  else atTypeToken

/-- Split a token that begins with a less-than sign, so that the sign stands alone. -/
def splitLess : Parse Unit := do
  let token ← peek
  if token.isOneOf ["<<", "<<=", "<="] then retake (Lexed.firstMark "<" token)

/-- Join a greater-than sign with what follows it into the longest operator. -/
def joinGreater : Parse Unit := do
  let token ← peek
  if token.is ">" then retake (Lexed.greater (← read).text token)

/-- Types in angle brackets, given to what stands before them. -/
def typeArguments (parse : Grammar) : Parse Node := do
  splitLess
  let start ← here
  expect "<"
  let types ← commaList ">" (freeType parse)
  if types.isEmpty && (← at? ">") then report .emptyTypeArguments start
  expect ">"
  node .type_ start types

/-- The next token begins type arguments, on the same line. -/
def atTypeArguments : Parse Bool := do
  let token ← peek
  return token.isOneOf ["<", "<<"] && !token.newline

/-- Type arguments on the same line, if there are any. -/
def typeArguments? (parse : Grammar) : Parse Node := do
  if ← atTypeArguments then typeArguments parse else return Node.absent

/-- A type parameter. -/
def typeParameter (parse : Grammar) : Parse Node := do
  let start ← here
  let seen ← modifiers true false
  allowModifiers ["in", "out", "const"] .modifierOnTypeParameter seen
  let name ← boundName
  let bound ← if ← eat "extends" then parse .type_ else pure Node.absent
  let default ← if ← eat "=" then parse .type_ else pure Node.absent
  node (.typeParameter (seen.has "in") (seen.has "out")) start [name, bound, default]

/-- Type parameters in angle brackets, absent if none are written. -/
def typeParameters (parse : Grammar) : Parse Node := do
  if !(← typed) || !(← at? "<") then return Node.absent
  let start ← here
  advance
  let parts ← commaList ">" (typeParameter parse)
  if parts.isEmpty && (← at? ">") then report .emptyTypeParameters start
  expect ">"
  node .typeParameters start parts

/-- A name of a type, qualified or not. -/
def typeName (_parse : Grammar) : Parse Node := do
  let (name, start) ← anyWord
  let first ← node (.typeName name) start []
  iterate (fun left => do
    if ← at? "." then
      advance
      let (name, place) ← anyWord
      return some (← node (.qualified name place) start [left])
    else return none) first

/-- A type that is named. -/
def typeReference (parse : Grammar) : Parse Node := do
  let start ← here
  let name ← typeName parse
  let arguments ← typeArguments? parse
  node .type_ start [name, arguments]

/-- A type that stands as an annotation, after a token that is already read. -/
def typingFrom (parse : Grammar) (start : Nat) : Parse Node := do
  let type ← freeType parse
  node .typing start [type]

/-- A type, or a statement that a parameter has a type. -/
def typeOrPredicate (parse : Grammar) : Parse Node := do
  let start ← here
  let token ← peek
  let isPredicate ← if token.isWord then lookahead do
      advance
      let next ← peek
      return next.is "is" && !next.newline
    else pure false
  if isPredicate then
    advance
    advance
    let type ← typingFrom parse (← here)
    node .type_ start [type]
  else parse .type_

/-- The type of a function's result after a colon, absent if none is written. -/
def resultType (parse : Grammar) : Parse Node := do
  if (← typed) && (← at? ":") then
    let start ← here
    advance
    let type ← within ({ · with allowsConditional := true }) (typeOrPredicate parse)
    node .typing start [type]
  else return Node.absent

/-- The type of a function or a constructor. Whatever token follows the parameters, it is taken for
the arrow. -/
def functionType (parse : Grammar) : Parse Node := do
  let start ← here
  let _ ← eat "abstract"
  let _ ← eat "new"
  let typeParameters ← typeParameters parse
  let parameters ← parameters parse
  let arrow ← here
  bump
  let type ← typeOrPredicate parse
  let result ← node .typing arrow [type]
  node .signature start [typeParameters, parameters, result]

/-- Skip what a parameter begins with. -/
def skipParameterStart (parse : Grammar) : Parse Bool := do
  let _ ← modifiers false false
  let token ← peek
  if token.isName || token.is "this" then
    advance
    return true
  if token.is "[" || token.is "\x7b" then
    let before := (← get).faults.size
    let _ ← parse .pattern
    return (← get).faults.size == before
  return false

/-- The next tokens begin the type of a function. -/
def atFunctionType (parse : Grammar) : Parse Bool := do
  let token ← peek
  if token.is "<" || token.is "new" then return true
  if token.is "abstract" then
    return ← lookahead do advance; at? "new"
  if !token.is "(" then return false
  lookahead do
    advance
    if ← atOneOf [")", "..."] then return true
    if ← skipParameterStart parse then
      if ← atOneOf [":", ",", "?", "="] then return true
      if ← at? ")" then
        advance
        return ← at? "=>"
    return false

/-- The next tokens begin an index signature. -/
def atIndexSignature : Parse Bool := do
  if !(← at? "[") then return false
  lookahead do
    advance
    if ← atOneOf ["...", "]"] then return true
    let token ← peek
    if token.isOneOf modifierWords then
      advance
      if (← peek).isName then return true
    else if !token.isName then return false
    else advance
    if ← atOneOf [":", ","] then return true
    if !(← at? "?") then return false
    advance
    atOneOf [":", ",", "]"]

/-- End a member of a type: a comma or a semicolon may stand there, or nothing. -/
def endTypeMember : Parse Unit := do
  if !(← eat ",") then
    let _ ← eat ";"

/-- A parameter of an index signature. -/
def indexParameter (parse : Grammar) : Parse Node := do
  let (_, start) ← anyWord
  if ← at? "?" then
    report .indexQuestion (← here)
    advance
  let type ← typing parse
  if !type.isPresent then unexpected
  node .type_ start [type]

/-- An index signature. -/
def indexSignature (parse : Grammar) (start : Nat) (seen : Modifiers) : Parse Node := do
  allowModifiers ["readonly", "static"] .modifierOnIndex seen
  expect "["
  let (parts, comma) ← commaListTrailing "]" (indexParameter parse)
  match comma with
  | some place => report (.trailingComma "Index signature declarations") place
  | none => pure ()
  if parts.length != 1 then report .indexParameters start
  expect "]"
  let type ← typing parse
  if !type.isPresent then fail .indexUntyped start
  endTypeMember
  node .type_ start (parts ++ [type])

/-- The parameters and the result of a signature. -/
def signatureRest (parse : Grammar) (start : Nat) (before : List Node) : Parse Node := do
  let typeParameters ← typeParameters parse
  let parameters ← parameters parse
  let result ← resultType parse
  endTypeMember
  node .type_ start (before ++ [← node .signature start [typeParameters, parameters, result]])

/-- A getter or a setter of an object type, after its keyword. -/
def accessorSignature (parse : Grammar) (start : Nat) (isSetter : Bool) : Parse Node := do
  let (key, _) ← propertyKey parse
  let parameters ← parameters parse
  let result ← resultType parse
  endTypeMember
  if isSetter && result.isPresent then report .setterResult result.start
  let signature ← node .signature start [Node.absent, parameters, result]
  node .type_ start [key, signature]

/-- A property or a method of an object type. -/
def propertySignature (parse : Grammar) (start : Nat) (seen : Modifiers) : Parse Node := do
  let (key, _) ← propertyKey parse
  let _ ← eat "?"
  if ← atOneOf ["(", "<"] then
    let signature ← signatureRest parse start [key]
    match seen.head? with
    | some modifier => report .modifierReadonly modifier.place
    | none => pure ()
    return signature
  else
    let type ← typing parse
    endTypeMember
    node .type_ start [key, type]

/-- A member of an object type. -/
def typeMember (parse : Grammar) : Parse Node := do
  let start ← here
  if ← atOneOf ["(", "<"] then return ← signatureRest parse start []
  if (← at? "new") && (← lookahead do advance; atOneOf ["(", "<"]) then
    advance
    return ← signatureRest parse start []
  let seen ← modifiers false false
  allowModifiers ["readonly"] .modifierOnTypeMember seen
  if ← contextual "get" then return ← accessorSignature parse start false
  if ← contextual "set" then return ← accessorSignature parse start true
  if ← atIndexSignature then return ← indexSignature parse start seen
  propertySignature parse start seen

/-- The members of an object type, in braces. -/
def typeMembers (parse : Grammar) : Parse (List Node) :=
  bracketed "\x7b" "\x7d" do return some (← typeMember parse)

/-- The next tokens begin a mapped type. -/
def atMappedType : Parse Bool :=
  lookahead do
    expect "\x7b"
    if ← atOneOf ["+", "-"] then
      advance
      return ← at? "readonly"
    if ← at? "readonly" then advance
    if !(← at? "[") then return false
    advance
    if !(← peek).isWord then return false
    advance
    at? "in"

/-- A mapped type. -/
def mappedType (parse : Grammar) : Parse Node := do
  let start ← here
  expect "\x7b"
  if ← atOneOf ["+", "-"] then
    advance
    expect "readonly"
  else
    let _ ← eat "readonly"
  expect "["
  let name ← boundName
  expect "in"
  let keys ← freeType parse
  let renamed ← if ← eat "as" then freeType parse else pure Node.absent
  expect "]"
  if ← atOneOf ["+", "-"] then
    advance
    expect "?"
  else
    let _ ← eat "?"
  let type ← if ← at? ":" then do
      let colon ← here
      advance
      typingFrom parse colon
    else pure Node.absent
  let _ ← eat ";"
  expect "\x7d"
  node .signature start [name, keys, renamed, type]

/-- An element of a tuple type. -/
def tupleElement (parse : Grammar) : Parse Node := do
  let start ← here
  let isNamed ← lookahead do
    let _ ← eat "..."
    if !(← peek).isWord then return false
    advance
    if ← at? ":" then return true
    if ← at? "?" then
      advance
      return ← at? ":"
    return false
  if isNamed then
    let isRest ← eat "..."
    let _ ← anyWord
    let isOptional ← eat "?"
    expect ":"
    let place ← here
    let (type, rest, optional) ← tupleType
    if isRest && isOptional then report .tupleOptionalRest start
    else if optional then report .tupleLateOptional place
    else if rest then report .tupleLateRest place
    node .type_ start [type]
  else
    let (type, _) ← tupleType
    node .type_ start [type]
where
  /-- The type of an element, and whether it is marked as the rest or as optional. -/
  tupleType : Parse (Node × Bool × Bool) := do
    let isRest ← eat "..."
    let type ← freeType parse
    let isOptional := match type.form with
      | .markedType "?" isBefore => !isBefore
      | _ => false
    return (type, isRest, isOptional && !isRest)

/-- The rest of a template, in which each substitution is read by a parser. A substitution that is
broken at its closing brace leaves the template without an end. -/
def templateRest (item : Parse Node) (tagged : Bool) : Parse (List Node) := do
  let check (token : Token) : Parse Bool := do
    match token.lexeme with
    | .template _ closes wellFormed =>
      if !wellFormed && !tagged then report .badTemplateEscape token.start
      return closes
    | _ => return false
  let first ← peek
  let closes ← check first
  advance
  if closes then return []
  let (found, _) ← iterate (fun ((found, closed) : Array Node × Bool) => do
    if closed then return none
    let part ← try item catch fault =>
      let s ← get
      if s.token.is "\x7d" && !s.passed then
        let stop := (← read).text.utf8ByteSize
        set { s with tokenFaults := s.tokenFaults.push ⟨.openString, stop - 1⟩, passed := true }
      throw fault
    let token ← peek
    if !token.is "\x7d" then
      enclosed (fail (.expected "\x7d" token.lexeme.describe) token.start)
    retake (Lexed.templatePart (← read).text token.start false token.newline)
    let token ← peek
    let closes ← check token
    if token.isBroken then unexpected
    advance
    return some (found.push part, closes)) (#[], false)
  return found.toList

/-- The type of what a module exports. -/
def importType (parse : Grammar) (start : Nat) : Parse Node := do
  expect "import"
  expect "("
  let place ← here
  let isString := match (← peek).lexeme with
    | .string .. => true
    | _ => false
  let argument ← freeType parse
  if !isString then report .stringExpected place
  let options ← if (← eat ",") && !(← at? ")") then do
      if !(← at? "\x7b") then expect "\x7b"
      let options ← parse .primary
      let _ ← eat ","
      pure options
    else pure Node.absent
  expect ")"
  let _ ← many do
    if ← at? "." then
      advance
      return some (← anyWord)
    else return none
  let arguments ← typeArguments? parse
  node .type_ start [argument, options, arguments]

/-- The type of a value. -/
def typeQuery (parse : Grammar) : Parse Node := do
  let start ← here
  expect "typeof"
  if ← at? "import" then
    let type ← importType parse (← here)
    node .typeQuery start [type]
  else
    let name ← typeName parse
    let token ← peek
    let arguments ← if token.is "<" && !token.newline then typeArguments parse
      else pure Node.absent
    node .typeQuery start [name, arguments]

/-- A literal as a type. -/
def literalType (_parse : Grammar) : Parse Node := do
  let start ← here
  let _ ← eat "-"
  match ← literal? with
  | some leaf => node .literalType start [leaf]
  | none => unexpected

/-- A statement that a parameter is asserted, which may have a type. -/
def assertion (parse : Grammar) : Parse Node := do
  let start ← here
  expect "asserts"
  advance
  if ← eat "is" then
    let type ← typingFrom parse (← here)
    node .type_ start [type]
  else node .type_ start []

/-- A type that is not made from the one before it, without marks before it. -/
def unmarkedType (parse : Grammar) : Parse Node := do
  let token ← peek
  let start := token.start
  match token.lexeme with
  | .string .. => literalType parse
  | .number .. => literalType parse
  | .bigint _ => literalType parse
  | .template .. => node .type_ start (← templateRest (freeType parse) false)
  | .mark "-" =>
    if ← lookahead do advance; atNumber then literalType parse else unexpected
  | .mark "\x7b" =>
    if ← atMappedType then mappedType parse
    else
      let members ← typeMembers parse
      node .type_ start members
  | .mark "[" =>
    advance
    let elements ← commaList "]" (tupleElement parse)
    expect "]"
    node .listType start elements
  | .mark "(" =>
    advance
    let type ← freeType parse
    expect ")"
    node .type_ start [type]
  | .mark "?" =>
    advance
    if ← atOneOf [",", "\x7d", ")", ">", "=", "|"] then node .type_ start []
    else node (.markedType "?" true) start [← parse .type_]
  | .word "true" => literalType parse
  | .word "false" => literalType parse
  | .word "typeof" => typeQuery parse
  | .word "import" => importType parse start
  | .word "this" =>
    advance
    if (← at? "is") && !(← peek).newline then
      advance
      let type ← typingFrom parse (← here)
      node .type_ start [type]
    else node .type_ start []
  | .word "asserts" =>
    let isAssertion ← lookahead do
      advance
      let next ← peek
      return next.isWord && !next.newline
    if isAssertion then assertion parse else typeReference parse
  | .word w =>
    if typeWords.contains w && !(← lookahead do advance; at? ".") then
      advance
      node .type_ start []
    else typeReference parse
  | _ => unexpected

/-- A type that is not made from the one before it. -/
def primaryType (parse : Grammar) : Parse Node := do
  let marks ← many do
    if ← at? "!" then
      let place ← here
      advance
      return some place
    else return none
  let type ← unmarkedType parse
  let stop ← lastStop
  return marks.foldr (fun place inner => .mk (.markedType "!" true) place stop [inner]) type

/-- A type with the brackets and marks after it. -/
def postfixType (parse : Grammar) : Parse Node := do
  let start ← here
  let first ← primaryType parse
  iterate (fun type => do
    let token ← peek
    if token.newline then return none
    match token.lexeme with
    | .mark "!" =>
      advance
      return some (← node (.markedType "!" false) start [type])
    | .mark "?" =>
      if ← lookahead do advance; atType then return none
      advance
      return some (← node (.markedType "?" false) start [type])
    | .mark "[" =>
      advance
      if ← atType then
        let index ← freeType parse
        expect "]"
        return some (← node .indexedAccess start [type, index])
      else
        expect "]"
        return some (← node .listType start [type])
    | _ => return none) first

/-- A place for an inferred type. -/
def inferredType (parse : Grammar) : Parse Node := do
  let start ← here
  expect "infer"
  let name ← boundName
  let bound ← attempt do
    if !(← eat "extends") then return none
    let bound ← within ({ · with allowsConditional := false }) (parse .type_)
    if !(← context).allowsConditional || !(← at? "?") then return some bound
    return none
  node .type_ start [name, bound.getD Node.absent]

/-- Complain about a type of values that cannot be made read-only. -/
def checkReadonly (type : Node) (start : Nat) : Parse Unit :=
  match type.form with
  | .listType => return
  | _ => report .readonlyType start

/-- A type with the operators before it. -/
def typeOperator (parse : Grammar) : Parse Node := do
  let token ← peek
  if token.isOneOf ["keyof", "unique", "readonly"] then
    bump
    let type ← parse .typeOperator
    if token.is "readonly" then checkReadonly type token.start
    return ← node .type_ token.start [type]
  if token.is "infer" then return ← inferredType parse
  within ({ · with allowsConditional := true }) (postfixType parse)

/-- Types joined by an operator, which may also stand before the first of them. -/
def joinedTypes (operator : String) (item : Parse Node) : Parse Node := do
  let start ← here
  let leads ← eat operator
  let first ← item
  if !leads && !(← at? operator) then return first
  let rest ← many do
    if ← eat operator then return some (← item) else return none
  node .type_ start (first :: rest)

/-- A type. -/
def type (parse : Grammar) : Parse Node := do
  if ← atFunctionType parse then return ← functionType parse
  let start ← here
  let checked ← joinedTypes "|" (joinedTypes "&" (parse .typeOperator))
  let token ← peek
  if (← context).allowsConditional && token.is "extends" && !token.newline then
    advance
    let bound ← within ({ · with allowsConditional := false }) (parse .type_)
    expect "?"
    let yes ← freeType parse
    expect ":"
    let no ← freeType parse
    node .type_ start [checked, bound, yes, no]
  else return checked

end UnusedMethods.Script.Parse
