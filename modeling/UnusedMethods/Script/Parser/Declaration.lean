import UnusedMethods.Script.Parser.Expression

/-!
# Declarations

Variables, and what only typed text declares: type aliases, interfaces, enumerations and
namespaces.
-/

namespace UnusedMethods.Script.Parse

/-! ### Variables -/

/-- The pattern of a declarator, without its type. -/
def patternOf (declarator : Node) : Node :=
  match (declarator.part 0).form with
  | .annotated _ => (declarator.part 0).part 0
  | _ => declarator.part 0

/-- Variables that release what they hold. -/
def releases (binding : Binding) : Bool :=
  binding = .using_ || binding = .awaitUsing

/-- Complain about a declarator that lacks the value it needs. -/
def checkInitializer (binding : Binding) (declarator : Node) : Parse Unit := do
  if (← context).ambient || (declarator.part 1).isPresent || releases binding then return
  match (patternOf declarator).form with
  | .name _ =>
    if binding = .const_ then report (.noInitializer "const") (declarator.part 0).start
  | _ => report (.noInitializer "destructuring") (declarator.part 0).start

/-- Complain about a variable that releases what it holds if it is a pattern or holds nothing. -/
def checkReleasing (inLoop : Bool) (declarator : Node) : Parse Unit := do
  match (patternOf declarator).form with
  | .name _ => pure ()
  | _ => report .usingPattern (declarator.part 0).start
  if !inLoop && !(declarator.part 1).isPresent then
    report .usingInitializer (declarator.part 0).start

/-- A variable with its type and its value. -/
def declarator (parse : Grammar) (binding : Binding) (inLoop : Bool) : Parse Node := do
  let start ← here
  let pattern ← parse .pattern
  let isName := match pattern.form with | .name _ => true | _ => false
  -- At the start of the next line, the mark would negate an expression.
  let definite ← if (← typed) && isName && (← at? "!") && !(← peek).newline then do
      let place ← here
      advance
      pure (some place)
    else pure none
  let typedPattern ← annotated parse (← optionalMark) pattern
  let value ← if ← eat "=" then parse (.assignment true) else pure Node.absent
  let declarator ← node (.declarator definite) start [typedPattern, value]
  if releases binding then checkReleasing inLoop declarator
  else if !inLoop then checkInitializer binding declarator
  return declarator

/-- The bindings after the keyword that declares them. -/
def bindings (parse : Grammar) (start : Nat) (binding : Binding) (inLoop isAmbient : Bool) :
    Parse Node := do
  let declarators ← oneOrMore (declarator parse binding inLoop)
  node (.bindings binding isAmbient) start declarators

def variableStatement (parse : Grammar) (start : Nat) (binding : Binding) (isAmbient : Bool) :
    Parse Node := do
  bump
  let declared ← within ({ · with allowsIn := true }) (bindings parse start binding false isAmbient)
  endStatement
  return .mk declared.form start (← lastStop) declared.children

/-! ### Types -/

/-- A type alias, from its keyword on. One word stands for a type that no text can spell out. -/
def typeAlias (parse : Grammar) (start : Nat) (isAmbient : Bool) : Parse Node := do
  expect "type"
  let name ← boundName
  let typeParameters ← typeParameters parse
  expect "="
  -- Before a point, the word is the name of a namespace.
  let isIntrinsic ← if ← at? "intrinsic" then lookahead do advance; return !(← at? ".")
    else pure false
  let type ← if isIntrinsic then do
      let place ← here
      advance
      node .type_ place []
    else freeType parse
  endStatement
  node (.typeAlias isAmbient) start [name, typeParameters, type]

/-- A name, or a member of what such an expression names. -/
def isEntityName : Node → Bool
  | .mk form _ _ children =>
    match form, children with
    | .reference _, _ => true
    | .member .., [object] => isEntityName object
    | _, _ => false

/-- An interface, from its keyword on. -/
def interface (parse : Grammar) (start : Nat) (isAmbient : Bool) : Parse Node := do
  expect "interface"
  let name ← boundName
  let typeParameters ← typeParameters parse
  let { extended, implementsPlace, .. } ← heritages parse
  let members ← typeMembers parse
  for part in extended do
    if !isEntityName (part.part 0) then report .interfaceExtends part.start
  match implementsPlace with
  | some place => report .interfaceImplements place
  | none => pure ()
  node (.interface_ isAmbient) start [name, typeParameters, .group extended, .group members]

/-- The key of a member of an enumeration. -/
def enumKey (parse : Grammar) : Parse Node := do
  let token ← peek
  match token.lexeme with
  | .mark "[" =>
    let (key, _) ← propertyKey parse
    match key.form with
    | .string .. => return key
    | .number .. => fail .numericEnumMember key.start
    | .template => if key.children.isEmpty then return key else fail .enumComputedName key.start
    | _ => fail .enumComputedName key.start
  | .template .. => fail .enumComputedName token.start
  | .number .. => fail .numericEnumMember token.start
  | .bigint _ => fail .numericEnumMember token.start
  | _ => return (← propertyKey parse).1

def enumMember (parse : Grammar) : Parse Node := do
  let start ← here
  let key ← enumKey parse
  let value ← if ← at? "=" then initializer parse else pure Node.absent
  node .enumMember start [key, value]

/-- An enumeration, from its keyword on. -/
def enumeration (parse : Grammar) (start : Nat) (isConst isAmbient : Bool) : Parse Node := do
  expect "enum"
  let name ← boundName
  expect "\x7b"
  let members ← within (fun c => { c with awaits := false, yields := false }) do
    commaList "\x7d" (enumMember parse)
  expect "\x7d"
  node (.enum_ isConst isAmbient) start [name, .group members]

/-! ### Namespaces -/

/-- The statements of a namespace, in braces. -/
def namespaceBody (parse : Grammar) : Parse Node := do
  let start ← here
  expect "\x7b"
  let found ← statements parse
  expect "\x7d"
  node .body start found

/-- The rest of a namespace: its statements, or after a point a namespace inside it. -/
def namespaceFrom (parse : Grammar) (start : Nat) (isAmbient : Bool) : Parse Node := do
  let first ← boundName
  let rest ← many do
    if ← eat "." then return some (← boundName) else return none
  let body ← namespaceBody parse
  let stop ← lastStop
  -- Every inner namespace reaches to the end of the outermost.
  let inner := rest.foldr
    (fun name body => Node.mk (.module_ false) name.start stop [name, body]) body
  node (.module_ isAmbient) start [first, inner]

/-- A namespace or an ambient module, from its keyword on. -/
def moduleDeclaration (parse : Grammar) (start : Nat) (isAmbient : Bool) : Parse Node := do
  let keyword ← peek
  bump
  if keyword.is "global" then
    let body ← namespaceBody parse
    return ← node (.module_ isAmbient) start [Node.absent, body]
  match (← peek).lexeme with
  | .string .. =>
    if keyword.is "namespace" then unexpected
    let name ← stringLiteral
    if ← at? "\x7b" then
      let body ← namespaceBody parse
      node (.module_ isAmbient) start [name, body]
    else
      endStatement
      node (.module_ isAmbient) start [name, Node.absent]
  | _ => namespaceFrom parse start isAmbient

/-- An import that gives another name to a module or a member of a namespace, from its name on. -/
def importEquals (parse : Grammar) (start : Nat) (name : Node) : Parse Node := do
  expect "="
  let source ← if ← eat "require" then do
      expect "("
      let source ← stringLiteral
      expect ")"
      pure source
    else typeName parse
  endStatement
  if !(← typed) then report (.typedOnly "'import ... ='") start
  node .importEquals start [name, source]

/-- The next tokens begin a declaration of typed text. -/
def atTypedDeclaration : Parse Bool := do
  let token ← peek
  if !(token.isOneOf ["interface", "type", "module", "namespace", "declare", "enum", "private",
    "protected", "public", "abstract", "accessor", "static", "readonly", "global"]) then
    return false
  lookahead do
    -- Modifiers are skipped until a word decides.
    let decided ← iterate (fun (answer : Option Bool) => do
      if answer.isSome then return none
      let token ← peek
      match token.word? with
      | none => return some (some false)
      | some w =>
        if ["var", "let", "const", "function", "class", "enum"].contains w then
          return some (some true)
        if w == "interface" || w == "type" then
          advance
          let next ← peek
          return some (some (next.isName && !next.newline))
        if w == "module" || w == "namespace" then
          advance
          let next ← peek
          let named := match next.lexeme with | .string .. => true | _ => next.isName
          return some (some (named && !next.newline))
        if w == "global" then
          advance
          let next ← peek
          return some (some (next.is "\x7b" || next.isName || next.is "export"))
        if w == "export" then
          advance
          let isType ← at? "type"
          let next ← if isType then do
              let saved ← get
              advance
              let next ← peek
              restore saved
              pure next
            else peek
          if next.isOneOf ["=", "*", "\x7b", "default", "as", "@"] then return some (some true)
          return some none
        if w == "import" then
          advance
          let next ← peek
          let follows := match next.lexeme with | .string .. => true | _ => next.isName
          return some (some (follows || next.is "*" || next.is "\x7b"))
        if w == "static" then
          advance
          return some none
        if ["abstract", "accessor", "async", "declare", "private", "protected", "public",
            "readonly"].contains w then
          advance
          if (← peek).newline then return some (some false)
          return some none
        return some (some false)) none
    return decided.getD false

end UnusedMethods.Script.Parse
