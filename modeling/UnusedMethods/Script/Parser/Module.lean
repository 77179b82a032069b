import UnusedMethods.Script.Parser.Declaration

/-!
# Modules

Declarations with modifiers before them, imports and exports.
-/

namespace UnusedMethods.Script.Parse

/-! ### Declarations with modifiers -/

/-- Complain about decorators of what is no class. -/
def refuseDecorators (decorators : List Node) : Parse Unit := do
  for decorator in decorators do
    report .decoratorPlace decorator.start

/-- A declaration after its decorators and modifiers. -/
def modified (parse : Grammar) (start : Nat) (decorators : List Node) (seen : Modifiers) :
    Parse Node := do
  let isAmbient := seen.has "declare"
  let allow (words : List String) : Parse Unit :=
    allowModifiers ("declare" :: words) .modifierUnusable seen
  within (fun c => { c with ambient := c.ambient || isAmbient }) do
    let token ← peek
    if !(← typed) && !token.isOneOf ["class", "function", "var", "let", "const", "using"] then
      unexpected
    if !token.is "class" then refuseDecorators decorators
    match token.word? with
    | some "class" =>
      allow ["abstract"]
      classFrom parse start ⟨false, seen.has "abstract", isAmbient⟩ decorators
    | some "function" =>
      allow ["async"]
      functionFrom parse start .declaration (seen.has "async") isAmbient true
    | some "var" =>
      allow []
      variableStatement parse start .var isAmbient
    | some "let" =>
      allow []
      variableStatement parse start .let_ isAmbient
    | some "const" =>
      allow []
      variableStatement parse start .const_ isAmbient
    | some "using" =>
      allow []
      let declared ← variableStatement parse token.start .using_ isAmbient
      report .usingExport token.start
      return declared
    | some "enum" =>
      allow ["const"]
      enumeration parse start (seen.has "const") isAmbient
    | some "type" =>
      allow []
      typeAlias parse start isAmbient
    | some "interface" =>
      allow []
      interface parse start isAmbient
    | some "module" =>
      allow []
      moduleDeclaration parse start isAmbient
    | some "namespace" =>
      allow []
      moduleDeclaration parse start isAmbient
    | some "global" =>
      allow []
      moduleDeclaration parse start isAmbient
    | some "import" =>
      allow []
      advance
      importEquals parse start (← boundName)
    | _ => unexpected

/-! ### Names in braces -/

/-- A name of an export, which may be any word or a string. -/
structure ExportedName where
  text : String
  place : Nat
  stop : Nat
  isString : Bool

namespace ExportedName

def toNode (name : ExportedName) : Node :=
  .mk (.propertyName name.text) name.place name.stop []

/-- The name as a node that refers to a variable. -/
def toReference (name : ExportedName) : Node :=
  .mk (.reference name.text) name.place name.stop []

end ExportedName

/-- The next token may name an export. -/
def atExportedName : Parse Bool := do
  match (← peek).lexeme with
  | .word _ => return true
  | .string .. => return true
  | _ => return false

def exportedName : Parse ExportedName := do
  let token ← peek
  match token.lexeme with
  | .word text =>
    advance
    return ⟨text, token.start, token.stop, false⟩
  | .string text _ isWhole =>
    if !isWhole then report .loneSurrogate token.start
    advance
    return ⟨text, token.start, token.stop, true⟩
  | _ => unexpected

/-- What stands between the commas of an import or export in braces: the first name, the name
after `as` if there is one, and whether only a type is meant. The word `type` may mark a type or be
a name. -/
def specifier : Parse (ExportedName × ExportedName × Bool) := do
  let first ← exportedName
  if (← typed) && first.text == "type" && !first.isString then
    if ← at? "as" then
      -- Either `as` may be the keyword or a name, and the words after them tell.
      let firstAs ← exportedName
      if ← at? "as" then
        let secondAs ← exportedName
        if ← atExportedName then return (firstAs, ← exportedName, true)
        return (first, secondAs, false)
      if ← atExportedName then return (first, ← exportedName, false)
      return (firstAs, firstAs, true)
    if ← atExportedName then return ← renamed (← exportedName) true
    return (first, first, false)
  renamed first false
where
  /-- A name and the name after `as`, which is the same if there is none. -/
  renamed (name : ExportedName) (isType : Bool) : Parse (ExportedName × ExportedName × Bool) := do
    if ← eat "as" then return (name, ← exportedName, isType)
    return (name, name, isType)

/-- An attribute of an import: its name, where that stands, and its value. -/
def importAttribute : Parse (String × Nat × Node) := do
  let token ← peek
  let name ← match token.lexeme with
    | .string text .. => do
      advance
      pure text
    | _ => pure (← anyWord).1
  expect ":"
  return (name, token.start, ← stringLiteral)

/-- Complain about a name that a later attribute repeats. -/
def checkAttributes : List (String × Nat × Node) → Parse Unit
  | [] => pure ()
  | (name, place, _) :: rest => do
    if rest.any (·.1 == name) then report (.redeclared name) place
    checkAttributes rest

/-- Attributes of an import after its source. -/
def attributes (_parse : Grammar) : Parse (List Node) := do
  let token ← peek
  if token.is "with" || (token.is "assert" && !token.newline) then
    advance
    expect "\x7b"
    let parts ← commaList "\x7d" importAttribute
    expect "\x7d"
    checkAttributes parts
    return parts.map fun (_, _, value) => value
  else return []

/-- The source of an import or export: a string literal after `from`. -/
def source : Parse (String × Node) := do
  expect "from"
  let literal ← stringLiteral
  match literal.form with
  | .string value _ => return (value, literal)
  | _ => unexpected

/-! ### Imports -/

/-- A name in the braces of an import. -/
def importSpecifier (ofTypes : Bool) : Parse Node := do
  let start ← here
  let (imported, bound, isType) ← specifier
  if ofTypes && isType then report .typeOfTypeImport start
  if bound.isString then report .nameExpected bound.place
  else if isReserved bound.text then report (.reservedName bound.text) bound.place
  node (.importName bound.text imported.text isType) start
    [.mk (.name bound.text) bound.place (← lastStop) []]

/-- A name for all that a module exports. -/
def importNamespace : Parse Node := do
  let start ← here
  expect "*"
  expect "as"
  let name ← boundName
  match name.form with
  | .name text => node (.importAll text) start [name]
  | _ => unexpected

def importBraces (ofTypes : Bool) : Parse (List Node) := do
  expect "\x7b"
  let parts ← commaList "\x7d" (importSpecifier ofTypes)
  expect "\x7d"
  return parts

/-- The names that an import binds after its default name. -/
def importRest (ofTypes : Bool) : Parse (List Node) := do
  if ← at? "*" then return [← importNamespace]
  if ← at? "\x7b" then importBraces ofTypes
  else unexpected

/-- An import with names, from the first name on. -/
def importFrom (parse : Grammar) (start : Nat) (names : List Node) : Parse Node := do
  let (value, literal) ← source
  let attributes ← attributes parse
  endStatement
  node (.import_ value) start (names ++ literal :: attributes)

/-- A default name as a part of an import. -/
def defaultImport (name : Node) : Parse Node :=
  match name.form with
  | .name text => return .mk (.importDefault text) name.start name.stop [name]
  | _ => unexpected

/-- The word that qualifies an import stands here and is not itself the imported name. -/
def importQualifies : Parse Bool := do
  let token ← peek
  if token.is "type" then
    if !(← typed) then return false
    return ← lookahead do
      advance
      let next ← peek
      if next.is "*" || next.is "\x7b" then return true
      if !next.isName then return false
      if !next.is "from" then return true
      -- `import type from` qualifies only if the name imported is itself `from`.
      advance
      return (← at? "from") || (← at? "=")
  if token.is "defer" then
    return ← lookahead do advance; at? "*"
  if token.is "source" then
    return ← lookahead do
      advance
      let next ← peek
      if !next.isName then return false
      if !next.is "from" then return true
      advance
      at? "from"
  return false

def importStatement (parse : Grammar) : Parse Node := do
  let start ← here
  expect "import"
  match (← peek).lexeme with
  | .string value .. =>
    let literal ← stringLiteral
    let attributes ← attributes parse
    endStatement
    return ← node (.import_ value) start (literal :: attributes)
  | _ => pure ()
  let ofTypes ← if ← importQualifies then do
      let isType ← at? "type"
      advance
      pure isType
    else pure false
  if (← at? "*") || (← at? "\x7b") then
    return ← importFrom parse start (← importRest ofTypes)
  let name ← boundName
  if ← at? "=" then return ← importEquals parse start name
  let first ← defaultImport name
  if ← eat "," then
    let rest ← importRest ofTypes
    importFrom parse start (first :: rest)
  else importFrom parse start [first]

/-! ### Exports -/

/-- Words that no export may refer to, beside those that never name a variable. -/
def unexportedWords : List String :=
  ["await", "implements", "interface", "package", "private", "protected", "public", "static"]

/-- A name in the braces of an export, and the name that it has outside. -/
structure ExportSpecifier where
  start : Nat
  stop : Nat
  name : ExportedName
  exported : ExportedName
  isType : Bool

/-- The specifier as a node. Without a source, the name in it refers to a variable. -/
def ExportSpecifier.toNode (specifier : ExportSpecifier) (hasSource : Bool) : Node :=
  let { start, stop, name, exported, isType } := specifier
  .mk (.exportName name.text exported.text isType) start stop
    [if hasSource then Node.absent else name.toReference, exported.toNode]

/-- A name in the braces of an export. -/
def exportSpecifier (ofTypes : Bool) : Parse ExportSpecifier := do
  let start ← here
  let (name, exported, isType) ← specifier
  if ofTypes && isType then report .typeOfTypeExport start
  return ⟨start, ← lastStop, name, exported, isType⟩

/-- The source of an export of names in braces, if one is written. -/
def exportSource? : Parse (Option (String × Node)) := do
  if !(← eat "from") then return none
  match ← literal? with
  | none => return none
  | some literal =>
    match literal.form with
    | .string value _ => return some (value, literal)
    | _ => fail .unexpectedToken literal.start

/-- An export of names in braces. Without a source they must be names of variables. -/
def exportBraces (parse : Grammar) (start : Nat) (ofTypes : Bool) : Parse Node := do
  expect "\x7b"
  let parts ← commaList "\x7d" (exportSpecifier ofTypes)
  expect "\x7d"
  match ← exportSource? with
  | some (value, literal) =>
    let attributes ← attributes parse
    endStatement
    node (.exportNamed (some value)) start
      (Node.absent :: parts.map (·.toNode true) ++ literal :: attributes)
  | none =>
    for { name, .. } in parts do
      if name.isString then report .stringExport name.place
      else if isReserved name.text || unexportedWords.contains name.text then
        report .reservedExport name.place
    endStatement
    node (.exportNamed none) start (Node.absent :: parts.map (·.toNode false))

/-- An export of all that another module exports. -/
def exportStar (parse : Grammar) (start : Nat) : Parse Node := do
  expect "*"
  let name ← if ← eat "as" then pure (← exportedName).toNode else pure Node.absent
  let (value, literal) ← source
  let attributes ← attributes parse
  endStatement
  node (.exportAll value) start (name :: literal :: attributes)

/-- The next token is followed by another on its line. -/
def followedBy (text : String) : Parse Bool :=
  lookahead do
    advance
    let next ← peek
    return next.is text && !next.newline

/-- Decorators after the words that export a class, which may also stand before those words. -/
def laterDecorators (parse : Grammar) (earlier : List Node) : Parse (List Node) := do
  let later ← decorators parse
  if !earlier.isEmpty then
    for decorator in later do
      report .decoratorTwice decorator.start
  return earlier ++ later

/-- The default export of a module, from its keyword on. -/
def exportDefault (parse : Grammar) (start : Nat) (earlier : List Node) : Parse Node := do
  let keyword := Node.mk (.propertyName "default") (← here) (← peek).stop []
  expect "default"
  let place ← here
  let decorators ← laterDecorators parse earlier
  let token ← peek
  let isAbstract ← if (← typed) && token.is "abstract" then followedBy "class" else pure false
  let declared ← if token.is "class" || isAbstract then do
      if isAbstract then advance
      classFrom parse place ⟨false, isAbstract, (← context).ambient⟩ decorators
    else do
      refuseDecorators decorators
      if token.is "function" then functionFrom parse place .declaration false false false
      else if token.is "async" && (← followedBy "function") then do
        advance
        functionFrom parse place .declaration true false false
      else if (← typed) && token.is "interface" && (← lookahead do
          advance
          let next ← peek
          return next.isName && !next.newline) then
        interface parse place false
      else do
        let value ← within ({ · with allowsIn := true }) (parse (.assignment true))
        endStatement
        pure value
  node .exportDefault start [declared, keyword]

/-- The modifiers of an exported declaration. Plain text has but one of them. -/
def exportedModifiers : Parse Modifiers := do
  if ← typed then return ← declarationModifiers
  if (← at? "async") && (← followedBy "function") then
    let place ← here
    bump
    return [⟨"async", place⟩]
  else return []

def exportDeclaration (parse : Grammar) (start : Nat) (earlier : List Node) : Parse Node := do
  let place ← here
  let decorators ← laterDecorators parse earlier
  let seen ← exportedModifiers
  let declared ← modified parse place decorators seen
  node (.exportNamed none) start [declared]

/-- An exported import, which must give another name to something. -/
def exportImport (parse : Grammar) (start : Nat) : Parse Node := do
  let declared ← importStatement parse
  match declared.form with
  | .importEquals => node (.exportNamed none) start [declared]
  | _ => fail .strayExport declared.start

/-- The words after `export` say that only types are exported by name. -/
def exportsTypes : Parse Bool := do
  if !(← typed) || !(← at? "type") then return false
  lookahead do advance; atOneOf ["\x7b", "*"]

def exportStatement (parse : Grammar) (decorators : List Node) : Parse Node := do
  let start ← here
  expect "export"
  let token ← peek
  if token.is "default" then return ← exportDefault parse start decorators
  let ofTypes ← exportsTypes
  if ofTypes then advance
  if ← at? "*" then
    refuseDecorators decorators
    exportStar parse start
  else if ← at? "\x7b" then
    refuseDecorators decorators
    exportBraces parse start ofTypes
  else if (← typed) && token.is "=" then
    refuseDecorators decorators
    advance
    let value ← parse (.assignment true)
    endStatement
    node .exportAssign start [value]
  else if (← typed) && token.is "as" then
    refuseDecorators decorators
    advance
    expect "namespace"
    let _ ← anyWord
    endStatement
    node .exportNamespace start []
  else if token.is "import" then
    refuseDecorators decorators
    exportImport parse start
  else exportDeclaration parse start decorators

end UnusedMethods.Script.Parse
