import UnusedMethods.Script.Parser.Function

/-!
# Classes

A class has decorators, a name, type parameters, a class that it extends, interfaces that it
implements, and members: methods, fields, index signatures and blocks.
-/

namespace UnusedMethods.Script.Parse

/-- The key is written out, without brackets, and spells a name. -/
def isPlainKey (key : Node) (isComputed : Bool) (name : String) : Bool :=
  !isComputed && match key.form with
    | .propertyName text => text == name
    | .string text _ => text == name
    | _ => false

/-- The key of a member of a class. -/
def memberKey (parse : Grammar) (seen : Modifiers) : Parse (Node × Bool) := do
  for modifier in seen do
    if modifier.word == "const" then report .constMember modifier.place
  let token ← peek
  match token.lexeme with
  | .privateName name =>
    match seen.accessModifier? with
    | some modifier => report .accessibilityPrivate modifier.place
    | none => pure ()
    advance
    if name == "constructor" then report .privateConstructor token.start
    return (← node (.privateName name) token.start [], false)
  | _ => propertyKey parse

/-- The traits that modifiers give a member. -/
def memberTraits (seen : Modifiers) (isComputed isOptional : Bool) : MemberTraits where
  isStatic := seen.has "static"
  isComputed := isComputed
  isAbstract := seen.has "abstract"
  isAmbient := seen.has "declare"
  isOptional := isOptional
  accessibility := seen.accessibility?

/-! ### Modifiers of members -/

def memberWords : List String :=
  ["public", "protected", "private", "static", "abstract", "override"]

/-- What is wrong with a modifier before a member that does not take it. -/
def memberModifierComplaint (word : String) : Complaint :=
  match word with
  | "in" => .modifierVariance word
  | "out" => .modifierVariance word
  | "readonly" => .modifierReadonly
  | "async" => .modifierUnusable word
  | _ => .modifierOnElement word

/-- Complain about a key that no static member may have. -/
def checkStaticKey (seen : Modifiers) (key : Node) (isComputed : Bool) : Parse Unit := do
  if seen.has "static" && isPlainKey key isComputed "prototype" then
    report .staticPrototype key.start

/-! ### Members -/

/-- A getter or a setter of a class, after its keyword. -/
def classAccessor (parse : Grammar) (start : Nat) (decorators : List Node) (seen : Modifiers)
    (isGetter : Bool) : Parse Node := do
  let (key, isComputed) ← memberKey parse seen
  checkStaticKey seen key isComputed
  if !seen.has "static" && isPlainKey key isComputed "constructor" then
    report .constructorAccessor key.start
  let function ← methodFunction parse false false (parameters parse)
  checkAccessor isGetter function
  allowModifiers memberWords .modifierUnusable seen
  node (.method (if isGetter then .getter else .setter) (memberTraits seen isComputed false)) start
    [.group decorators, key, function]

def classConstructor (parse : Grammar) (start : Nat) (decorators : List Node) (seen : Modifiers) :
    Parse Node := do
  let (key, _) ← memberKey parse seen
  if seen.has "async" then report .constructorAsync key.start
  let function ← methodFunction parse false false (constructorParameters parse)
  match thisOf? (function.part 2) with
  | some this => report .constructorThis this.start
  | none => pure ()
  if (function.part 1).isPresent then report .constructorTypes (function.part 1).start
  allowModifiers (["async", "accessor", "const"] ++ memberWords) memberModifierComplaint seen
  node (.method .constructor (memberTraits seen false false)) start
    [.group decorators, key, function]

/-- A method of a class, after its key. -/
def classMethod (parse : Grammar) (start : Nat) (decorators : List Node) (seen : Modifiers)
    (isGenerator : Bool) (key : Node) (isComputed isOptional : Bool) : Parse Node := do
  checkStaticKey seen key isComputed
  if !seen.has "static" && isPlainKey key isComputed "constructor" then
    if isGenerator then report .constructorGenerator key.start
    else if seen.has "async" then report .constructorAsync key.start
  let function ← methodFunction parse (seen.has "async") isGenerator (parameters parse)
  allowModifiers (["async", "accessor", "const"] ++ memberWords) memberModifierComplaint seen
  node (.method .method (memberTraits seen isComputed isOptional)) start
    [.group decorators, key, function]

def fieldContext (context : Context) : Context :=
  { context with allowsIn := true, awaits := false, yields := false, decorates := false }

/-- A field of a class that is read and written by accessors, after its key. -/
def accessorField (parse : Grammar) (start : Nat) (decorators : List Node) (seen : Modifiers)
    (key : Node) (isComputed : Bool) : Parse Node := do
  let type ← typing parse
  let value ← if ← eat "=" then within fieldContext (parse (.assignment true))
    else pure Node.absent
  endStatement
  if isPlainKey key isComputed "constructor" then report .constructorAccessorField key.start
  allowModifiers ("accessor" :: memberWords) .modifierWithAccessor seen
  node (.field (memberTraits seen isComputed false)) start [.group decorators, key, type, value]

def classField (parse : Grammar) (start : Nat) (decorators : List Node) (seen : Modifiers)
    (key : Node) (isComputed isOptional : Bool) : Parse Node := do
  let type ← typing parse
  let value ← if ← eat "=" then within fieldContext (parse .expression) else pure Node.absent
  if ← canEnd then
    let _ ← eat ";"
  else expect ";"
  checkStaticKey seen key isComputed
  if isPlainKey key isComputed "constructor" then report .constructorField key.start
  allowModifiers (["declare", "readonly", "const"] ++ memberWords) memberModifierComplaint seen
  node (.field (memberTraits seen isComputed isOptional)) start
    [.group decorators, key, type, value]

/-- A block that runs when the class is made. -/
def staticBlock (parse : Grammar) (start : Nat) (decorators : List Node) (seen : Modifiers) :
    Parse Node := do
  for decorator in decorators do
    report .decoratorPlace decorator.start
  allowModifiers [] (fun _ => .modifiersHere) seen
  expect "static"
  let body ← within (fun c => { c with awaits := true, yields := false, returns := false }) do
    bracketed "\x7b" "\x7d" do return some (← parse (.statement .list))
  node .staticBlock start body

/-- The next token is the key of a constructor. A string needs parameters after it. -/
def atConstructor : Parse Bool := do
  match (← peek).lexeme with
  | .word name => return name == "constructor"
  | .string value .. =>
    if value == "constructor" then lookahead do advance; at? "(" else return false
  | _ => return false

/-- A field or a method of a class. -/
def fieldOrMethod (parse : Grammar) (start : Nat) (decorators : List Node) (seen : Modifiers) :
    Parse Node := do
  let isGenerator ← eat "*"
  let (key, isComputed) ← memberKey parse seen
  let question ← here
  let isOptional ← eat "?"
  if isGenerator || (← atOneOf ["(", "<"]) then
    return ← classMethod parse start decorators seen isGenerator key isComputed isOptional
  if (← eat "!") && isOptional then report .optionalDefinite question
  if seen.has "accessor" then
    if isOptional then report .optionalAccessor question
    accessorField parse start decorators seen key isComputed
  else classField parse start decorators seen key isComputed isOptional

def classElement (parse : Grammar) : Parse Node := do
  let start ← here
  let decorators ← decorators parse
  let seen ← modifiers true true
  if (← at? "static") && (← lookahead do advance; at? "\x7b") then
    return ← staticBlock parse start decorators seen
  -- A keyword is read as such only if a key follows it: `get` alone is the name of a member.
  if ← contextual "get" then return ← classAccessor parse start decorators seen true
  if ← contextual "set" then return ← classAccessor parse start decorators seen false
  if !seen.has "static" && (← atConstructor) then
    return ← classConstructor parse start decorators seen
  if (← typed) && (← atIndexSignature) then
    for decorator in decorators do
      report .decoratorPlace decorator.start
    return ← indexSignature parse start seen
  -- Only now: a block and a constructor have definitions whatever stands before them.
  within (fun c => { c with ambient := c.ambient || seen.has "declare" })
    (fieldOrMethod parse start decorators seen)

def classBody (parse : Grammar) : Parse Node := do
  let start ← here
  let members ← bracketed "\x7b" "\x7d" do
    let _ ← many do
      if ← at? ";" then
        advance
        return some ()
      else return none
    if ← at? "\x7d" then return none
    return some (← classElement parse)
  node .classBody start members

/-! ### Heritage -/

/-- An expression with type arguments after it, as a class or an interface names what it
extends. -/
def heritage (parse : Grammar) : Parse Node := do
  let start ← here
  let expression ← parse .leftHandSide
  -- The expression has taken its type arguments along; they belong to the class.
  match expression.form, expression.children with
  | .instantiation, [inner, arguments] => node .group start [inner, arguments]
  | _, _ =>
    let arguments ← if ← at? "<" then typeArguments parse else pure Node.absent
    node .group start [expression, arguments]

/-- What a class or an interface builds on, and where the words that say so stand. -/
structure Heritage where
  extended : List Node
  extendsPlace : Option Nat
  implemented : List Node
  implementsPlace : Option Nat

/-- Parts separated by commas, at least one. -/
def oneOrMore (item : Parse Node) : Parse (List Node) := do
  let first ← item
  let rest ← many do
    if ← eat "," then return some (← item) else return none
  return first :: rest

/-- What a class or an interface extends and implements, in any order. -/
def heritages (parse : Grammar) : Parse Heritage :=
  iterate (fun (seen : Heritage) => do
    let place ← here
    if ← at? "extends" then
      if seen.extendsPlace.isSome then report .extendsTwice place
      else match seen.implementsPlace with
        | some earlier => report .extendsLate earlier
        | none => pure ()
      bump
      let extended ← oneOrMore (heritage parse)
      return some { seen with extended := extended, extendsPlace := some place }
    else if ← at? "implements" then
      match seen.implementsPlace with
      | some earlier => report .implementsTwice earlier
      | none => pure ()
      bump
      let implemented ← oneOrMore (typeReference parse)
      return some { seen with implemented := implemented, implementsPlace := some place }
    else return none) ⟨[], none, [], none⟩

/-- A class from its keyword on. -/
def classFrom (parse : Grammar) (start : Nat) (traits : ClassTraits) (decorators : List Node) :
    Parse Node := do
  expect "class"
  let name ← if (← peek).isName && !(← at? "implements") then boundName else pure Node.absent
  let typeParameters ← typeParameters parse
  let { extended, implemented, .. } ← heritages parse
  -- More than one class is read and complained of, and the first is kept.
  for second in extended.drop 1 do
    report .extendsMany second.start
  let super := extended.headD Node.absent
  let body ← classBody parse
  node (.class_ traits) start
    [.group decorators, name, typeParameters, super.part 0, super.part 1, .group implemented, body]

end UnusedMethods.Script.Parse
