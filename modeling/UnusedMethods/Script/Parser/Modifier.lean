import UnusedMethods.Script.Parser.Grammar

/-!
# Modifiers

Words such as `static` or `readonly` before a declaration, a member or a parameter. A word is a
modifier only if what follows it can be modified; otherwise it is a name.
-/

namespace UnusedMethods.Script

/-- A modifier and where it stands. -/
structure Modifier where
  word : String
  place : Nat
deriving DecidableEq, Repr

/-- The words that can be modifiers. -/
def modifierWords : List String :=
  ["abstract", "accessor", "async", "const", "declare", "default", "export", "in", "out", "public",
   "private", "protected", "override", "readonly", "static"]

/-- The modifiers that say who may use a member. -/
def accessibilityWords : List String :=
  ["public", "protected", "private"]

abbrev Modifiers := List Modifier

namespace Modifiers

def has (modifiers : Modifiers) (word : String) : Bool :=
  modifiers.any (·.word == word)

/-- Who may use what is modified. -/
def accessibility? (modifiers : Modifiers) : Option Accessibility :=
  if modifiers.has "public" then some .public_
  else if modifiers.has "protected" then some .protected_
  else if modifiers.has "private" then some .private_
  else none

def accessModifier? (modifiers : Modifiers) : Option Modifier :=
  modifiers.find? (accessibilityWords.contains ·.word)

end Modifiers

/-- The modifiers of a declaration that must come after a modifier. -/
def laterModifiers (word : String) : List String :=
  if accessibilityWords.contains word then ["override", "static", "accessor", "readonly", "async"]
  else match word with
    | "static" => ["readonly", "async", "accessor", "override"]
    | "override" => ["readonly", "accessor", "async"]
    | "export" => ["declare", "abstract", "async"]
    | _ => []

namespace Parse

def modifiable : Parse Bool := do
  if ← atOneOf ["\x7b", "*", "..."] then return true
  atKey

def modifiableHere : Parse Bool := do
  if (← peek).newline then return false
  modifiable

/-- Read a word as a modifier if what follows can be modified. -/
def modifierStep : Parse Bool := do
  let token ← peek
  advance
  match token.word? with
  | some "static" => modifiable
  | some "get" => atKey
  | some "set" => atKey
  -- Any other word at the end of a line is a name.
  | _ => modifiableHere

/-- Read a word if it is a modifier here. -/
def contextual (word : String) : Parse Bool := do
  if !(← at? word) then return false
  let token ← peek
  let read ← attempt do
    if ← modifierStep then return some () else return none
  if read.isSome && token.escaped then report .escapedKeyword token.start
  return read.isSome

/-- Complain about a modifier that repeats another, or that says once more who may use what is
modified; the answer says whether it did. -/
def checkRepeated (seen : Modifiers) (modifier : Modifier) : Parse Bool := do
  let { word, place } := modifier
  if accessibilityWords.contains word && seen.accessModifier?.isSome then
    report .accessibilityTwice place
    return true
  if seen.has word then
    report (.modifierTwice word) place
    return true
  return false

/-- Modifiers of a member, a parameter or a type parameter, as far as they reach. Flags say whether
`const` may be one, and whether `static` before a brace begins a block and is none. -/
def modifiers (allowsConst stopsAtBlock : Bool) : Parse Modifiers :=
  iterate (fun seen => do
    let token ← peek
    match token.word? with
    | none => return none
    | some word =>
      if !modifierWords.contains word then return none
      if word == "const" && !allowsConst then return none
      -- The second `static` is the name of a member.
      if word == "static" && seen.has "static" then return none
      if stopsAtBlock && word == "static" && (← lookahead do advance; at? "\x7b") then return none
      if ← contextual word then
        let modifier : Modifier := ⟨word, token.start⟩
        let _ ← checkRepeated seen modifier
        return some (seen ++ [modifier])
      else return none) []

/-- Complain about a modifier of a declaration that repeats another or stands in the wrong order. -/
def checkModifier (seen : Modifiers) (modifier : Modifier) : Parse Unit := do
  if ← checkRepeated seen modifier then return
  match (laterModifiers modifier.word).find? seen.has with
  | some later => report (.modifierOrder modifier.word later) modifier.place
  | none => return

/-- The next tokens are a modifier of a declaration and what it modifies. -/
def atDeclarationModifier : Parse Bool := do
  let token ← peek
  match token.word? with
  | none => return false
  | some word =>
    if !modifierWords.contains word then return false
    lookahead do
      advance
      match word with
      -- Before anything but `enum`, the word begins a declaration of variables.
      | "const" => at? "enum"
      | "export" =>
        if ← atOneOf ["*", "as", "\x7b"] then return false
        if ← at? "@" then return true
        modifiable
      | "default" => atOneOf ["class", "function", "interface", "@", "abstract", "async"]
      | "static" => modifiable
      | _ => modifiableHere

/-- Modifiers of a declaration, as far as they reach. -/
def declarationModifiers : Parse Modifiers :=
  iterate (fun seen => do
    if !(← atDeclarationModifier) then return none
    let token ← peek
    let modifier : Modifier := ⟨token.word?.getD "", token.start⟩
    bump
    checkModifier seen modifier
    return some (seen ++ [modifier])) []

/-- Complain about modifiers that are not among those allowed. -/
def allowModifiers (allowed : List String) (complaint : String → Complaint)
    (seen : Modifiers) : Parse Unit := do
  for modifier in seen do
    if !allowed.contains modifier.word then
      report (complaint modifier.word) modifier.place

end Parse

end UnusedMethods.Script
