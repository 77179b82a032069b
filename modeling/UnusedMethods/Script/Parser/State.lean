import UnusedMethods.Script.Lexer
import UnusedMethods.Script.Tree
import UnusedMethods.Script.Dialect
import Std.Data.HashSet

/-!
# The state of a parser

A parser reads tokens one by one and builds nodes. Some faults stop it; others are noted, and
parsing goes on. An attempt that fails leaves no trace but the note of where an arrow function was
sought in vain.
-/

namespace UnusedMethods.Script

/-- What the place in the text permits. -/
structure Context where
  /-- The operator `in` may be used. -/
  allowsIn : Bool
  /-- `await` is an operator. -/
  awaits : Bool
  /-- `yield` is an operator. -/
  yields : Bool
  /-- A function may be returned from. -/
  returns : Bool
  /-- Only declarations without definitions are wanted. -/
  ambient : Bool
  /-- The expression belongs to a decorator, so a bracket does not continue it. -/
  decorates : Bool
  /-- A conditional type may be written. -/
  allowsConditional : Bool
deriving Repr

/-- What a parser reads and where it is. -/
structure Env where
  text : String
  dialect : Dialect
  context : Context

/-- How far a parser has come. -/
structure State where
  /-- The token to be read next. -/
  token : Token
  /-- The end of the token read last. -/
  lastStop : Nat
  /-- Faults in tokens, in order. -/
  tokenFaults : Array Diagnostic
  /-- Other faults that do not stop the parser, in order. -/
  faults : Array Diagnostic
  /-- Properties such as `a = 1` in objects that may still turn out to be targets. -/
  unfinished : List Nat
  /-- Where an arrow function was sought in vain. -/
  notArrows : Std.HashSet Nat
  /-- The start and the end of the first comment so far. -/
  comment : Option (Nat × Nat)
  /-- A fault arose inside brackets, so that the token at which it arose is no longer the next. -/
  passed : Bool

/-- A parser: it reads tokens and stops at the first fault that it cannot get over. -/
abbrev Parse := ReaderT Env (EStateM Diagnostic State)

namespace Parse

/-- The token to be read next. -/
@[inline] def peek : Parse Token :=
  return (← get).token

@[inline] def here : Parse Nat :=
  return (← get).token.start

@[inline] def lastStop : Parse Nat :=
  return (← get).lastStop

@[inline] def context : Parse Context :=
  return (← read).context

@[inline] def typed : Parse Bool :=
  return (← read).dialect.typed

/-- Parse where other things are permitted. -/
@[inline] def within {α : Type} (change : Context → Context) (parser : Parse α) : Parse α :=
  withReader (fun env => { env with context := change env.context }) parser

/-- Note a fault and go on. -/
def report (complaint : Complaint) (place : Nat) : Parse Unit :=
  modify fun s => { s with faults := s.faults.push ⟨complaint, place⟩ }

/-- Stop with a fault. -/
def fail {α : Type} (complaint : Complaint) (place : Nat) : Parse α :=
  throw ⟨complaint, place⟩

def retake (lexed : Lexed) : Parse Unit :=
  modify fun s =>
    { s with token := lexed.token, tokenFaults := s.tokenFaults ++ lexed.faults.toArray }

/-- The next token begins a line that marks two versions of a text. -/
def atDiffMarker : Parse Bool := do
  let text := (← read).text
  let token := (← get).token
  return token.newline &&
    ["<<<<<<<", "=======", ">>>>>>>", "|||||||"].any (startsAt text token.start)

/-- Stop because the next token cannot stand where it stands. A token that is broken, or missing
because a comment is, is itself the fault. -/
def unexpected {α : Type} : Parse α := do
  let s ← get
  let complaint := if ← atDiffMarker then Complaint.diffMarker else .unexpectedToken
  if s.token.isBroken then
    match s.tokenFaults.back? with
    -- The fault is thrown, not noted: it would otherwise be counted twice.
    | some fault =>
      set { s with tokenFaults := s.tokenFaults.pop }
      throw fault
    | none => fail complaint s.token.start
  else fail complaint s.token.start

def advance : Parse Unit := do
  let env ← read
  modify fun s =>
    let lexed := Lexed.after (!env.dialect.isModule) env.text s.token.stop
    { s with
      token := lexed.token
      lastStop := s.token.stop
      -- Only text without types is searched for comments: they may say that it has types after all.
      comment := if env.dialect.typed || s.comment.isSome then s.comment
        else (gapAt (!env.dialect.isModule) env.text s.token.stop).comment
      tokenFaults := if lexed.faults.isEmpty then s.tokenFaults
        else s.tokenFaults ++ lexed.faults.toArray }

@[inline] def at? (text : String) : Parse Bool :=
  return (← get).token.is text

def atOneOf (texts : List String) : Parse Bool :=
  return (← get).token.isOneOf texts

/-- Read a keyword or punctuator that is known to stand there. -/
def bump : Parse Unit := do
  let token ← peek
  if token.escaped then report .escapedKeyword token.start
  advance

/-- Read this keyword or punctuator if it stands there. -/
def eat (text : String) : Parse Bool := do
  if ← at? text then
    bump
    return true
  else return false

/-- Read this keyword or punctuator, which must stand there. -/
def expect (text : String) : Parse Unit := do
  if ← at? text then bump
  else
    let token ← peek
    if ← atDiffMarker then fail .diffMarker token.start
    fail (.expected text token.lexeme.describe) token.start

/-- Parse what a closing token follows. -/
def enclosed {α : Type} (parser : Parse α) : Parse α := do
  try parser catch fault =>
    modify ({ · with passed := true })
    throw fault

/-- A node that begins at a place and ends with the last token. -/
@[inline] def node (form : Form) (start : Nat) (children : List Node) : Parse Node :=
  return .mk form start (← get).lastStop children

/-- Whether a statement may end here. -/
def canEnd : Parse Bool := do
  let token ← peek
  return token.is ";" || token.is "\x7d" || token.lexeme == .eof || token.newline

/-- End a statement, by a semicolon or by what allows to omit it. -/
def endStatement : Parse Unit := do
  if ← canEnd then
    if ← at? ";" then advance
  else fail .noSemicolon (← lastStop)

/-- Go back to a state, but remember where no arrow function was found. -/
def restore (saved : State) : Parse Unit :=
  modify fun s => { saved with notArrows := s.notArrows }

/-- Look ahead: parse, answer, and go back. -/
def lookahead (question : Parse Bool) : Parse Bool := do
  let saved ← get
  let answer ← try question catch _ => pure false
  restore saved
  return answer

/-- Parse if possible; if not, go back and answer nothing. -/
def attempt {α : Type} (parser : Parse (Option α)) : Parse (Option α) := do
  let saved ← get
  let result ← try parser catch _ => pure none
  match result with
  | some a => return some a
  | none =>
    restore saved
    return none

/-- Repeat a step until it has no result, at most so many times. -/
def iterateAtMost {σ : Type} (step : σ → Parse (Option σ)) : Nat → σ → Parse σ
  | 0, s => pure s
  | n + 1, s => do
    match ← step s with
    | some s => iterateAtMost step n s
    | none => pure s

/-- Repeat a step until it has no result. Every step reads a token, so the text bounds them. -/
def iterate {σ : Type} (step : σ → Parse (Option σ)) (s : σ) : Parse σ := do
  iterateAtMost step ((← read).text.utf8ByteSize + 2) s

def many {α : Type} (item : Parse (Option α)) : Parse (List α) := do
  let found ← iterate (fun found : Array α => do
    match ← item with
    | some a => return some (found.push a)
    | none => return none) #[]
  return found.toList

/-- Items separated by commas, up to a closing token, and the place of a comma before it. -/
def commaListTrailing {α : Type} (close : String) (item : Parse α) :
    Parse (List α × Option Nat) := do
  let (found, trailing) ← iterate (fun ((found, trailing) : Array α × Option Nat) => do
    let token ← peek
    -- A broken token ends the list: whoever reads on will report it.
    if trailing.isSome || token.is close || token.isBroken then return none
    if found.isEmpty then return some (found.push (← enclosed item), none)
    if !token.is "," then
      enclosed (fail (.expectedEither "," close token.lexeme.describe) token.start)
    advance
    if ← at? close then return some (found, some token.start)
    return some (found.push (← enclosed item), none)) (#[], none)
  return (found.toList, trailing)

def commaList {α : Type} (close : String) (item : Parse α) : Parse (List α) :=
  return (← commaListTrailing close item).1

/-- Items between an opening and a closing token, until one is not found. -/
def bracketed {α : Type} (openMark closeMark : String) (item : Parse (Option α)) :
    Parse (List α) := do
  expect openMark
  let items ← many do
    let token ← peek
    if token.is closeMark || token.isBroken then return none
    enclosed item
  expect closeMark
  return items

/-- How messages name what begins with `...` and binds or is assigned. -/
def restPatterns : String :=
  "A rest parameter or binding pattern"

/-- Items separated by commas, up to a closing token, of which one that begins with `...` must be
the last. -/
def commaListWithRest (close : String) (item rest : Parse Node) (misplaced : Complaint) :
    Parse (List Node) := do
  let (found, _) ← iterate (fun ((found, last) : Array Node × Option Node) => do
    let token ← peek
    if token.is close || token.isBroken then return none
    if !found.isEmpty then
      if !token.is "," then
        enclosed (fail (.expectedEither "," close token.lexeme.describe) token.start)
      advance
      if ← at? close then
        if last.isSome && !(← context).ambient then
          report (.trailingComma restPatterns) token.start
        return none
    if let some last := last then report misplaced last.start
    if ← at? "..." then
      let rest ← enclosed rest
      return some (found.push rest, some rest)
    return some (found.push (← enclosed item), none)) (#[], none)
  return found.toList

end Parse

end UnusedMethods.Script
