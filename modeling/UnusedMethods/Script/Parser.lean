import UnusedMethods.Script.Parser.Statement

/-!
# The parser

The productions are tied into one grammar, and a text is parsed as a program. Each level of nesting
takes a bounded number of productions and at least one character, so a bound on the depth that
grows with the text is never reached.
-/

namespace UnusedMethods.Script

/-- The production of a nonterminal, given the grammar for its parts. -/
def production (parse : Grammar) : Grammar
  | .expression => Parse.expression parse
  | .assignment arrowTypes => Parse.assignment parse arrowTypes
  | .binary level => Parse.binary parse level
  | .unary => Parse.unary parse
  | .primary => Parse.primary parse
  | .leftHandSide => Parse.leftHandSide parse
  | .callee => Parse.callee parse
  | .statement place => Parse.statement parse place
  | .pattern => Parse.pattern parse
  | .type_ => Parse.type parse
  | .typeOperator => Parse.typeOperator parse
  | .element nested => Parse.element parse nested

/-- The grammar for texts that are nested at most so deep. -/
def grammar : Nat → Grammar
  | 0 => fun _ => do Parse.fail .tooDeep (← Parse.here)
  | depth + 1 => fun symbol => production (grammar depth) symbol

/-- A program: all statements of a text. -/
def programOf (depth : Nat) : Parse Node := do
  let found ← Parse.statements (grammar depth)
  if ← Parse.at? "\x7d" then Parse.unexpected
  -- A binding that is released at the end of its block has no block at the top of a script.
  if !(← read).dialect.isModule then
    for statement in found do
      match statement.form with
      | .bindings binding _ =>
        if Parse.releases binding then Parse.report .usingScript statement.start
      | _ => pure ()
  Parse.node .program 0 found

def topContext (dialect : Dialect) : Context where
  allowsIn := true
  awaits := dialect.isModule
  yields := false
  returns := false
  ambient := dialect.ambient
  decorates := false
  allowsConditional := true

/-- The start of a comment that names a checker whose types are not read. -/
def otherTypes? (text : String) (comment : Option (Nat × Nat)) : Option Nat :=
  comment.bind fun (start, stop) =>
    if (slice text start stop).splitOn "@flow" |>.length |> (1 < ·) then some start else none

/-- The faults of a text in the order of their weight: those in tokens come before all others. -/
def State.allFaults (state : State) (fatal : Option Diagnostic) : List Diagnostic :=
  state.tokenFaults.toList ++ state.faults.toList ++ match fatal with
    | some fault => [fault]
    | none => state.unfinished.map fun place => ⟨.unfinishedObject, place⟩

/-- Parse a text. Plain text that is written for a checker of types is said to be such if it has
faults. -/
def parseProgram (dialect : Dialect) (text : String) : Except Diagnostic Node :=
  let isScript := !dialect.isModule
  let first := Lexed.after isScript text 0
  let comment := if dialect.typed then none else (gapAt isScript text 0).comment
  let state : State :=
    { token := first.token
      lastStop := 0
      tokenFaults := first.faults.toArray
      faults := #[]
      unfinished := []
      notArrows := {}
      comment := comment
      passed := false }
  let env : Env := ⟨text, dialect, topContext dialect⟩
  -- Every circle through the grammar takes a character and fewer than sixteen productions.
  let depth := 16 * text.utf8ByteSize + 64
  let judge (state : State) (fault : Diagnostic) : Diagnostic :=
    match otherTypes? text state.comment with
    | some place => ⟨.flow, place⟩
    | none => fault
  match ((programOf depth).run env).run state with
  | .ok program state =>
    match state.allFaults none with
    | fault :: _ => .error (judge state fault)
    | [] => .ok program
  | .error fatal state => .error (judge state ((state.allFaults (some fatal)).headD fatal))

end UnusedMethods.Script
