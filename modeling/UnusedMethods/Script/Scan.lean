import UnusedMethods.Script.NameChar

/-!
# Scanning a text

Positions in a text are byte offsets at which a character starts. Scanning moves over characters
that pass a test, and over the gaps between tokens: blanks, line ends and comments.
-/

namespace UnusedMethods.Script

@[inline] def charAt? (text : String) (i : Nat) : Option Char :=
  if i < text.utf8ByteSize then some (String.Pos.Raw.get text ⟨i⟩) else none

def slice (text : String) (start stop : Nat) : String :=
  String.Pos.Raw.extract text ⟨start⟩ ⟨stop⟩

/-- Whether a piece of ASCII text stands at a position. -/
def startsAt (text : String) (i : Nat) (piece : String) : Bool :=
  i + piece.utf8ByteSize ≤ text.utf8ByteSize && slice text i (i + piece.utf8ByteSize) == piece

@[inline] def testAt (test : Char → Bool) (text : String) (i : Nat) : Bool :=
  match charAt? text i with
  | some c => test c
  | none => false

/-- The first position whose character fails a test. -/
@[specialize] def skipWhile (test : Char → Bool) (text : String) (i : Nat) : Nat :=
  if i < text.utf8ByteSize then
    let c := String.Pos.Raw.get text ⟨i⟩
    if test c then skipWhile test text (i + c.utf8Size) else i
  else i
termination_by text.utf8ByteSize - i
decreasing_by have := Char.utf8Size_pos (String.Pos.Raw.get text ⟨i⟩); omega

@[inline] def isBlank (c : Char) : Bool :=
  c == ' ' || c == '\t' || c == '\x0b' || c == '\x0c' || (128 ≤ c.toNat && isWideBlank c)

/-- The end of a comment that began before a position, and whether a line ends in it; `none` when
the text ends first. -/
def commentEnd? (text : String) (i : Nat) (newline : Bool) : Option (Nat × Bool) :=
  if i < text.utf8ByteSize then
    let c := String.Pos.Raw.get text ⟨i⟩
    if c == '*' && testAt (· == '/') text (i + 1) then some (i + 2, newline)
    else commentEnd? text (i + c.utf8Size) (newline || isNewline c)
  else none
termination_by text.utf8ByteSize - i
decreasing_by have := Char.utf8Size_pos (String.Pos.Raw.get text ⟨i⟩); omega

structure Gap where
  /-- Where the next token starts. -/
  stop : Nat
  /-- Whether a line ends in the gap. -/
  newline : Bool
  /-- The start of a comment that the text ends in. -/
  openComment : Option Nat
  /-- The start and the end of the first comment in the gap. -/
  comment : Option (Nat × Nat)
deriving Repr

/-- The gap at a position. Scripts also have comments that begin like those of markup pages: they
reach to the end of the line. The fuel bounds the number of blanks and comments. -/
def gapFrom (isScript : Bool) (text : String) : Nat → Nat → Bool → Option (Nat × Nat) → Gap
  | 0, i, newline, first => ⟨i, newline, none, first⟩
  | fuel + 1, i, newline, first =>
    let skipTo (stop : Nat) (newline : Bool) :=
      gapFrom isScript text fuel stop newline (first.or (some (i, stop)))
    let lineEnd (j : Nat) : Nat := skipWhile (!isNewline ·) text j
    match charAt? text i with
    | none => ⟨i, newline, none, first⟩
    | some c =>
      if isBlank c then gapFrom isScript text fuel (skipWhile isBlank text i) newline first
      else if isNewline c then gapFrom isScript text fuel (skipWhile isNewline text i) true first
      else if c == '/' && testAt (· == '/') text (i + 1) then skipTo (lineEnd (i + 2)) newline
      else if c == '/' && testAt (· == '*') text (i + 1) then
        match commentEnd? text (i + 2) newline with
        | some (stop, newline) => skipTo stop newline
        | none => ⟨text.utf8ByteSize, newline, some i, first⟩
      -- The line that names an interpreter is not kept as a comment, and only the first can be one.
      else if c == '#' && i == 0 && testAt (· == '!') text 1 then
        gapFrom isScript text fuel (lineEnd 2) newline first
      else if isScript && c == '<' && startsAt text i "<!--" then skipTo (lineEnd (i + 4)) newline
      -- The closing arrows of such a comment count only where a line begins.
      else if isScript && newline && c == '-' && startsAt text i "-->" then
        skipTo (lineEnd (i + 3)) newline
      else ⟨i, newline, none, first⟩

/-- The gap at a position. The start of the text counts as the start of a line. -/
def gapAt (isScript : Bool) (text : String) (i : Nat) : Gap :=
  gapFrom isScript text (text.utf8ByteSize - i + 1) i (i == 0) none

end UnusedMethods.Script
