import UnusedMethods.Glob.Pattern

/-!
# Regular expressions of globs

A glob stands for a regular expression over bytes, and some globs are tried as such. Expressions
that are nested too deep are refused, so the depth of nesting is counted as their reader counts it:
groups, choices, sequences, repetitions and classes each add one to what they hold.
-/

namespace UnusedMethods.Glob

def bytesOf (text : String) : List UInt8 :=
  text.toUTF8.toList

/-- The byte ranges of a character range. Only its last and first bytes meet in a range of bytes;
the bytes before and after them stand alone. -/
def byteRanges (range : Char × Char) : List (UInt8 × UInt8) :=
  let single := fun (b : UInt8) => (b, b)
  let lo := bytesOf range.1.toString
  let hi := bytesOf range.2.toString
  if range.1 == range.2 then lo.map single
  else match lo.getLast?, hi with
    | some last, first :: more => lo.dropLast.map single ++ (last, first) :: more.map single
    | _, _ => []

/-! ### Blank pieces -/

mutual

/-- A piece that stands for nothing, such as braces with no alternative in them. -/
def Piece.isBlank : Piece → Bool
  | .alternatives options => allBlank options
  | _ => false

def piecesBlank : List Piece → Bool
  | [] => true
  | p :: ps => p.isBlank && piecesBlank ps

def allBlank : List (List Piece) → Bool
  | [] => true
  | o :: os => piecesBlank o && allBlank os

end

/-! ### Nesting -/

/-- How many parts of a sequence a piece makes. -/
def Piece.width : Piece → Nat
  | .literal c => c.utf8Size
  | .trailing => 2
  | .alternatives options => if allBlank options then 0 else 1
  | _ => 1

/-- How many parts of a sequence several pieces make. -/
def piecesWidth (pieces : List Piece) : Nat :=
  pieces.foldl (fun width piece => width + piece.width) 0

mutual

/-- How deep the expression of a piece is nested. -/
def Piece.depth : Piece → Nat
  | .literal _ => 0
  | .any => 1
  | .star => 2
  | .leading => 4
  | .trailing => 1
  | .between => 4
  | .charClass _ ranges => if (ranges.flatMap byteRanges).length ≤ 1 then 1 else 2
  | .alternatives options =>
    if allBlank options then 0
    -- The group counts once, and so does the choice if there is something to choose from.
    else (if (options.filter (!piecesBlank ·)).length ≤ 1 then 1 else 2) + optionsDepth options

def piecesDepth : List Piece → Nat
  | [] => 0
  | p :: ps => max p.depth (piecesDepth ps)

def optionsDepth : List (List Piece) → Nat
  | [] => 0
  | o :: os =>
    max (if piecesWidth o ≤ 1 then piecesDepth o else 1 + piecesDepth o) (optionsDepth os)

end

/-- The greatest depth that is not refused. -/
def maxDepth : Nat := 250

/-- The expression of a glob is nested too deep. The whole of it is a sequence. -/
def isTooDeep (pieces : List Piece) : Bool :=
  maxDepth < 1 + piecesDepth pieces

/-! ### Text -/

/-- Characters that mean something in expressions, so that a backslash precedes them. -/
def specialChars : List Char :=
  ['\\', '.', '+', '*', '?', '(', ')', '|', '[', ']', '\x7b', '\x7d', '^', '$', '#', '&', '-', '~']

def hexByte (b : UInt8) : String :=
  let digits := Nat.toDigits 16 b.toNat
  String.ofList (if digits.length < 2 then '0' :: digits else digits)

def literalText (c : Char) : String :=
  if c.toNat < 128 then (if specialChars.contains c then "\\" else "") ++ c.toString
  else String.join ((bytesOf c.toString).map fun b => "\\x" ++ hexByte b)

def rangeText (range : Char × Char) : String :=
  if range.1 == range.2 then literalText range.1
  else literalText range.1 ++ "-" ++ literalText range.2

mutual

def Piece.expression : Piece → String
  | .literal c => literalText c
  | .any => "[^/]"
  | .star => "[^/]*"
  | .leading => "(?:/?|.*/)"
  | .trailing => "/.*"
  | .between => "(?:/|/.*/)"
  | .charClass negated ranges =>
    "[" ++ (if negated then "^" else "") ++ String.join (ranges.map rangeText) ++ "]"
  | .alternatives options =>
    if allBlank options then ""
    else "(?:" ++ String.intercalate "|" (optionExpressions options) ++ ")"

def piecesExpression : List Piece → String
  | [] => ""
  | p :: ps => p.expression ++ piecesExpression ps

/-- The expressions of alternatives that stand for something. -/
def optionExpressions : List (List Piece) → List String
  | [] => []
  | o :: os =>
    if piecesBlank o then optionExpressions os else piecesExpression o :: optionExpressions os

end

/-- The expression of a glob, from the start to the end of a text, over bytes. -/
def expression (pieces : List Piece) : String :=
  match pieces with
  | [.leading] => "(?-u)^.*$"
  | _ => "(?-u)^" ++ piecesExpression pieces ++ "$"

/-! ### Plans -/

inductive Plan where
  /-- By comparing texts. -/
  | comparison
  /-- By the last dot of a file name and what follows it, and then as an expression. -/
  | ending
  /-- As an expression. -/
  | expression
deriving DecidableEq, Repr

/-- A piece that stands for one character. -/
def Piece.char? : Piece → Option Char
  | .literal c => some c
  | _ => none

/-- The characters that a glob stands for, if it is nothing but such. -/
def chars? (pieces : List Piece) : Option (List Char) :=
  pieces.mapM Piece.char?

/-- The glob ends in a dot and characters other than dots and separators. -/
def endsInDot (pieces : List Piece) : Bool :=
  let tail := pieces.reverse.takeWhile fun p =>
    match p.char? with
    | some c => c != '.' && c != '/'
    | none => false
  match (pieces.reverse.drop tail.length).head? with
  | some (.literal c) => c == '.'
  | _ => false

/-- The glob names an ending of file names in any directory. -/
def isEnding (pieces : List Piece) : Bool :=
  match pieces with
  -- `**/*.` and then characters that neither end the name nor begin another ending.
  | .leading :: .star :: .literal '.' :: rest =>
    rest.all fun p => match p.char? with
      | some c => c != '.' && c != '/'
      | none => false
  | _ => false

/-- How a glob is tried: characters alone, before everything below them, or at the end of a path
are compared, and so is an ending of file names. -/
def planOf (pieces : List Piece) : Plan :=
  let isCompared := match pieces with
    | [] => false
    | [.leading] => false
    | .leading :: rest => (chars? rest).isSome
    | _ => (chars? pieces).isSome
  let isBelow := match pieces.getLast? with
    | some .trailing => (chars? pieces.dropLast).isSome
    | _ => false
  if isCompared || isBelow || isEnding pieces then .comparison
  else if endsInDot pieces then .ending
  else .expression

/-- The glob is tried by the name of a file. A path that ends in `..` names none. -/
def needsFileName (pieces : List Piece) : Bool :=
  let isName := match pieces with
    | .leading :: rest => !rest.isEmpty && ((chars? rest).map (!·.contains '/')).getD false
    | _ => false
  isName || isEnding pieces || planOf pieces = .ending

end UnusedMethods.Glob
