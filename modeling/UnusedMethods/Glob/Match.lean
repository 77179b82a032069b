import UnusedMethods.Glob.Expression
import UnusedMethods.Text.Quoted

/-!
# Matching globs

A glob is matched against the bytes of a path. Each piece turns the bytes that remain into the
list of what may remain after it; a glob matches when nothing may remain after all its pieces.
What remains is always an end of the same text, so two ends of one length are one and the same.
-/

namespace UnusedMethods.Glob

/-- The separator byte. -/
def separator : UInt8 := 47

/-- Keep one of several ends of equal length. -/
def distinctEnds (ends : List (List UInt8)) : List (List UInt8) :=
  ends.foldl (fun kept e => if kept.any (fun k => k.length == e.length) then kept else e :: kept) []

/-- All ends of a text, itself first. -/
def suffixes : List UInt8 → List (List UInt8)
  | [] => [[]]
  | b :: rest => (b :: rest) :: suffixes rest

/-- The ends of a text that a run of bytes without separators can leave. -/
def afterStar : List UInt8 → List (List UInt8)
  | [] => [[]]
  | b :: rest => if b == separator then [b :: rest] else (b :: rest) :: afterStar rest

/-- The ends of a text that follow one of its separators. -/
def afterSeparators : List UInt8 → List (List UInt8)
  | [] => []
  | b :: rest => if b == separator then rest :: afterSeparators rest else afterSeparators rest

/-- What a separator at the front leaves. -/
def afterSeparator : List UInt8 → List (List UInt8)
  | [] => []
  | b :: rest => if b == separator then [rest] else []

/-- What given bytes at the front leave. -/
def afterBytes : List UInt8 → List UInt8 → List (List UInt8)
  | [], text => [text]
  | _ :: _, [] => []
  | b :: bs, c :: text => if b == c then afterBytes bs text else []

def inClass (negated : Bool) (ranges : List (Char × Char)) (b : UInt8) : Bool :=
  negated != (ranges.flatMap byteRanges).any fun (lo, hi) => lo ≤ b && b ≤ hi

mutual

/-- What may remain of a text after a piece. -/
def Piece.ends : Piece → List UInt8 → List (List UInt8)
  | .literal c, text => afterBytes (bytesOf c.toString) text
  | .any, text => match text with
    | [] => []
    | b :: rest => if b == separator then [] else [rest]
  | .star, text => afterStar text
  | .leading, text => text :: afterSeparators text
  | .trailing, text => (afterSeparator text).flatMap suffixes
  | .between, text => (afterSeparator text).flatMap fun rest => rest :: afterSeparators rest
  | .charClass negated ranges, text => match text with
    | [] => []
    | b :: rest => if inClass negated ranges b then [rest] else []
  | .alternatives options, text => if allBlank options then [text] else optionEnds options text

def pieceEnds : List Piece → List (List UInt8) → List (List UInt8)
  | [], texts => texts
  -- All ends are ends of one text, so the list never grows beyond the length of that text.
  | p :: ps, texts => pieceEnds ps (distinctEnds (texts.flatMap p.ends))

/-- What may remain of a text after one of several alternatives. Blank ones do not count. -/
def optionEnds : List (List Piece) → List UInt8 → List (List UInt8)
  | [], _ => []
  | o :: os, text =>
    (if piecesBlank o then [] else pieceEnds o [text]) ++ optionEnds os text

end

/-- What follows the last separator of a text is `..`. -/
def endsInUp (text : String) : Bool :=
  text == ".." || text.endsWith "/.."

/-- Whether the pieces match a text. `**` alone matches every text. -/
def matchesPieces (pieces : List Piece) (text : String) : Bool :=
  match pieces with
  | [.leading] => true
  | _ =>
    (pieceEnds pieces [bytesOf text]).any List.isEmpty && !(needsFileName pieces && endsInUp text)

/-- Several globs, of which one has to match. -/
structure AnyOf where
  globs : List (List Piece)

/-- A glob that cannot be used. -/
inductive BadGlob where
  /-- Its text cannot be read. -/
  | unreadable (text : String) (problem : Problem)
  /-- Its expression is nested too deep; its place among the expressions that are tried together,
  or the expression if it is tried alone. -/
  | tooDeep (place : Nat) (alone : Option String)
deriving DecidableEq, Repr

def BadGlob.message : BadGlob → String
  | .unreadable text problem =>
    "bad glob " ++ Text.quoted text ++ ": error parsing glob '" ++ text ++ "': " ++ problem.message
  | .tooDeep place alone =>
    (alone.elim "" fun text => "error parsing glob '" ++ text ++ "': ") ++
      "error parsing pattern " ++ toString place

namespace AnyOf

/-- The first glob whose expression is nested too deep. Those that are tried alone come first. -/
def tooDeep? (globs : List (List Piece)) : Option BadGlob :=
  match globs.find? fun pieces => planOf pieces = .ending && isTooDeep pieces with
  | some pieces => some (.tooDeep 0 (some (expression pieces)))
  | none =>
    let together := globs.filter (planOf · = .expression)
    (together.findIdx? isTooDeep).map fun place => .tooDeep place none

/-- Read the globs in order; the first that cannot be read is reported, and then the first that is
nested too deep. -/
def ofTexts (texts : List String) : Except BadGlob AnyOf := do
  let globs ← texts.mapM fun text => (parse text).mapError (BadGlob.unreadable text)
  -- Only when all texts are read are the expressions built.
  match tooDeep? globs with
  | some bad => .error bad
  | none => return ⟨globs⟩

def isMatch (any : AnyOf) (text : String) : Bool :=
  any.globs.any fun pieces => matchesPieces pieces text

end AnyOf

end UnusedMethods.Glob
