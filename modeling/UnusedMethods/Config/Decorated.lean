import UnusedMethods.Text.Blank

/-!
# Decorated JSON

Configuration files are JSON with comments and with commas before closing brackets. Removing the
decoration leaves JSON; both removals pass over string literals.
-/

namespace UnusedMethods.Config

/-- Where a scan of decorated JSON stands. -/
inductive Mode where
  | plain
  | literal
  | escaped
  /-- Inside a comment that ends with its line. -/
  | lineComment
  /-- Inside a comment that ends with a star and a slash; `star` says that a star came last. -/
  | blockComment (star : Bool)
deriving DecidableEq, Repr

/-- Remove comments, from a given mode on. The newline after a line comment stays. -/
def stripFrom : Mode → List Char → List Char
  | _, [] => []
  | .plain, '/' :: '/' :: rest => stripFrom .lineComment rest
  | .plain, '/' :: '*' :: rest => stripFrom (.blockComment false) rest
  | .plain, c :: rest => c :: stripFrom (if c == '"' then .literal else .plain) rest
  | .literal, c :: rest =>
    c :: stripFrom (if c == '\\' then .escaped else if c == '"' then .plain else .literal) rest
  | .escaped, c :: rest => c :: stripFrom .literal rest
  | .lineComment, c :: rest =>
    if c == '\n' then c :: stripFrom .plain rest else stripFrom .lineComment rest
  -- The star that opens the comment does not count, so `/*/` is still open.
  | .blockComment star, c :: rest =>
    if star && c == '/' then stripFrom .plain rest else stripFrom (.blockComment (c == '*')) rest

/-- Remove comments that stand outside string literals. -/
def stripComments (text : List Char) : List Char :=
  stripFrom .plain text

/-- Whether a closing bracket comes next, blanks aside. -/
def closesNext (text : List Char) : Bool :=
  match text.dropWhile Text.isBlank with
  | c :: _ => c == '\x7d' || c == ']'
  | [] => false

/-- Remove commas before closing brackets, from inside or outside a string literal on. -/
def stripCommasFrom : Mode → List Char → List Char
  | _, [] => []
  | .literal, c :: rest =>
    c :: stripCommasFrom (if c == '\\' then .escaped else if c == '"' then .plain else .literal)
      rest
  | .escaped, c :: rest => c :: stripCommasFrom .literal rest
  | _, c :: rest =>
    if c == '"' then c :: stripCommasFrom .literal rest
    else if c == ',' && closesNext rest then stripCommasFrom .plain rest
    else c :: stripCommasFrom .plain rest

/-- Remove commas that directly precede a closing bracket outside string literals. -/
def stripCommas (text : List Char) : List Char :=
  stripCommasFrom .plain text

def undecorated (text : String) : String :=
  String.ofList (stripCommas (stripComments text.toList))

end UnusedMethods.Config
