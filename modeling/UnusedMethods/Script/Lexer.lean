import UnusedMethods.Script.Numeral

/-!
# The lexer

Tokens are read one at a time, because what a character means can depend on the place: a slash may
divide or begin a regular expression, a brace may close a block or a substitution in a template,
and between the tags of markup there is text. Each reader returns a token and the faults found in
it; the token is read even if it has faults.
-/

namespace UnusedMethods.Script

structure Lexed where
  token : Token
  faults : List Diagnostic
deriving Repr

/-- The punctuators that begin with a character, longest first. A greater-than sign stands alone,
because it may close a list of types. -/
def marksFrom (c : Char) : List String :=
  match c with
  | '.' => ["...", "."]
  | '?' => ["??=", "??", "?.", "?"]
  | '<' => ["<<=", "<<", "<=", "<"]
  | '>' => [">"]
  | '=' => ["===", "==", "=>", "="]
  | '!' => ["!==", "!=", "!"]
  | '+' => ["++", "+=", "+"]
  | '-' => ["--", "-=", "-"]
  | '*' => ["**=", "**", "*=", "*"]
  | '/' => ["/=", "/"]
  | '%' => ["%=", "%"]
  | '&' => ["&&=", "&&", "&=", "&"]
  | '|' => ["||=", "||", "|=", "|"]
  | '^' => ["^=", "^"]
  | '\x7b' => ["\x7b"]
  | '\x7d' => ["\x7d"]
  | '(' => ["("]
  | ')' => [")"]
  | '[' => ["["]
  | ']' => ["]"]
  | ';' => [";"]
  | ',' => [","]
  | ':' => [":"]
  | '~' => ["~"]
  | '@' => ["@"]
  | _ => []

/-- The punctuator at a position. A question mark and a point before a digit are two tokens. -/
def markAt? (text : String) (i : Nat) (c : Char) : Option String :=
  (marksFrom c).find? fun mark =>
    startsAt text i mark && !(mark == "?." && testAt Char.isDigit text (i + 2))

/-- What the reader of a string literal or a template has found so far. -/
structure QuoteScan where
  pieces : Array Piece
  stop : Nat
  closed : Bool
  wellFormed : Bool
  legacy : Legacy
  faults : List Diagnostic

/-- Read the characters of a string literal up to its closing quote. -/
def scanQuote (quote : Char) (text : String) : Nat → Nat → QuoteScan → QuoteScan
  | 0, _, read => read
  | fuel + 1, i, read =>
    match charAt? text i with
    | none => { read with stop := i }
    | some c =>
      -- Only these two characters end a line here; the wide line ends may stand in a literal.
      if c == quote then { read with stop := i + 1, closed := true }
      else if c == '\n' || c == '\r' then { read with stop := i }
      else if c == '\\' then
        let escape := Escape.readAt false text (i + 1)
        scanQuote quote text fuel escape.stop
          { read with
            pieces := match escape.piece with
              | some piece => read.pieces.push piece
              | none => read.pieces
            legacy := if read.legacy = .none then escape.legacy else read.legacy
            faults := if escape.wellFormed then read.faults else read.faults ++ [⟨.badEscape, i⟩] }
      else scanQuote quote text fuel (i + c.utf8Size)
        { read with pieces := read.pieces.push (.char c) }

/-- Read the characters of a template up to its end or a substitution. -/
def scanTemplate (text : String) : Nat → Nat → Bool → Option (Nat × Bool × Bool)
  | 0, _, _ => none
  | fuel + 1, i, wellFormed =>
    match charAt? text i with
    | none => none
    | some c =>
      if c == '\x60' then some (i + 1, true, wellFormed)
      else if c == '$' && testAt (· == '\x7b') text (i + 1) then some (i + 2, false, wellFormed)
      else if c == '\\' then
        -- A broken escape is no fault yet: a tagged template may hold it.
        let escape := Escape.readAt true text (i + 1)
        scanTemplate text fuel (max (i + 1) escape.stop) (wellFormed && escape.wellFormed)
      else scanTemplate text fuel (i + c.utf8Size) wellFormed

/-- Read the body of a regular expression up to the slash that closes it. -/
def scanRegexBody (text : String) : Nat → Nat → Bool → Option Nat
  | 0, _, _ => none
  | fuel + 1, i, inClass =>
    match charAt? text i with
    | none => none
    | some c =>
      if isNewline c then none
      else if c == '/' && !inClass then some (i + 1)
      else if c == '\\' then
        match charAt? text (i + 1) with
        | none => none
        | some d =>
          if isNewline d then none else scanRegexBody text fuel (i + 1 + d.utf8Size) inClass
      -- A slash inside of brackets does not close the body.
      else scanRegexBody text fuel (i + c.utf8Size) ((inClass || c == '[') && c != ']')

def isFlag (c : Char) : Bool :=
  c.isAlphanum || c == '$' || c == '_'

/-- Complain about flags of a regular expression that are unknown or repeated. -/
def checkFlags (i : Nat) : List Char → List Char → List Diagnostic
  | [], _ => []
  | c :: rest, seen =>
    let fault : List Diagnostic :=
      if !"gimsuydv".toList.contains c then [⟨.unknownFlag c, i⟩]
      else if seen.contains c then [⟨.repeatedFlag c, i⟩]
      else []
    fault ++ checkFlags (i + c.utf8Size) rest (c :: seen)

namespace Lexed

def plain (lexeme : Lexeme) (start stop : Nat) (newline : Bool) : Lexed :=
  ⟨⟨lexeme, start, stop, newline, false⟩, []⟩

def broken (complaint : Complaint) (place start stop : Nat) (newline : Bool) : Lexed :=
  ⟨⟨.bad, start, stop, newline, false⟩, [⟨complaint, place⟩]⟩

/-- The rest of a template, from the character after its opening quote or closing brace. -/
def templatePart (text : String) (start : Nat) (opens newline : Bool) : Lexed :=
  match scanTemplate text (text.utf8ByteSize - start + 1) (start + 1) true with
  | some (stop, closes, wellFormed) =>
    plain (.template opens closes wellFormed) start stop newline
  | none => broken .openString start start text.utf8ByteSize newline

def string (quote : Char) (text : String) (start : Nat) (newline : Bool) : Lexed :=
  let read := scanQuote quote text (text.utf8ByteSize - start + 1) (start + 1)
    ⟨#[], start, false, true, .none, []⟩
  if read.closed then
    let pieces := read.pieces.toList
    let lexeme := Lexeme.string (Piece.assemble pieces) read.legacy (!pieces.any Piece.isLone)
    ⟨⟨lexeme, start, read.stop, newline, false⟩, read.faults⟩
  else ⟨⟨.bad, start, read.stop, newline, false⟩, read.faults ++ [⟨.openString, start⟩]⟩

/-- A name, or a name after a number sign. -/
def word (text : String) (start : Nat) (newline : Bool) : Lexed :=
  let read := scanName text start
  ⟨⟨.word read.name, start, read.stop, newline, read.escaped⟩, read.faults⟩

def privateName (text : String) (start : Nat) (newline : Bool) : Lexed :=
  match charAt? text (start + 1) with
  | none => broken .unexpectedEnd (start + 1) start (start + 1) newline
  | some c =>
    if isNameStart c || c == '\\' then
      let read := scanName text (start + 1)
      ⟨⟨.privateName read.name, start, read.stop, newline, read.escaped⟩, read.faults⟩
    else broken (.invalidCharacter c) (start + 1) start (start + 1 + c.utf8Size) newline

def after (isScript : Bool) (text : String) (i : Nat) : Lexed :=
  let gap := gapAt isScript text i
  let start := gap.stop
  let newline := gap.newline
  match gap.openComment with
  | some place => ⟨⟨.eof, start, start, newline, false⟩, [⟨.openComment, place⟩]⟩
  | none =>
    match charAt? text start with
    | none => plain .eof start start newline
    | some c =>
      if isNameStart c || c == '\\' then word text start newline
      else if c.isDigit || (c == '.' && testAt Char.isDigit text (start + 1)) then
        let read := scanNumeral text start
        ⟨⟨read.lexeme, start, read.stop, newline, false⟩, read.fault.toList⟩
      else match markAt? text start c with
        | some mark => plain (.mark mark) start (start + mark.utf8ByteSize) newline
        | none =>
          match c with
          | '"' => string c text start newline
          | '\'' => string c text start newline
          | '\x60' => templatePart text start true newline
          | '#' => privateName text start newline
          | _ => broken (.invalidCharacter c) start start (start + c.utf8Size) newline

/-- The regular expression whose first slash is the start of a token. -/
def regex (text : String) (token : Token) : Lexed :=
  match scanRegexBody text (text.utf8ByteSize + 1) (token.start + 1) false with
  | none =>
    let stop := skipWhile (!isNewline ·) text (token.start + 1)
    broken .openRegex token.start token.start stop token.newline
  | some body =>
    let stop := skipWhile isFlag text body
    let flags := (slice text body stop).toList
    let clash : List Diagnostic :=
      if flags.contains 'u' && flags.contains 'v' then [⟨.clashingFlags, token.start⟩] else []
    ⟨⟨.regex, token.start, stop, token.newline, false⟩, checkFlags body flags [] ++ clash⟩

/-- The longest operator that begins with the greater-than sign of a token. -/
def greater (text : String) (token : Token) : Lexed :=
  match [">>>=", ">>>", ">>=", ">>", ">=", ">"].find? (startsAt text token.start) with
  | some mark => plain (.mark mark) token.start (token.start + mark.utf8ByteSize) token.newline
  | none => ⟨token, []⟩

/-- A token cut down to its first character. -/
def firstMark (mark : String) (token : Token) : Lexed :=
  plain (.mark mark) token.start (token.start + 1) token.newline

/-- The token after a tag of markup: text, a brace, a tag or the end. Text that the end of the
source cuts off is the end. -/
def markupChild (text : String) (start : Nat) : Lexed :=
  match charAt? text start with
  | none => plain .eof start start false
  | some '<' => plain (.mark "<") start (start + 1) false
  | some '\x7b' => plain (.mark "\x7b") start (start + 1) false
  | some _ =>
    let stop := skipWhile (fun c => c != '<' && c != '\x7b' && c != '>' && c != '\x7d') text start
    match charAt? text stop with
    | none => plain .eof start stop false
    -- A closer that no tag or brace has opened has to be written as an entity.
    | some '>' => broken (.markupCloser ">" "&gt;") stop start (stop + 1) false
    | some '\x7d' => broken (.markupCloser "\x7d" "&rbrace;") stop start (stop + 1) false
    | some _ => plain .markupText start stop false

/-- A name in a tag, which may hold hyphens: the rest of the name that a token begins. -/
def markupName (text : String) (token : Token) : Lexed :=
  let stop := skipWhile (fun c => isNameRest c || c == '-') text token.stop
  plain (.word (slice text token.start stop)) token.start stop token.newline

/-- The token after the equals sign of an attribute: strings have no escapes there. -/
def markupValue (isScript : Bool) (text : String) (i : Nat) : Lexed :=
  let start := (gapAt isScript text i).stop
  match charAt? text start with
  | some c =>
    if c == '"' || c == '\'' then
      let stop := skipWhile (· != c) text (start + 1)
      if stop < text.utf8ByteSize then
        plain (.string (slice text (start + 1) stop) .none true) start (stop + 1) false
      else broken .openString start start stop false
    else after isScript text i
  | none => after isScript text i

end Lexed

end UnusedMethods.Script
