/-!
# Tokens

A token is a lexeme with the bytes that it covers. Words are not divided into names and keywords:
most keywords are names in some place, and the place decides.
-/

namespace UnusedMethods.Script

/-- How a literal uses spellings that strict code forbids. -/
inductive Legacy where
  | none
  /-- An octal numeral with a leading zero, or an octal escape. -/
  | octal
  /-- A decimal numeral with a leading zero, or an escaped `8` or `9`. -/
  | decimal
deriving DecidableEq, Repr

inductive NumeralShape where
  | decimal
  | float
  | binary
  | octal
  | hex
deriving DecidableEq, Repr

/-- What a token is. -/
inductive Lexeme where
  | eof
  /-- Characters that form no token. -/
  | bad
  /-- A name or a keyword, with its escapes resolved. -/
  | word (text : String)
  | mark (text : String)
  | privateName (name : String)
  /-- A string literal; a flag says whether each of its surrogates has a partner. -/
  | string (value : String) (legacy : Legacy) (isWhole : Bool)
  /-- A number, with the decimal form of its value. -/
  | number (value : String) (shape : NumeralShape) (legacy : Legacy)
  | bigint (shape : NumeralShape)
  | regex
  /-- A part of a template, before a substitution or at the end; a part may open the template. -/
  | template (opens closes wellFormed : Bool)
  /-- Text between the tags of markup. -/
  | markupText
deriving DecidableEq, Repr

/-- Words that messages show as themselves; all others are shown as identifiers. -/
def keywords : List String :=
  ["await", "break", "case", "catch", "class", "const", "continue", "debugger", "default", "delete",
   "do", "else", "enum", "export", "extends", "finally", "for", "function", "if", "import", "in",
   "instanceof", "new", "return", "super", "switch", "this", "throw", "try", "typeof", "var",
   "void", "while", "with", "async", "from", "get", "meta", "of", "set", "target", "accessor",
   "source", "defer", "abstract", "as", "asserts", "assert", "any", "bigint", "boolean",
   "constructor", "declare", "infer", "intrinsic", "is", "keyof", "module", "namespace", "never",
   "out", "readonly", "require", "number", "object", "override", "satisfies", "symbol", "type",
   "undefined", "unique", "using", "unknown", "global", "string", "private", "protected", "public",
   "static", "implements", "interface", "let", "package", "yield", "null", "true", "false"]

/-- Words that never name a variable. -/
def reservedWords : List String :=
  ["break", "case", "catch", "class", "const", "continue", "debugger", "default", "delete",
   "do", "else", "enum", "export", "extends", "finally", "for", "function", "if", "import", "in",
   "instanceof", "new", "return", "super", "switch", "this", "throw", "try", "typeof", "var",
   "void", "while", "with", "null", "true", "false"]

/-- A word that never names a variable. -/
def isReserved (word : String) : Bool :=
  reservedWords.contains word

def NumeralShape.describe : NumeralShape → String
  | .decimal => "decimal"
  | .float => "float"
  | .binary => "binary"
  | .octal => "octal"
  | .hex => "hex"

def Lexeme.describe : Lexeme → String
  | .eof => "EOF"
  | .bad => "Unknown"
  | .word text => if keywords.contains text then text else "Identifier"
  | .mark text => text
  | .privateName _ => "#identifier"
  | .string .. => "string"
  | .number _ shape _ => shape.describe
  | .bigint shape => shape.describe
  | .regex => "/regexp/"
  | .template true true _ => "$\x7b\x7d"
  | .template true false _ => "$\x7b"
  | .template false false _ => "$\x7bexpr\x7d"
  | .template false true _ => "\x7d"
  | .markupText => "jsx"

/-- A lexeme and where it stands. -/
structure Token where
  lexeme : Lexeme
  start : Nat
  stop : Nat
  /-- A line ends between the token and the one before it. -/
  newline : Bool
  /-- A word is written with escapes. -/
  escaped : Bool
deriving DecidableEq, Repr

namespace Token

/-- The token is this keyword or punctuator. -/
@[inline] def is (token : Token) (text : String) : Bool :=
  match token.lexeme with
  | .word w => w == text
  | .mark m => m == text
  | _ => false

def isOneOf (token : Token) (texts : List String) : Bool :=
  match token.lexeme with
  | .word w => texts.contains w
  | .mark m => texts.contains m
  | _ => false

def word? (token : Token) : Option String :=
  match token.lexeme with
  | .word w => some w
  | _ => none

/-- The token is a word that may name a variable. -/
def isName (token : Token) : Bool :=
  match token.lexeme with
  | .word w => !isReserved w
  | _ => false

def isWord (token : Token) : Bool :=
  token.word?.isSome

/-- The token ends the text, or is no token at all. -/
def isBroken (token : Token) : Bool :=
  match token.lexeme with
  | .eof => true
  | .bad => true
  | _ => false

end Token

end UnusedMethods.Script
