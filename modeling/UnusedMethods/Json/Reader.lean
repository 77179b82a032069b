import UnusedMethods.Text.Lines
import UnusedMethods.Text.Quoted
import UnusedMethods.Decimal.Shortest

/-!
# Reading JSON

Configuration is read straight from JSON text into the value that is wanted: a reader moves over
the bytes and asks for the kind of value that should stand there. So a value of the wrong kind is
noticed where it stands, before anything wrong further on.

A fault is a cause and, once known, a place. A fault about the meaning of a value gets the place
that the reader has reached when the value around it ends.
-/

namespace UnusedMethods.Json

open Text (byteAt)

/-- Why a text cannot be read. -/
inductive Cause where
  | endInValue
  | endInObject
  | endInList
  | endInString
  | expectedColon
  | expectedCommaInList
  | expectedCommaInObject
  | expectedWord
  | expectedValue
  | keyNotString
  | badEscape
  | badNumber
  | numberTooLarge
  | controlCharacter
  | loneSurrogate
  | brokenSurrogatePair
  | trailingComma
  | trailingText
  | tooDeep
  | wrongType (found expected : String)
  | wrongLength (found : Nat) (expected : String)
  | duplicateField (name : String)
  | noAlternative (name : String)
deriving DecidableEq, Repr

def Cause.message : Cause → String
  | .endInValue => "EOF while parsing a value"
  | .endInObject => "EOF while parsing an object"
  | .endInList => "EOF while parsing a list"
  | .endInString => "EOF while parsing a string"
  | .expectedColon => "expected `:`"
  | .expectedCommaInList => "expected `,` or `]`"
  | .expectedCommaInObject => "expected `,` or `\x7d`"
  | .expectedWord => "expected ident"
  | .expectedValue => "expected value"
  | .keyNotString => "key must be a string"
  | .badEscape => "invalid escape"
  | .badNumber => "invalid number"
  | .numberTooLarge => "number out of range"
  | .controlCharacter => "control character (\\u0000-\\u001F) found while parsing a string"
  | .loneSurrogate => "lone leading surrogate in hex escape"
  | .brokenSurrogatePair => "unexpected end of hex escape"
  | .trailingComma => "trailing comma"
  | .trailingText => "trailing characters"
  | .tooDeep => "recursion limit exceeded"
  | .wrongType found expected => "invalid type: " ++ found ++ ", expected " ++ expected
  | .wrongLength found expected =>
    "invalid length " ++ toString found ++ ", expected " ++ expected
  | .duplicateField name => "duplicate field `" ++ name ++ "`"
  | .noAlternative name => "data did not match any variant of untagged enum " ++ name

/-- A cause and, once known, its line and column. -/
structure Fault where
  cause : Cause
  place : Option (Nat × Nat)
deriving DecidableEq, Repr

def Fault.message (fault : Fault) : String :=
  match fault.place with
  | none => fault.cause.message
  | some (line, column) =>
    fault.cause.message ++ " at line " ++ toString line ++ " column " ++ toString column

/-- Where a reader stands: a position in the text, and how many more values it may enter. -/
structure Position where
  index : Nat
  depth : Nat

/-- A reader of values from bytes. A failed reader keeps the position it has reached. -/
abbrev Reader (α : Type) := ReaderT ByteArray (EStateM Fault Position) α

/-- Move a place over one byte. -/
def advance (place : Nat × Nat) (b : UInt8) : Nat × Nat :=
  if b == 10 then (place.1 + 1, 0) else (place.1, place.2 + 1)

/-- The line and column of a position; columns count bytes. -/
def placeOf (bytes : ByteArray) (index : Nat) : Nat × Nat :=
  (List.range index).foldl (fun place i => advance place (byteAt bytes i)) (1, 0)

/-- Fail with a cause at the current position. -/
def failHere {α : Type} (cause : Cause) : Reader α := do
  throw ⟨cause, some (placeOf (← read) (← get).index)⟩

/-- Fail with a cause at the byte that comes next. -/
def failNext {α : Type} (cause : Cause) : Reader α := do
  let bytes ← read
  throw ⟨cause, some (placeOf bytes (min bytes.size ((← get).index + 1)))⟩

/-- Fail with a cause whose place is not known yet. -/
def failUnplaced {α : Type} (cause : Cause) : Reader α :=
  throw ⟨cause, none⟩

/-- Give a fault without a place the position that is current when it arrives here. -/
def placed {α : Type} (reader : Reader α) : Reader α :=
  tryCatch reader fun fault =>
    match fault.place with
    | some _ => throw fault
    | none => failHere fault.cause

/-- The next byte, not consumed. -/
def peek : Reader (Option UInt8) := do
  let bytes ← read
  let i := (← get).index
  return if i < bytes.size then some (byteAt bytes i) else none

def skip : Reader Unit :=
  modify fun p => { p with index := p.index + 1 }

/-- Consume and return the next byte. -/
def next : Reader (Option UInt8) := do
  let b ← peek
  if b.isSome then skip
  return b

/-- The first position from `i` on whose byte fails a test. -/
def scanWhile (test : UInt8 → Bool) (bytes : ByteArray) (i : Nat) : Nat :=
  if h : i < bytes.size then
    if test bytes[i] then scanWhile test bytes (i + 1) else i
  else i
termination_by bytes.size - i

/-- Blank, tab, line feed or carriage return. -/
def isSpace (b : UInt8) : Bool :=
  b == 32 || b == 9 || b == 10 || b == 13

def isDigit (b : UInt8) : Bool :=
  48 ≤ b && b ≤ 57

/-- Skip whitespace and look at what follows. -/
def peekToken : Reader (Option UInt8) := do
  let bytes ← read
  modify fun p => { p with index := scanWhile isSpace bytes p.index }
  peek

/-- The next byte after whitespace; the text must not end there. -/
def needToken : Reader UInt8 := do
  match ← peekToken with
  | some b => return b
  | none => failNext .endInValue

/-- Consume the rest of a word such as `null`. -/
def word : List UInt8 → Reader Unit
  | [] => return ()
  | b :: rest => do
    match ← next with
    | none => failHere .endInValue
    | some c => if b == c then word rest else failHere .expectedWord

def ascii (text : String) : List UInt8 :=
  text.toList.map fun c => c.toNat.toUInt8

/-- Count an entered value against the depth limit while reading its inside. -/
def entering {α : Type} (reader : Reader α) : Reader α := do
  modify fun p => { p with depth := p.depth - 1 }
  if (← get).depth == 0 then failNext .tooDeep
  -- The depth is given back on failure too: the end is still looked for after a fault.
  let restore := modify fun p => { p with depth := p.depth + 1 }
  let a ← tryCatch reader fun fault => do restore; throw fault
  restore
  return a

/-! ### Strings -/

def hexValue (b : UInt8) : Option Nat :=
  if isDigit b then some (b.toNat - 48)
  else if 97 ≤ b && b ≤ 102 then some (b.toNat - 87)
  else if 65 ≤ b && b ≤ 70 then some (b.toNat - 55)
  else none

def hexEscape : Reader Nat := do
  let bytes ← read
  let i := (← get).index
  if bytes.size < i + 4 then
    modify fun p => { p with index := bytes.size }
    failHere .endInString
  else
    modify fun p => { p with index := i + 4 }
    let digits := (List.range 4).mapM fun k => hexValue (byteAt bytes (i + k))
    match digits with
    | none => failHere .badEscape
    | some ds => return ds.foldl (fun n d => n * 16 + d) 0

/-- The next byte of a string, which must not end the text. -/
def needInString : Reader UInt8 := do
  match ← peek with
  | some b => return b
  | none => failHere .endInString

/-- Read what follows `\u`: a character, or two escapes that make up one. -/
def unicodeEscape : Reader Char := do
  let n ← hexEscape
  if 0xDC00 ≤ n && n ≤ 0xDFFF then failHere .loneSurrogate
  else if n < 0xD800 || 0xDBFF < n then return Char.ofNat n
  else
    -- The first half of a pair: its second half must follow as an escape of the same kind.
    let backslash ← needInString
    skip
    if backslash != 92 then failHere .brokenSurrogatePair
    let u ← needInString
    skip
    if u != 117 then failHere .brokenSurrogatePair
    let low ← hexEscape
    if low < 0xDC00 || 0xDFFF < low then failHere .loneSurrogate
    else return Char.ofNat ((n - 0xD800) * 1024 + (low - 0xDC00) + 0x10000)

/-- The character of a one-letter escape. -/
def shortEscape (b : UInt8) : Option Char :=
  if b == 34 || b == 92 || b == 47 then some (Char.ofNat b.toNat)
  else if b == 98 then some '\x08'
  else if b == 102 then some '\x0c'
  else if b == 110 then some '\n'
  else if b == 114 then some '\r'
  else if b == 116 then some '\t'
  else none

/-- A byte that stands for itself in a string. -/
def isPlain (b : UInt8) : Bool :=
  b != 34 && b != 92 && 32 ≤ b

def sliceText (bytes : ByteArray) (i j : Nat) : String :=
  (String.fromUTF8? (bytes.extract i j)).getD ""

/-- Read the rest of a string, adding to what has been read of it. -/
def stringRest : Nat → String → Reader String
  | 0, _ => failHere .endInString
  | fuel + 1, done => do
    let bytes ← read
    let i := (← get).index
    let j := scanWhile isPlain bytes i
    modify fun p => { p with index := j }
    let done := done ++ sliceText bytes i j
    match ← peek with
    | none => failHere .endInString
    | some b =>
      -- What is not plain is a quote, a backslash or a control character.
      skip
      if b == 34 then return done
      else if b != 92 then failHere .controlCharacter
      else
        let e ← needInString
        skip
        if e == 117 then stringRest fuel (done.push (← unicodeEscape))
        else match shortEscape e with
          | some c => stringRest fuel (done.push c)
          | none => failHere .badEscape

def stringBody : Reader String := do
  stringRest ((← read).size + 1) ""

/-- Skip the rest of a string without forming its text. -/
def skipStringRest : Nat → Reader Unit
  | 0 => failHere .endInString
  | fuel + 1 => do
    let bytes ← read
    modify fun p => { p with index := scanWhile isPlain bytes p.index }
    match ← peek with
    | none => failHere .endInString
    | some b =>
      if b == 34 then skip
      else if b != 92 then failHere .controlCharacter
      else
        skip
        let e ← needInString
        skip
        if e == 117 then
          -- Halves of pairs are not put together here, so none is lone.
          let _ ← hexEscape
          skipStringRest fuel
        else if (shortEscape e).isSome then skipStringRest fuel
        else failHere .badEscape

def skipString : Reader Unit := do
  skipStringRest ((← read).size + 1)

/-! ### Numbers -/

/-- A number as far as messages tell kinds of numbers apart. -/
inductive Number where
  | whole (value : Int)
  | real (text : String)

def Number.describe : Number → String
  | .whole value => "integer `" ++ toString value ++ "`"
  | .real text => "floating point `" ++ text ++ "`"

def digits : Reader (List Nat) := do
  let bytes ← read
  let i := (← get).index
  let j := scanWhile isDigit bytes i
  modify fun p => { p with index := j }
  return (List.range (j - i)).map fun k => (byteAt bytes (i + k)).toNat - 48

/-- The greatest whole number that is kept exactly. -/
def maxWhole : Nat := Nat.pow 2 64 - 1

/-- The number that decimal digits spell, digits that no longer fit being dropped, and how many
digits were dropped. -/
def significand (ds : List Nat) (start : Nat) : Nat × Nat :=
  ds.foldl (fun (value, dropped) d =>
    if dropped == 0 && value * 10 + d ≤ maxWhole then (value * 10 + d, 0)
    else (value, dropped + 1)) (start, 0)

/-- The text of a real number given by a significand and an exponent of ten. It is rounded more than
once, so its last digit may be off. -/
def realText (negative : Bool) (m : Nat) (exponent : Int) : Option String :=
  match Decimal.Double.scaled (exponent.natAbs / Decimal.Double.maxTen + 2)
      (Decimal.Double.ofNat m) exponent with
  | .infinite => none
  | .finite s e => some ((if negative then "-" else "") ++ (Decimal.Double.shortest s e).compact)

/-- Finish a real number. -/
def real (negative : Bool) (m : Nat) (exponent : Int) : Reader Number := do
  match realText negative m exponent with
  | some text => return .real text
  | none => failHere .numberTooLarge

/-- The greatest exponent of ten that is told apart from greater ones. -/
def maxTens : Nat := Nat.pow 2 31 - 1

/-- The exponent that digits spell after a first one, or how many of them make it too large. -/
def exponentOf : List Nat → Nat → Nat → Except Nat Nat
  | [], value, _ => .ok value
  | d :: rest, value, count =>
    if maxTens < value * 10 + d then .error (count + 1)
    else exponentOf rest (value * 10 + d) (count + 1)

/-- Read an exponent after its letter and finish the number. An exponent that is too large fails at
the digit that makes it so, unless the number is tiny or zero all the same. -/
def exponentPart (negative : Bool) (m : Nat) (exponent : Int) : Reader Number := do
  skip
  let sign ← peek
  if sign == some 43 || sign == some 45 then skip
  match ← next with
  | none => failHere .endInValue
  | some b =>
    if !isDigit b then failHere .badNumber
    else
      let start := (← get).index
      match exponentOf (← digits) (b.toNat - 48) 0 with
      -- 45 is a minus sign.
      | .ok value =>
        real negative m (if sign == some 45 then exponent - value else exponent + value)
      | .error count =>
        if m != 0 && sign != some 45 then
          modify fun p => { p with index := start + count }
          failHere .numberTooLarge
        else real negative 0 0

/-- Read the fraction after a point and finish the number. -/
def fractionPart (negative : Bool) (m : Nat) (exponent : Int) : Reader Number := do
  skip
  let ds ← digits
  if ds.isEmpty then
    match ← peek with
    | some _ => failNext .badNumber
    | none => failNext .endInValue
  else
    let (value, dropped) := significand ds m
    -- Each digit that is kept moves the point by one place.
    let exponent := exponent - ((ds.length : Int) - dropped)
    let b ← peek
    if b == some 101 || b == some 69 then exponentPart negative value exponent
    else real negative value exponent

/-- Read a number after its sign. -/
def number (negative : Bool) : Reader Number := do
  match ← next with
  | none => failHere .endInValue
  | some b =>
    if !isDigit b then failHere .badNumber
    else
      -- A zero in front stands alone.
      if b == 48 && ((← peek).map isDigit).getD false then failNext .badNumber
      let ds ← if b == 48 then pure [] else digits
      let (value, dropped) := significand ds (b.toNat - 48)
      let c ← peek
      if c == some 46 then fractionPart negative value dropped
      else if c == some 101 || c == some 69 then exponentPart negative value dropped
      else if dropped != 0 then real negative value dropped
      -- Minus zero and what lies below the signed range are kept as real numbers.
      else if negative && (value == 0 || Nat.pow 2 63 < value) then real true value 0
      else return .whole (if negative then -(value : Int) else value)

/-- Skip digits, at least one where `needed`. -/
def skipDigits (needed : Bool) : Reader Unit := do
  let bytes ← read
  let i := (← get).index
  let j := scanWhile isDigit bytes i
  modify fun p => { p with index := j }
  if needed && i == j then failNext .badNumber

def skipExponent : Reader Unit := do
  skip
  let sign ← peek
  if sign == some 43 || sign == some 45 then skip
  match ← next with
  | some b => if isDigit b then skipDigits false else failHere .badNumber
  | none => failHere .badNumber

def skipNumber : Reader Unit := do
  match ← next with
  | none => failHere .badNumber
  | some b =>
    if !isDigit b then failHere .badNumber
    if b == 48 then
      if ((← peek).map isDigit).getD false then failNext .badNumber
    else skipDigits false
    if (← peek) == some 46 then
      skip
      skipDigits true
    let c ← peek
    if c == some 101 || c == some 69 then skipExponent

end UnusedMethods.Json
