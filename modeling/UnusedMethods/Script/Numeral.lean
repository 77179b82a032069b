import UnusedMethods.Script.Escape
import UnusedMethods.Decimal.Shortest

/-!
# Numerals

A numeral is read with its value, and the value is kept as the decimal that names it: a property
`0x10` is the property `16`.
-/

namespace UnusedMethods.Script

open Decimal (Double)

/-- What stands at a position where a digit or a point begins a numeral. -/
structure NumeralScan where
  lexeme : Lexeme
  stop : Nat
  fault : Option Diagnostic
deriving Repr

namespace NumeralScan

/-- A character that cannot stand where it stands, or the end of the text. -/
def stray (text : String) (i : Nat) : NumeralScan :=
  match charAt? text i with
  | some c => ⟨.bad, i + c.utf8Size, some ⟨.invalidCharacter c, i⟩⟩
  | none => ⟨.bad, i, some ⟨.unexpectedEnd, i⟩⟩

/-- A numeral may not run into a name or a digit. -/
def finish (text : String) (stop : Nat) (lexeme : Lexeme) : NumeralScan :=
  if testAt (fun c => c.isDigit || isNameStart c) text stop then
    ⟨.bad, skipWhile (fun c => c.isDigit || isNameStart c) text stop, some ⟨.afterNumber, stop⟩⟩
  else ⟨lexeme, stop, none⟩

end NumeralScan

/-- The end of a row of digits with single separators between them, or the position after a
separator that no digit follows. -/
def digitsEnd (isDigit : Char → Bool) (text : String) (i : Nat) : Except Nat Nat :=
  if i < text.utf8ByteSize then
    let c := String.Pos.Raw.get text ⟨i⟩
    if c == '_' then
      if testAt isDigit text (i + 1) then digitsEnd isDigit text (i + 2) else .error (i + 1)
    else if isDigit c then digitsEnd isDigit text (i + 1)
    else .ok i
  else .ok i
termination_by text.utf8ByteSize - i

def digitsOf (text : String) : List Nat :=
  text.toList.filterMap hexValue?

def decimalOf (text : String) : Nat :=
  (digitsOf text).foldl (fun n d => n * 10 + d) 0

/-- A numeral in a base that is a power of two, after the letter that names the base. -/
def scanBased (base : Nat) (shape : NumeralShape) (text : String) (i : Nat) : NumeralScan :=
  let isDigit (c : Char) := match hexValue? c with | some d => d < base | none => false
  if testAt isDigit text i then
    match digitsEnd isDigit text i with
    | .error j => .stray text j
    | .ok stop =>
      if testAt (· == 'n') text stop then .finish text (stop + 1) (.bigint shape)
      else
        let value := (Double.ofDigits base (digitsOf (slice text i stop))).positional
        .finish text stop (.number value shape .none)
  else .stray text i

/-- The decimal form of a numeral given by its whole part, its fraction and its exponent. -/
def valueText (whole fraction : String) (exponent : Int) : String :=
  let places := (digitsOf fraction).length
  (Double.ofScientific (decimalOf (whole ++ fraction)) (exponent - places)).positional

/-- The exponent of a numeral, if one stands at a position: `i` is the position of the letter. -/
def scanExponent (text : String) (i : Nat) : Except Nat (Int × Nat) :=
  let signed := testAt (fun c => c == '+' || c == '-') text (i + 1)
  let start := if signed then i + 2 else i + 1
  if testAt Char.isDigit text start then do
    let stop ← digitsEnd Char.isDigit text start
    let n := decimalOf (slice text start stop)
    pure (if testAt (· == '-') text (i + 1) then -(n : Int) else n, stop)
  else .error start

/-- The exponent of a numeral that begins with a zero and has no point. What follows it is not
looked at. -/
def scanZeroExponent (text whole : String) (legacy : Legacy) (i : Nat) : NumeralScan :=
  match scanExponent text i with
  | .error j => .stray text j
  | .ok (exponent, stop) => ⟨.number (valueText whole "" exponent) .float legacy, stop, none⟩

/-- The rest of a numeral after its whole part and its fraction. -/
def scanTail (text whole fraction : String) (shape : NumeralShape) (legacy : Legacy) (i : Nat) :
    NumeralScan :=
  if testAt (fun c => c == 'e' || c == 'E') text i then
    match scanExponent text i with
    | .error j => .stray text j
    | .ok (exponent, stop) =>
      .finish text stop (.number (valueText whole fraction exponent) .float legacy)
  else .finish text i (.number (valueText whole fraction 0) shape legacy)

/-- The rest of a numeral after its point, which stands before `i`. -/
def scanFraction (text whole : String) (legacy : Legacy) (i : Nat) : NumeralScan :=
  if testAt Char.isDigit text i then
    match digitsEnd Char.isDigit text i with
    | .error j => .stray text j
    | .ok stop => scanTail text whole (slice text i stop) .float legacy stop
  else scanTail text whole "" .float legacy i

/-- A numeral that begins with a zero and another digit: octal, or decimal if a digit says so. -/
def scanLegacy (text : String) (i : Nat) : NumeralScan :=
  let stop := skipWhile Char.isDigit text i
  let digits := slice text i stop
  -- An octal numeral has no fraction and no exponent.
  if digits.toList.all Escape.isOctal then
    .finish text stop (.number (Double.ofDigits 8 (digitsOf digits)).positional .octal .octal)
  else if testAt (· == '.') text stop then scanFraction text digits .decimal (stop + 1)
  else if testAt (· == 'e') text stop then scanZeroExponent text digits .decimal stop
  else .finish text stop (.number (valueText digits "" 0) .decimal .decimal)

/-- The numeral at a position where a digit stands, or a point before a digit. -/
def scanNumeral (text : String) (i : Nat) : NumeralScan :=
  if testAt (· == '.') text i then scanFraction text "" .none (i + 1)
  else
    let zero := testAt (· == '0') text i
    match if zero then charAt? text (i + 1) else none with
    | some 'x' => scanBased 16 .hex text (i + 2)
    | some 'X' => scanBased 16 .hex text (i + 2)
    | some 'o' => scanBased 8 .octal text (i + 2)
    | some 'O' => scanBased 8 .octal text (i + 2)
    | some 'b' => scanBased 2 .binary text (i + 2)
    | some 'B' => scanBased 2 .binary text (i + 2)
    | some 'e' => scanZeroExponent text "0" .none (i + 1)
    | some 'E' => scanZeroExponent text "0" .none (i + 1)
    -- A separator after a zero ends the numeral, and what follows it is then a fault.
    | some '_' => .finish text (i + 1) (.number "0" .decimal .none)
    | next =>
      if next.any Char.isDigit then scanLegacy text i
      else match digitsEnd Char.isDigit text i with
        | .error j => .stray text j
        | .ok stop =>
          let whole := slice text i stop
          if testAt (· == 'n') text stop then .finish text (stop + 1) (.bigint .decimal)
          else if testAt (· == '.') text stop then scanFraction text whole .none (stop + 1)
          else scanTail text whole "" .decimal .none stop

end UnusedMethods.Script
