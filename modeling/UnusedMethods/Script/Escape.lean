import UnusedMethods.Script.Scan
import UnusedMethods.Script.Token
import UnusedMethods.Script.Complaint

/-!
# Escapes

Names and string literals may write characters as escapes. A string literal may also name a
surrogate without its partner, which is no character: such a string is kept with each lone
surrogate written as U+FFFD and four hexadecimal digits, and then U+FFFD itself is written so too.
-/

namespace UnusedMethods.Script

def hexValue? (c : Char) : Option Nat :=
  if '0' ≤ c && c ≤ '9' then some (c.toNat - '0'.toNat)
  else if 'a' ≤ c && c ≤ 'f' then some (c.toNat - 'a'.toNat + 10)
  else if 'A' ≤ c && c ≤ 'F' then some (c.toNat - 'A'.toNat + 10)
  else none

/-- The number that hexadecimal digits write. -/
def hexNumber? (digits : String) : Option Nat :=
  if digits.isEmpty then none
  else digits.toList.foldl
    (fun n c => do let n ← n; let d ← hexValue? c; some (n * 16 + d)) (some 0)

/-- The number that a fixed count of hexadecimal digits at a position writes. -/
def hexAt? (text : String) (i count : Nat) : Option Nat :=
  if i + count ≤ text.utf8ByteSize then
    let digits := slice text i (i + count)
    if digits.length == count then hexNumber? digits else none
  else none

/-- A code point after `\u`, the position after it, and whether it is written in braces. -/
def codePointAt? (text : String) (i : Nat) : Option (Nat × Nat × Bool) :=
  if testAt (· == '\x7b') text i then
    let stop := skipWhile (fun c => (hexValue? c).isSome) text (i + 1)
    match hexNumber? (slice text (i + 1) stop) with
    | some n =>
      if n ≤ 0x10FFFF && testAt (· == '\x7d') text stop then some (n, stop + 1, true) else none
    | none => none
  else (hexAt? text i 4).map fun n => (n, i + 4, false)

/-- A part of the value of a string literal. -/
inductive Piece where
  | char (c : Char)
  | surrogate (unit : Nat)
deriving DecidableEq, Repr

def Piece.ofCodePoint (n : Nat) : Piece :=
  if 0xD800 ≤ n && n ≤ 0xDFFF then .surrogate n else .char (Char.ofNat n)

/-- A code unit as a lone surrogate is kept. -/
def markedUnit (n : Nat) : List Char :=
  let digits := Nat.toDigits 16 n
  '\uFFFD' :: (List.replicate (4 - digits.length) '0' ++ digits)

def Piece.isLone : Piece → Bool
  | .surrogate _ => true
  | .char _ => false

/-- The text of a string literal's value. -/
def Piece.assemble (pieces : List Piece) : String :=
  -- Only a string that holds a mark needs its own U+FFFD told from it.
  let lone := pieces.any Piece.isLone
  String.ofList (pieces.flatMap fun
    | .char c => if lone && c == '\uFFFD' then markedUnit 0xFFFD else [c]
    | .surrogate n => markedUnit n)

/-- An escape in a string literal or a template. -/
structure Escape where
  piece : Option Piece
  stop : Nat
  wellFormed : Bool
  legacy : Legacy
deriving Repr

namespace Escape

/-- An escape that means a character. -/
def plain (c : Char) (stop : Nat) : Escape :=
  ⟨some (.char c), stop, true, .none⟩

/-- An escape that means nothing. -/
def malformed (stop : Nat) : Escape :=
  ⟨none, stop, false, .none⟩

def isOctal (c : Char) : Bool :=
  '0' ≤ c && c ≤ '7'

/-- An octal escape: three digits if the first is at most `3`, otherwise two. -/
def octal (text : String) (i : Nat) (first : Char) : Escape :=
  let most := if first ≤ '3' then 3 else 2
  let stop := min (skipWhile isOctal text i) (i + most)
  let value := (slice text i stop).toList.foldl (fun n c => n * 8 + (c.toNat - '0'.toNat)) 0
  let legacy := if first != '0' || testAt (fun c => '1' ≤ c && c ≤ '9') text (i + 1)
    then Legacy.octal else .none
  ⟨some (.char (Char.ofNat value)), stop, true, legacy⟩

/-- The escape whose backslash stands before a position. At the end of the text it is not the escape
that is wrong, but the literal that has no end. -/
def readAt (inTemplate : Bool) (text : String) (i : Nat) : Escape :=
  match charAt? text i with
  | none => ⟨none, i, true, .none⟩
  | some c =>
    let next := i + c.utf8Size
    match c with
    -- A line that goes on after its end: the escape stands for nothing.
    | '\r' => ⟨none, if testAt (· == '\n') text next then next + 1 else next, true, .none⟩
    | '\n' => ⟨none, next, true, .none⟩
    | 'b' => plain '\x08' next
    | 'f' => plain '\x0c' next
    | 'n' => plain '\n' next
    | 'r' => plain '\r' next
    | 't' => plain '\t' next
    | 'v' => plain '\x0b' next
    | 'x' =>
      match hexAt? text next 2 with
      | some n => plain (Char.ofNat n) (next + 2)
      | none => malformed next
    | 'u' =>
      match codePointAt? text next with
      | none => malformed next
      | some (n, stop, braced) =>
        -- The halves of a pair become one character only where neither is written in braces.
        let low := if startsAt text stop "\\u" then hexAt? text (stop + 2) 4 else none
        match low with
        | some m =>
          if !braced && 0xD800 ≤ n && n ≤ 0xDBFF && 0xDC00 ≤ m && m ≤ 0xDFFF then
            plain (Char.ofNat ((n - 0xD800) * 0x400 + (m - 0xDC00) + 0x10000)) (stop + 6)
          else ⟨some (.ofCodePoint n), stop, true, .none⟩
        | none => ⟨some (.ofCodePoint n), stop, true, .none⟩
    | _ =>
      if isWideNewline c then ⟨none, next, true, .none⟩
      else if c == '0' && !testAt Char.isDigit text next then plain '\x00' next
      -- Templates are younger than octal escapes and never had them.
      else if c.isDigit && inTemplate then malformed next
      else if isOctal c then octal text i c
      else if c.isDigit then ⟨some (.char c), next, true, .decimal⟩
      else plain c next

end Escape

/-- A name as it is read, with its escapes resolved. -/
structure NameScan where
  name : String
  stop : Nat
  escaped : Bool
  faults : List Diagnostic
deriving Repr

/-- Read the rest of a name that may hold escapes. -/
def scanEscapedName (text : String) : Nat → Nat → NameScan → NameScan
  | 0, _, read => read
  | fuel + 1, i, read =>
    match charAt? text i with
    | none => read
    | some c =>
      if c == '\\' then
        -- An escape may write no character that the name could not hold unescaped.
        let first := read.name.isEmpty && read.faults.isEmpty
        let point := if testAt (· == 'u') text (i + 1) then codePointAt? text (i + 2) else none
        match point with
        | none => ⟨read.name, i + 1, true, read.faults ++ [⟨.badUnicodeEscape, i + 1⟩]⟩
        | some (n, stop, _) =>
          let c := Char.ofNat n
          let fits := if first then isNameStart c else isNameRest c
          if 0xD800 ≤ n && n ≤ 0xDFFF then
            ⟨read.name, stop, true, read.faults ++ [⟨.badUnicodeEscape, i + 1⟩]⟩
          else if fits then
            scanEscapedName text fuel stop ⟨read.name.push c, stop, true, read.faults⟩
          else ⟨read.name, stop, true, read.faults ++ [⟨.invalidCharacter c, stop⟩]⟩
      else if isNameRest c then
        scanEscapedName text fuel (i + c.utf8Size)
          ⟨read.name.push c, i + c.utf8Size, read.escaped, read.faults⟩
      else read

def scanName (text : String) (i : Nat) : NameScan :=
  let stop := skipWhile isNameRest text i
  if testAt (· == '\\') text stop then
    scanEscapedName text (text.utf8ByteSize - i + 1) i ⟨"", i, false, []⟩
  else ⟨slice text i stop, stop, false, []⟩

end UnusedMethods.Script
