/-!
# Lossy decoding

Bytes that need not be valid UTF-8 become text: a well-formed character stands for itself, and
each maximal part that begins a character without completing it becomes one U+FFFD.

A newline byte neither begins nor continues a multi-byte character, so it is never swallowed.
-/

namespace UnusedMethods.Text

def replacement : Char := '\uFFFD'

@[inline] def within (lo hi b : UInt8) : Bool :=
  lo ≤ b && b ≤ hi

/-- The range that the second byte of a character must lie in, given its first byte. -/
def secondRange (first : UInt8) : Option (UInt8 × UInt8) :=
  -- Narrower ranges keep out longer spellings than needed, surrogates, and what no character has.
  if within 0xC2 0xDF first then some (0x80, 0xBF)
  else if first == 0xE0 then some (0xA0, 0xBF)
  else if first == 0xED then some (0x80, 0x9F)
  else if within 0xE1 0xEF first then some (0x80, 0xBF)
  else if first == 0xF0 then some (0x90, 0xBF)
  else if within 0xF1 0xF3 first then some (0x80, 0xBF)
  else if first == 0xF4 then some (0x80, 0x8F)
  else none

/-- The number of bytes of a character, given its first byte. -/
def widthOf (first : UInt8) : Nat :=
  if first < 0x80 then 1 else if first < 0xE0 then 2 else if first < 0xF0 then 3 else 4

/-- The bits that a byte gives to its character. -/
@[inline] def payload (b : UInt8) : Nat :=
  (b &&& 0x3F).toNat

/-- What the bytes begin with: a character or a maximal broken part, and how many bytes it has. -/
def decodeFirst : List UInt8 → Char × Nat
  | [] => (replacement, 0)
  | a :: rest =>
    if a < 0x80 then (Char.ofNat a.toNat, 1)
    else match secondRange a, rest with
      | none, _ => (replacement, 1)
      | some _, [] => (replacement, 1)
      | some (lo, hi), b :: rest =>
        if !within lo hi b then (replacement, 1)
        else if widthOf a == 2 then (Char.ofNat ((a &&& 0x1F).toNat * 64 + payload b), 2)
        else match rest with
          | [] => (replacement, 2)
          | c :: rest =>
            if !within 0x80 0xBF c then (replacement, 2)
            else if widthOf a == 3 then
              (Char.ofNat (((a &&& 0x0F).toNat * 64 + payload b) * 64 + payload c), 3)
            else match rest with
              | [] => (replacement, 3)
              | d :: _ =>
                if !within 0x80 0xBF d then (replacement, 3)
                else (Char.ofNat ((((a &&& 0x07).toNat * 64 + payload b) * 64 + payload c) * 64 +
                  payload d), 4)

/-- Add the characters of the bytes to a text, broken parts replaced. -/
def decodeOnto (text : String) : List UInt8 → String
  | [] => text
  | a :: rest =>
    let (c, n) := decodeFirst (a :: rest)
    decodeOnto (text.push c) (rest.drop (n - 1))
termination_by bytes => bytes.length
decreasing_by exact Nat.lt_succ_of_le (List.length_drop ▸ Nat.sub_le ..)

/-- The text of the bytes. Valid UTF-8 is taken as it is; otherwise each maximal broken part
becomes one replacement character. -/
def decodeLossy (bytes : ByteArray) : String :=
  if h : bytes.IsValidUTF8 then String.fromUTF8 bytes h
  else decodeOnto "" bytes.toList

end UnusedMethods.Text
