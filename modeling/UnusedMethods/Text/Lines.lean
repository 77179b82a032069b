/-!
# Lines of a text

A byte offset into a text lies on a line and in a column, both counted from one. Lines end at
newline bytes only; columns count characters.

The table of line starts is increasing and begins with zero, so the line of an offset is the
number of starts that do not exceed it.
-/

namespace UnusedMethods.Text

/-- The byte at a position, zero past the end. -/
@[inline] def byteAt (bytes : ByteArray) (i : Nat) : UInt8 :=
  if h : i < bytes.size then bytes[i] else 0

def newline : UInt8 := 10

/-- A byte that continues a character begun earlier. -/
@[inline] def isContinuation (b : UInt8) : Bool :=
  b &&& 0xC0 == 0x80

/-- Where the lines of a text start, in increasing order. -/
structure LineTable where
  starts : Array Nat
deriving Repr

namespace LineTable

/-- The starts after position `i`, added to those already found. -/
def scan (bytes : ByteArray) (i : Nat) (found : Array Nat) : Array Nat :=
  if h : i < bytes.size then
    if bytes[i] == newline then scan bytes (i + 1) (found.push (i + 1))
    else scan bytes (i + 1) found
  else found
termination_by bytes.size - i

/-- The line table of a text given by its bytes. -/
def ofBytes (bytes : ByteArray) : LineTable :=
  ⟨scan bytes 0 #[0]⟩

/-- How many of the starts at positions `lo` to `hi` do not exceed `offset`, plus `lo`, when all
before `lo` do not and all from `hi` on do. -/
def search (starts : Array Nat) (offset lo hi : Nat) : Nat :=
  if lo < hi then
    let mid := (lo + hi) / 2
    if starts.getD mid 0 ≤ offset then search starts offset (mid + 1) hi
    else search starts offset lo mid
  else lo
termination_by hi - lo

def line (table : LineTable) (offset : Nat) : Nat :=
  max 1 (search table.starts offset 0 table.starts.size)

/-- The number of characters that start at positions `i` to `stop`. -/
def countChars (bytes : ByteArray) (i stop count : Nat) : Nat :=
  if i < stop then
    countChars bytes (i + 1) stop (if isContinuation (byteAt bytes i) then count else count + 1)
  else count
termination_by stop - i

/-- Whether a position is the start of a character or the end of the text. -/
def isBoundary (bytes : ByteArray) (i : Nat) : Bool :=
  i == bytes.size || (i < bytes.size && !isContinuation (byteAt bytes i))

/-- The line and column of an offset. An offset past the end counts as the end for the column, and
an offset inside a character has column one. -/
def lineColumn (table : LineTable) (bytes : ByteArray) (offset : Nat) : Nat × Nat :=
  -- Lines are counted from one and their starts from zero.
  let l := table.line offset
  let start := table.starts.getD (l - 1) 0
  let stop := min offset bytes.size
  if isBoundary bytes stop then (l, countChars bytes start stop 0 + 1) else (l, 1)

end LineTable

end UnusedMethods.Text
