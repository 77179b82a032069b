import UnusedMethods.Decimal.Double

/-!
# Shortest decimals

The decimal with the fewest digits that rounds to a given double, and among those the nearest to
it. Every real in the interval around a double rounds to it; the ends belong to the interval when
the significand is even. For each number of digits only the two neighbours of the value on that
decimal grid need to be tried.
-/

namespace UnusedMethods.Decimal

/-- `digits * 10 ^ exponent`. -/
structure Scientific where
  digits : Nat
  exponent : Int
deriving DecidableEq, Repr

namespace Double

/-- The interval of a double, in quarters of its last place: lower end, value, upper end. -/
def interval (m : Nat) (e : Int) : Nat × Nat × Nat :=
  -- Below a power of two doubles lie twice as dense.
  (if m == Nat.pow 2 52 && minExponent < e then 4 * m - 1 else 4 * m - 2, 4 * m, 4 * m + 2)

/-- The fraction `quarters * 2 ^ (e - 2)`. -/
def ofQuarters (quarters : Nat) (e : Int) : Nat × Nat :=
  if 2 ≤ e then (quarters * Nat.pow 2 (e - 2).toNat, 1) else (quarters, Nat.pow 2 (2 - e).toNat)

/-- The least `k` from `k` on with `num / den < 10 ^ k`, looking at most `n` steps further. -/
def decimalPlaces (num den : Nat) : Nat → Int → Int
  | 0, k => k
  | n + 1, k =>
    let below :=
      if 0 ≤ k then num < den * Nat.pow 10 k.toNat else num * Nat.pow 10 (-k).toNat < den
    if below then k else decimalPlaces num den n (k + 1)

/-- Whether `digits * 10 ^ g` lies in the interval of a double. -/
def accepts (m : Nat) (e : Int) (digits : Nat) (g : Int) : Bool :=
  let (lo, _, hi) := interval m e
  let closed := m % 2 == 0
  let (num, den) :=
    if 0 ≤ g then (digits * Nat.pow 10 g.toNat, 1) else (digits, Nat.pow 10 (-g).toNat)
  let (ln, ld) := ofQuarters lo e
  let (hn, hd) := ofQuarters hi e
  let above := if closed then ln * den ≤ num * ld else ln * den < num * ld
  let below := if closed then num * hd ≤ hn * den else num * hd < hn * den
  above && below

/-- The accepted neighbour of the value on the grid of multiples of `10 ^ g`, the nearer of two. -/
def onGrid (m : Nat) (e : Int) (g : Int) : Option Scientific :=
  let (num, den) := ofQuarters (4 * m) e
  let (n, d) :=
    if 0 ≤ g then (num, den * Nat.pow 10 g.toNat) else (num * Nat.pow 10 (-g).toNat, den)
  let low := n / d
  let lowOk := 0 < low && accepts m e low g
  let highOk := accepts m e (low + 1) g
  if lowOk && highOk then
    some (if 2 * (n % d) ≤ d then ⟨low, g⟩ else ⟨low + 1, g⟩)
  else if lowOk then some ⟨low, g⟩
  else if highOk then some ⟨low + 1, g⟩
  else none

/-- The first accepted decimal with `count` digits or more, at most `n` more. -/
def tryDigits (m : Nat) (e : Int) (places : Int) : Nat → Nat → Scientific
  | 0, count => ⟨m, (places - count)⟩
  | n + 1, count =>
    match onGrid m e (places - count) with
    | some s => s
    | none => tryDigits m e places n (count + 1)

/-- Write trailing zeros of the digits into the exponent. -/
def normalize (s : Scientific) : Nat → Scientific
  | 0 => s
  | n + 1 =>
    if s.digits != 0 && s.digits % 10 == 0 then normalize ⟨s.digits / 10, s.exponent + 1⟩ n else s

def shortest (m : Nat) (e : Int) : Scientific :=
  if m == 0 then ⟨0, 0⟩
  else
    -- Seventeen digits always suffice.
    let (num, den) := ofQuarters (4 * m) e
    normalize (tryDigits m e (decimalPlaces num den 700 (-330)) 18 1) 20

end Double

def digitText (n : Nat) : String :=
  String.ofList (Nat.toDigits 10 n)

def zeros (n : Nat) : String :=
  String.ofList (List.replicate n '0')

/-- The digits with a point so that `places` of them stand before it. -/
def withPoint (digits : String) (places : Nat) : String :=
  String.ofList (digits.toList.take places) ++ "." ++ String.ofList (digits.toList.drop places)

/-- A decimal written out in full: no exponent, and a point only before a fraction. -/
def Scientific.positional (s : Scientific) : String :=
  let digits := digitText s.digits
  let places := (digits.length : Int) + s.exponent
  if 0 ≤ s.exponent then digits ++ zeros s.exponent.toNat
  else if 0 < places then withPoint digits places.toNat
  else "0." ++ zeros (-places).toNat ++ digits

/-- The text of a double as a name: its shortest decimal written out in full. -/
def Double.positional : Double → String
  | .infinite => "inf"
  | .finite m e => (Double.shortest m e).positional

/-- An exponent with its sign and at least two digits. -/
def exponentText (exponent : Int) : String :=
  let digits := digitText exponent.natAbs
  (if exponent < 0 then "e-" else "e+") ++ (if digits.length < 2 then "0" else "") ++ digits

/-- A decimal with a point between its first two digits where it is long, and an exponent outside
the range from 1e-5 to 1e16. -/
def Scientific.compact (s : Scientific) : String :=
  let digits := digitText s.digits
  let places := (digits.length : Int) + s.exponent
  if s.digits == 0 then "0.0"
  else if 0 ≤ s.exponent && places ≤ 16 then digits ++ zeros s.exponent.toNat ++ ".0"
  else if 0 < places && places ≤ 16 then withPoint digits places.toNat
  else if -5 < places && places ≤ 0 then "0." ++ zeros (-places).toNat ++ digits
  else
    let mark := exponentText (places - 1)
    if digits.length == 1 then digits ++ mark else withPoint digits 1 ++ mark

end UnusedMethods.Decimal
