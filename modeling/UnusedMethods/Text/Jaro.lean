/-!
# Jaro similarity

How alike two texts are, from 0 to 1. A character of the first text is matched with the first equal
character of the second that is still free and not too far away. The similarity is the mean of the
matched shares of both texts and of the share of matches that stand in the same order.
-/

namespace UnusedMethods.Text

/-- A character that may have been matched. -/
structure Slot where
  char : Char
  taken : Bool

/-- Match a character with the first equal and free slot at a position from `lo` to `hi`; the slots
begin at position `at_`. -/
def takeSlot (lo hi : Nat) (c : Char) (at_ : Nat) : List Slot → Option (List Slot)
  | [] => none
  | slot :: rest =>
    if hi < at_ then none
    else if lo ≤ at_ && !slot.taken && slot.char == c then some (⟨slot.char, true⟩ :: rest)
    else (takeSlot lo hi c (at_ + 1) rest).map (slot :: ·)

/-- Match the characters of a text, the first of which is at position `at_`, with slots. The result
is the characters that found a slot, and the slots. -/
def takeSlots (range : Nat) (at_ : Nat) : List Char → List Slot → List Char × List Slot
  | [], slots => ([], slots)
  | c :: rest, slots =>
    match takeSlot (at_ - range) (at_ + range) c 0 slots with
    | none => takeSlots range (at_ + 1) rest slots
    | some slots =>
      let (matched, slots) := takeSlots range (at_ + 1) rest slots
      (c :: matched, slots)

def jaro (a b : String) : Float :=
  let (as, bs) := (a.toList, b.toList)
  if as.isEmpty && bs.isEmpty then 1
  else
    let range := max as.length bs.length / 2 - 1
    let (left, slots) := takeSlots range 0 as (bs.map (⟨·, false⟩))
    let right := (slots.filter (·.taken)).map (·.char)
    -- Each pair that is exchanged differs at two places.
    let swaps := ((left.zip right).countP fun (c, d) => c != d) / 2
    if left.isEmpty then 0
    else
      let share (n m : Nat) : Float := Float.ofNat n / Float.ofNat m
      (share left.length as.length + share left.length bs.length +
        share (left.length - swaps) left.length) / 3

end UnusedMethods.Text
