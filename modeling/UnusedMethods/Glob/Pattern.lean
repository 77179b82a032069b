/-!
# Glob patterns

The pieces that a glob is made of and the reading of its text. A star stays inside one segment of
a path; two stars that fill a segment cross segments. Braces hold alternatives and nest, brackets
hold character classes, and a backslash makes the next character stand for itself.
-/

namespace UnusedMethods.Glob

inductive Piece where
  /-- A character that stands for itself. -/
  | literal (c : Char)
  /-- `?`: one byte that is no separator. -/
  | any
  /-- `*`: bytes that are no separators. -/
  | star
  /-- `**/` at the start: any directories, or none. -/
  | leading
  /-- `/**` at the end: everything below. -/
  | trailing
  /-- `/**/` inside: one separator, or directories between two. -/
  | between
  /-- `[…]`: one byte in, or not in, the ranges. -/
  | charClass (negated : Bool) (ranges : List (Char × Char))
  /-- `{…}`: one of the alternatives. -/
  | alternatives (options : List (List Piece))

/-- What can be wrong with the text of a glob. -/
inductive Problem where
  | unclosedClass
  | invalidRange (lo hi : Char)
  | unopenedAlternatives
  | unclosedAlternatives
  | danglingEscape
deriving DecidableEq, Repr

def Problem.message : Problem → String
  | .unclosedClass => "unclosed character class; missing ']'"
  | .invalidRange lo hi => "invalid range; '" ++ lo.toString ++ "' > '" ++ hi.toString ++ "'"
  | .unopenedAlternatives =>
    "unopened alternate group; missing '\x7b' (maybe escape '\x7d' with '[\x7d]'?)"
  | .unclosedAlternatives =>
    "unclosed alternate group; missing '\x7d' (maybe escape '\x7b' with '[\x7b]'?)"
  | .danglingEscape => "dangling '\\'"

/-! ### Character classes -/

/-- A class read so far: its ranges, last first, and whether a range waits for its end. -/
structure ClassState where
  ranges : List (Char × Char)
  inRange : Bool
deriving Repr

/-- Add a character that is neither a closing bracket nor a dash with a meaning of its own. -/
def ClassState.add (s : ClassState) (c : Char) : Except Problem ClassState :=
  match s.inRange, s.ranges with
  | true, (lo, _) :: rest =>
    if c < lo then .error (.invalidRange lo c) else .ok ⟨(lo, c) :: rest, false⟩
  | _, ranges => .ok ⟨(c, c) :: ranges, false⟩

/-- Read a class after its opening bracket and sign. The first character never closes it. -/
def readClass (first : Bool) (s : ClassState) :
    List Char → Except Problem (List (Char × Char) × List Char)
  | [] => .error .unclosedClass
  | c :: rest =>
    if c == ']' && !first then
      -- A dash that waits for the end of a range stands for itself.
      .ok ((if s.inRange then ('-', '-') :: s.ranges else s.ranges).reverse, rest)
    else if c == '-' && !first && !s.inRange then readClass false { s with inRange := true } rest
    else match s.add c with
      | .error problem => .error problem
      | .ok s => readClass false s rest

theorem readClass_length {first : Bool} {s : ClassState} {cs rest : List Char}
    {ranges : List (Char × Char)} (h : readClass first s cs = .ok (ranges, rest)) :
    rest.length < cs.length := by
  fun_induction readClass first s cs with
  | case1 => simp at h
  | case2 => simp at h; simp [h]
  | case3 _ _ _ _ _ _ ih => have := ih h; simp; omega
  | case4 => simp at h
  | case5 _ _ _ _ _ _ _ _ ih => have := ih h; simp; omega

/-! ### The whole text -/

/-- The alternatives that are open while reading: for each brace, the finished options and the
pieces of the current one, both last first. The outermost level holds one option. -/
structure Level where
  finished : List (List Piece)
  current : List Piece

/-- What has been read: the innermost level, those around it, and the character before. -/
structure State where
  level : Level
  outer : List Level
  previous : Option Char

def State.push (s : State) (piece : Piece) : State :=
  { s with level := { s.level with current := piece :: s.level.current } }

def State.replaceLast (s : State) (f : Piece → Piece) : State :=
  match s.level.current with
  | [] => s
  | last :: rest => { s with level := { s.level with current := f last :: rest } }

/-- Two stars after a separator: they absorb the separator before them. -/
def absorb (atEnd : Bool) : Piece → Piece
  | .leading => .leading
  | .trailing => .trailing
  | _ => if atEnd then .trailing else .between

/-- Read two stars, given what precedes and follows them. Gives the new state and whether the
separator that follows is part of them. -/
def State.pushStars (s : State) (next : Option Char) : State × Bool :=
  let plain := (s.push .star).push .star
  if s.level.current.isEmpty then
    match next with
    | none => (s.push .leading, false)
    | some '/' => (s.push .leading, true)
    | some _ => (plain, false)
  else
    -- Within braces an option begins after the brace or a comma, as the text does at its start.
    let nested := !s.outer.isEmpty
    let opened := nested && (s.previous == some ',' || s.previous == some '\x7b')
    if s.previous != some '/' && !opened then (plain, false)
    else match next with
      | none => (s.replaceLast (absorb true), false)
      | some '/' => (s.replaceLast (absorb false), true)
      | some c =>
        if nested && (c == ',' || c == '\x7d') then (s.replaceLast (absorb true), false)
        else (plain, false)

/-- Read the text of a glob after what has been read. -/
def readFrom (s : State) : List Char → Except Problem (List Piece)
  | [] =>
    if s.outer.isEmpty then .ok s.level.current.reverse else .error .unclosedAlternatives
  | c :: rest =>
    let after := { s with previous := some c }
    if c == '?' then readFrom (after.push .any) rest
    else if c == '*' then
      match rest with
      | '*' :: tail =>
        match s.pushStars tail.head? with
        -- The separator that follows belongs to the stars.
        | (next, true) => readFrom { next with previous := some '/' } (tail.drop 1)
        | (next, false) => readFrom { next with previous := some '*' } tail
      | other => readFrom (after.push .star) other
    else if c == '[' then
      let negated := rest.head? == some '!' || rest.head? == some '^'
      let body := if negated then rest.drop 1 else rest
      match h : readClass true ⟨[], false⟩ body with
      | .error problem => .error problem
      | .ok (ranges, tail) =>
        have : tail.length < rest.length + 1 := by
          have shorter := readClass_length h
          have within : body.length ≤ rest.length := by
            simp only [body]
            split <;> simp
          omega
        readFrom ({ s with previous := some ']' }.push (.charClass negated ranges)) tail
    else if c == '\x7b' then
      readFrom ⟨⟨[], []⟩, s.level :: s.outer, some c⟩ rest
    else if c == '\x7d' then
      match s.outer with
      | [] => .error .unopenedAlternatives
      | level :: outer =>
        let options := (s.level.current.reverse :: s.level.finished).reverse
        readFrom (State.push ⟨level, outer, some c⟩ (.alternatives options)) rest
    -- Outside of braces a comma stands for itself.
    else if c == ',' && !s.outer.isEmpty then
      readFrom { after with level := ⟨s.level.current.reverse :: s.level.finished, []⟩ } rest
    else if c == '\\' then
      match rest with
      | [] => .error .danglingEscape
      | e :: tail => readFrom ({ s with previous := some e }.push (.literal e)) tail
    else readFrom (after.push (.literal c)) rest
termination_by cs => cs.length
decreasing_by all_goals simp_all <;> omega

def parse (text : String) : Except Problem (List Piece) :=
  readFrom ⟨⟨[], []⟩, [], none⟩ text.toList

end UnusedMethods.Glob
