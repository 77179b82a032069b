import Mathlib.Data.List.Chain
import Mathlib.Tactic.Tauto

/-!
# The grammar of JSON

The tokens of JSON, the sequences of tokens that are values, and the texts that are written from a
sequence of tokens with gaps between them. Here nothing is read; what a reader makes of such texts
is said elsewhere.
-/

namespace UnusedMethods.Json

/-! ### Tokens -/

/-- The tokens of one character. -/
inductive Mark where
  | openList
  | closeList
  | openObject
  | closeObject
  | colon
  | comma
deriving DecidableEq

def Mark.char : Mark → Char
  | .openList => '['
  | .closeList => ']'
  | .openObject => '\x7b'
  | .closeObject => '\x7d'
  | .colon => ':'
  | .comma => ','

def isHexDigit (c : Char) : Bool :=
  c.isDigit || ('a' ≤ c && c ≤ 'f') || ('A' ≤ c && c ≤ 'F')

/-- A piece of a string literal: a character that stands for itself, or an escape. -/
inductive Piece where
  | plain (c : Char) (valid : c ≠ '"' ∧ c ≠ '\\' ∧ ' ' ≤ c)
  | short (c : Char) (valid : c ∈ ['"', '\\', '/', 'b', 'f', 'n', 'r', 't'])
  | unicode (a b c d : Char)
      (valid : isHexDigit a ∧ isHexDigit b ∧ isHexDigit c ∧ isHexDigit d)

def Piece.text : Piece → List Char
  | .plain c _ => [c]
  | .short c _ => ['\\', c]
  | .unicode a b c d _ => ['\\', 'u', a, b, c, d]

/-- One digit or more. -/
structure Digits where
  first : Char
  others : List Char
  valid : first.isDigit ∧ ∀ c ∈ others, c.isDigit

def Digits.text (digits : Digits) : List Char :=
  digits.first :: digits.others

/-- The exponent of a number. -/
structure Exponent where
  letter : Char
  sign : Option Char
  digits : Digits
  valid : letter ∈ ['e', 'E'] ∧ ∀ c ∈ sign, c ∈ ['+', '-']

def Exponent.text (exponent : Exponent) : List Char :=
  exponent.letter :: (exponent.sign.toList ++ exponent.digits.text)

/-- A number. A zero is not followed by other digits before the point. -/
structure Numeral where
  negative : Bool
  whole : Digits
  fraction : Option Digits
  exponent : Option Exponent
  valid : whole.first = '0' → whole.others = []

/-- A number without its sign. -/
def Numeral.unsigned (n : Numeral) : List Char :=
  n.whole.text ++ (n.fraction.elim [] ('.' :: ·.text) ++ n.exponent.elim [] Exponent.text)

def Numeral.text (n : Numeral) : List Char :=
  if n.negative then '-' :: n.unsigned else n.unsigned

/-- The words that are values. -/
inductive Word where
  | yes
  | no
  | null

def Word.text : Word → List Char
  | .yes => ['t', 'r', 'u', 'e']
  | .no => ['f', 'a', 'l', 's', 'e']
  | .null => ['n', 'u', 'l', 'l']

inductive Token where
  | mark (m : Mark)
  | literal (pieces : List Piece)
  | word (w : Word)
  | number (n : Numeral)

namespace Token

/-- A literal after its opening quote. -/
def literalRest (pieces : List Piece) : List Char :=
  pieces.flatMap Piece.text ++ ['"']

theorem literalRest_cons (piece : Piece) (pieces : List Piece) :
    literalRest (piece :: pieces) = piece.text ++ literalRest pieces := by
  rw [literalRest, List.flatMap_cons, List.append_assoc]
  rfl

def text : Token → List Char
  | .mark m => [m.char]
  | .literal pieces => '"' :: literalRest pieces
  | .word w => w.text
  | .number n => n.text

def isMark : Token → Bool
  | .mark _ => true
  | _ => false

def closes : Token → Bool
  | .mark .closeList | .mark .closeObject => true
  | _ => false

def opens : Token → Bool
  | .mark .openList | .mark .openObject => true
  | _ => false

end Token

/-! ### Characters of tokens -/

/-- What is checked for each member of a list. A search through all values of the type, which is how
such a statement may be decided too, does not end in time. -/
theorem forall_mem_of_all {α : Type} {p : α → Prop} [DecidablePred p] {xs : List α}
    (all : xs.all (fun x => decide (p x)) = true) : ∀ x ∈ xs, p x :=
  fun x member => of_decide_eq_true (List.all_eq_true.mp all x member)

theorem toNat_of_isDigit {c : Char} (digit : c.isDigit) : 48 ≤ c.toNat ∧ c.toNat ≤ 57 := by
  simpa [Char.isDigit, UInt32.le_iff_toNat_le] using digit

theorem Digits.isDigit_of_mem (digits : Digits) {c : Char} (member : c ∈ digits.text) :
    c.isDigit := by
  rcases List.mem_cons.mp member with rfl | other
  · exact digits.valid.1
  · exact digits.valid.2 c other

/-- A number is made of digits, signs, a point and a letter. -/
theorem Numeral.isDigit_or_of_mem (n : Numeral) {c : Char} (member : c ∈ n.text) :
    c.isDigit ∨ c ∈ ['-', '+', '.', 'e', 'E'] := by
  -- The sign apart, a number is its whole part, its fraction and its exponent in a row.
  have unsigned : c ∈ n.unsigned → c.isDigit ∨ c ∈ ['-', '+', '.', 'e', 'E'] := by
    intro member
    rcases List.mem_append.mp member with whole | member
    · exact Or.inl (n.whole.isDigit_of_mem whole)
    rcases List.mem_append.mp member with fraction | exponent
    · cases given : n.fraction with
      | none => simp [given] at fraction
      | some digits =>
        rw [given] at fraction
        rcases List.mem_cons.mp fraction with rfl | digit
        · exact Or.inr (by decide)
        · exact Or.inl (digits.isDigit_of_mem digit)
    · cases given : n.exponent with
      | none => simp [given] at exponent
      | some e =>
        rw [given] at exponent
        rcases List.mem_cons.mp exponent with rfl | member
        · have letter := e.valid.1
          simp only [List.mem_cons, List.not_mem_nil, or_false] at letter ⊢
          tauto
        rcases List.mem_append.mp member with sign | digit
        · have signed := e.valid.2 c (Option.mem_toList.mp sign)
          simp only [List.mem_cons, List.not_mem_nil, or_false] at signed ⊢
          tauto
        · exact Or.inl (e.digits.isDigit_of_mem digit)
  rw [text] at member
  split at member
  · rcases List.mem_cons.mp member with rfl | member
    · exact Or.inr (by decide)
    · exact unsigned member
  · exact unsigned member

/-! ### Values -/

/-- What a sequence of tokens is. -/
inductive Kind where
  | value
  | elements
  | members

/-- A value, the elements of a list that is not empty, or the members of such an object. -/
inductive Phrase : Kind → List Token → Prop
  | word (w : Word) : Phrase .value [.word w]
  | number (n : Numeral) : Phrase .value [.number n]
  | literal (pieces : List Piece) : Phrase .value [.literal pieces]
  | emptyList : Phrase .value [.mark .openList, .mark .closeList]
  | list {tokens : List Token} (inside : Phrase .elements tokens) :
      Phrase .value (.mark .openList :: (tokens ++ [.mark .closeList]))
  | emptyObject : Phrase .value [.mark .openObject, .mark .closeObject]
  | object {tokens : List Token} (inside : Phrase .members tokens) :
      Phrase .value (.mark .openObject :: (tokens ++ [.mark .closeObject]))
  | lastElement {tokens : List Token} (value : Phrase .value tokens) : Phrase .elements tokens
  | element {tokens others : List Token} (value : Phrase .value tokens)
      (rest : Phrase .elements others) : Phrase .elements (tokens ++ .mark .comma :: others)
  | lastMember (key : List Piece) {tokens : List Token} (value : Phrase .value tokens) :
      Phrase .members (.literal key :: .mark .colon :: tokens)
  | member (key : List Piece) {tokens others : List Token} (value : Phrase .value tokens)
      (rest : Phrase .members others) :
      Phrase .members (.literal key :: .mark .colon :: (tokens ++ .mark .comma :: others))

/-! ### Texts -/

/-- The characters that may stand between tokens. -/
def IsBlank (gap : List Char) : Prop :=
  ∀ c ∈ gap, c ∈ [' ', '\t', '\n', '\r']

/-- A text that is written from tokens, with a gap before each and one at the end. -/
inductive Spaced (gap last : List Char → Prop) : List Token → List Char → Prop
  | nil {text : List Char} (blank : last text) : Spaced gap last [] text
  | cons {token : Token} {tokens : List Token} {before text : List Char} (blank : gap before)
      (rest : Spaced gap last tokens text) :
      Spaced gap last (token :: tokens) (before ++ (token.text ++ text))

theorem Spaced.mono {gap last last' : List Char → Prop} {tokens : List Token} {text : List Char}
    (weaker : ∀ left, last left → last' left) (spaced : Spaced gap last tokens text) :
    Spaced gap last' tokens text := by
  induction spaced with
  | nil blank => exact .nil (weaker _ blank)
  | cons blank _ ih => exact .cons blank ih

/-- A text that is JSON. -/
def IsJson (text : String) : Prop :=
  ∃ tokens, Phrase .value tokens ∧ Spaced IsBlank IsBlank tokens text.toList

/-! ### Neighbours -/

/-- Tokens that may stand side by side: what is not a mark has a mark behind it, and a comma is not
followed by a closing bracket. -/
def Fits (token next : Token) : Prop :=
  (token.isMark = false → next.isMark = true) ∧ (token = .mark .comma → next.closes = false)

/-- Tokens that fit, with ends that fit what stands around a phrase. -/
structure Joined (tokens : List Token) : Prop where
  nonempty : tokens ≠ []
  first : ∀ token ∈ tokens.head?, token.closes = false
  last : ∀ token ∈ tokens.getLast?, token ≠ .mark .comma
  chain : tokens.IsChain Fits

namespace Joined

variable {tokens others : List Token}

theorem single {token : Token} (opens : token.closes = false) (ends : token ≠ .mark .comma) :
    Joined [token] where
  nonempty := List.cons_ne_nil _ _
  first := by simpa using opens
  last := by simpa using ends
  chain := .singleton _

theorem cons {token : Token} (opens : token.closes = false)
    (fits : ∀ next ∈ tokens.head?, Fits token next) (joined : Joined tokens) :
    Joined (token :: tokens) where
  nonempty := List.cons_ne_nil _ _
  first := by simpa using opens
  last := by
    rw [List.getLast?_cons_of_ne_nil joined.nonempty]
    exact joined.last
  chain := List.isChain_cons.mpr ⟨fits, joined.chain⟩

theorem append (joined : Joined tokens) (joined' : Joined others)
    (fits : ∀ token ∈ tokens.getLast?, ∀ next ∈ others.head?, Fits token next) :
    Joined (tokens ++ others) where
  nonempty := List.append_ne_nil_of_left_ne_nil joined.nonempty _
  first := by
    rw [List.head?_append_of_ne_nil _ joined.nonempty]
    exact joined.first
  last := by
    rw [List.getLast?_append_of_ne_nil _ joined'.nonempty]
    exact joined'.last
  chain := List.isChain_append.mpr ⟨joined.chain, joined'.chain, fits⟩

end Joined

/-- A mark that is no comma may have anything behind it. -/
theorem Fits.of_mark {m : Mark} (other : m ≠ .comma) (next : Token) : Fits (.mark m) next :=
  ⟨nofun, fun comma => absurd (Token.mark.inj comma) other⟩

/-- Behind a token there may be any mark, unless a comma would be followed by a bracket. -/
theorem Fits.mark_of_ne {token : Token} (other : token ≠ .mark .comma) (m : Mark) :
    Fits token (.mark m) :=
  ⟨fun _ => rfl, fun comma => absurd comma other⟩

/-- Tokens in brackets. -/
theorem Joined.bracket {tokens : List Token} {opening closing : Mark}
    (opens : (Token.mark opening).closes = false) (other : opening ≠ .comma ∧ closing ≠ .comma)
    (inside : tokens = [] ∨ Joined tokens) :
    Joined (.mark opening :: (tokens ++ [.mark closing])) where
  nonempty := List.cons_ne_nil _ _
  first := by simpa using opens
  last := by
    rw [← List.cons_append, List.getLast?_concat]
    rintro _ ⟨rfl⟩ comma
    exact other.2 (Token.mark.inj comma)
  chain := by
    refine List.isChain_cons.mpr ⟨fun next _ => .of_mark other.1 next, ?_⟩
    rcases inside with rfl | joined
    · exact .singleton _
    · refine List.isChain_append.mpr ⟨joined.chain, .singleton _, ?_⟩
      rintro token last _ ⟨rfl⟩
      exact .mark_of_ne (joined.last token last) closing

/-- Phrases with a comma between them. -/
theorem Joined.comma {tokens others : List Token} (joined : Joined tokens)
    (joined' : Joined others) : Joined (tokens ++ .mark .comma :: others) := by
  refine joined.append (joined'.cons rfl ?_) ?_
  · intro next first
    exact ⟨nofun, fun _ => joined'.first next first⟩
  · rintro token last _ ⟨rfl⟩
    exact .mark_of_ne (joined.last token last) .comma

/-- A value with a key before it. -/
theorem Joined.keyed {tokens : List Token} (key : List Piece) (joined : Joined tokens) :
    Joined (.literal key :: .mark .colon :: tokens) := by
  refine (joined.cons rfl ?_).cons rfl ?_
  · exact fun next _ => .of_mark (by decide) next
  · rintro _ ⟨rfl⟩
    exact .mark_of_ne (by nofun) .colon

/-- The tokens of a phrase fit. -/
theorem Phrase.joined {kind : Kind} {tokens : List Token} (phrase : Phrase kind tokens) :
    Joined tokens := by
  induction phrase with
  | word => exact .single rfl nofun
  | number => exact .single rfl nofun
  | literal => exact .single rfl nofun
  | emptyList => exact .bracket rfl (by decide) (Or.inl rfl)
  | list _ inside => exact .bracket rfl (by decide) (Or.inr inside)
  | emptyObject => exact .bracket rfl (by decide) (Or.inl rfl)
  | object _ inside => exact .bracket rfl (by decide) (Or.inr inside)
  | lastElement _ value => exact value
  | element _ _ value rest => exact value.comma rest
  | lastMember key _ value => exact value.keyed key
  | member key _ _ value rest => exact (value.comma rest).keyed key

end UnusedMethods.Json
