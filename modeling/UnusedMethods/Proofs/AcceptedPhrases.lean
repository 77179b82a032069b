import UnusedMethods.Proofs.AcceptedTokens
import UnusedMethods.Proofs.TokensAhead

/-!
# Phrases at the front of a text

What a reader passes over is told by the tokens at the front of the text that it stands before, with
blanks around them. Lists and objects are told by what stands in their brackets, as far as it has
been read, and they are values once the brackets are closed.
-/

namespace UnusedMethods.Json

/-! ### Tokens at the front of a text -/

/-- Tokens at the front of a text, with blanks around them, and then the rest. -/
def Passes (tokens : List Token) (text rest : List Char) : Prop :=
  Spaced IsBlank (fun left => ∃ gap, IsBlank gap ∧ left = gap ++ rest) tokens text

/-- A phrase at the front of a text, and then the rest. -/
def Begins (kind : Kind) (text rest : List Char) : Prop :=
  ∃ tokens, Phrase kind tokens ∧ Passes tokens text rest

section

variable {tokens others : List Token} {gap text between rest : List Char} {kind : Kind}

theorem passes_gap (blank : IsBlank gap) (rest : List Char) : Passes [] (gap ++ rest) rest :=
  .nil ⟨gap, blank, rfl⟩

theorem passes_nil (text : List Char) : Passes [] text text :=
  .nil ⟨[], nofun, rfl⟩

theorem passes_token (token : Token) (rest : List Char) :
    Passes [token] (token.text ++ rest) rest := by
  have empty : IsBlank [] := nofun
  exact .cons empty (passes_nil rest)

theorem passes_mark (m : Mark) (rest : List Char) : Passes [.mark m] (m.char :: rest) rest :=
  passes_token (.mark m) rest

theorem Passes.after_gap (blank : IsBlank gap) (passes : Passes tokens text rest) :
    Passes tokens (gap ++ text) rest := by
  cases passes with
  | nil last =>
    obtain ⟨gap', blank', rfl⟩ := last
    rw [← List.append_assoc]
    exact passes_gap (List.forall_mem_append.mpr ⟨blank, blank'⟩) rest
  | cons before rest =>
    rw [← List.append_assoc]
    exact .cons (List.forall_mem_append.mpr ⟨blank, before⟩) rest

theorem Passes.append (passes : Passes tokens text between)
    (passes' : Passes others between rest) : Passes (tokens ++ others) text rest := by
  unfold Passes at passes
  induction passes with
  | nil last =>
    obtain ⟨gap, blank, rfl⟩ := last
    exact Passes.after_gap blank passes'
  | cons blank _ ih => exact .cons blank ih

theorem Begins.after_gap (blank : IsBlank gap) (begins : Begins kind text rest) :
    Begins kind (gap ++ text) rest := by
  obtain ⟨tokens, phrase, passes⟩ := begins
  exact ⟨tokens, phrase, passes.after_gap blank⟩

/-- Tokens with only blanks behind them are a whole text. -/
theorem Passes.spaced (passes : Passes tokens text rest) (blank : IsBlank rest) :
    Spaced IsBlank IsBlank tokens text := by
  refine Spaced.mono ?_ passes
  rintro _ ⟨gap, before, rfl⟩
  exact List.forall_mem_append.mpr ⟨before, blank⟩

/-- Each token has a character at least. -/
theorem Passes.length_le (passes : Passes tokens text rest) :
    rest.length + tokens.length ≤ text.length := by
  unfold Passes at passes
  induction passes with
  | nil last =>
    obtain ⟨gap, _, rfl⟩ := last
    rw [List.length_append, List.length_nil]
    omega
  | @cons token tokens before text _ _ ih =>
    have some_ : token.text ≠ [] := by
      intro empty
      have bytes := token.utf8_text
      rw [empty] at bytes
      cases bytes
    have long := List.length_pos_of_ne_nil some_
    simp only [List.length_append, List.length_cons]
    omega

theorem Begins.length_lt (begins : Begins kind text rest) : rest.length < text.length := by
  obtain ⟨tokens, phrase, passes⟩ := begins
  have long := List.length_pos_of_ne_nil phrase.joined.nonempty
  have shorter := passes.length_le
  omega

end

/-! ### Brackets -/

/-- The two kinds of brackets. -/
inductive Shape where
  | list
  | object

namespace Shape

def opening : Shape → Mark
  | list => .openList
  | object => .openObject

def closing : Shape → Mark
  | list => .closeList
  | object => .closeObject

/-- The byte of an opening bracket. -/
def byte : Shape → UInt8
  | list => 91
  | object => 123

/-- What stands in brackets that are not empty. -/
def kind : Shape → Kind
  | list => .elements
  | object => .members

/-- An element or a member, which is an element behind a key. -/
def Item : Shape → List Char → List Char → Prop
  | list, text, rest => Begins .value text rest
  | object, text, rest => ∃ key between, Passes [.literal key, .mark .colon] text between ∧
      Begins .value between rest

/-- What comes before the first item, or before another. -/
def separator (first : Bool) : List Token :=
  if first then [] else [.mark .comma]

/-- The items that are left in brackets, none or some, each with what comes before it. -/
def Inside (shape : Shape) (first : Bool) (text rest : List Char) : Prop :=
  Passes [] text rest ∨
    ∃ between, Passes (separator first) text between ∧ Begins shape.kind between rest

variable {shape : Shape} {first : Bool} {text between after rest : List Char}

/-- An item and those that are left after it. -/
theorem Item.begins (item : shape.Item text between) (inside : shape.Inside false between rest) :
    Begins shape.kind text rest := by
  cases shape with
  | list =>
    obtain ⟨tokens, value, passes⟩ := item
    rcases inside with ends | ⟨after, comma, others, phrase, passes'⟩
    · refine ⟨tokens, .lastElement value, ?_⟩
      have whole := passes.append ends
      rwa [List.append_nil] at whole
    · exact ⟨_, .element value phrase, passes.append (comma.append passes')⟩
  | object =>
    obtain ⟨key, start, keyed, tokens, value, passes⟩ := item
    rcases inside with ends | ⟨after, comma, others, phrase, passes'⟩
    · refine ⟨_, .lastMember key value, keyed.append ?_⟩
      have whole := passes.append ends
      rwa [List.append_nil] at whole
    · exact ⟨_, .member key value phrase, keyed.append (passes.append (comma.append passes'))⟩

theorem Inside.cons (shape : Shape) (separated : Passes (separator first) text between)
    (item : shape.Item between after) (inside : shape.Inside false after rest) :
    shape.Inside first text rest :=
  Or.inr ⟨between, separated, item.begins inside⟩

/-- Brackets and what stands in them are a value. -/
theorem Inside.value (opens : Passes [.mark shape.opening] text between)
    (inside : shape.Inside true between after) (closes : Passes [.mark shape.closing] after rest) :
    Begins .value text rest := by
  rcases inside with empty | ⟨start, ahead, tokens, phrase, passes⟩
  · refine ⟨_, ?_, opens.append (empty.append closes)⟩
    cases shape with
    | list => exact .emptyList
    | object => exact .emptyObject
  · refine ⟨_, ?_, opens.append (ahead.append (passes.append closes))⟩
    cases shape with
    | list => exact .list phrase
    | object => exact .object phrase

end Shape

/-! ### One run of a reader in a text -/

/-- If a reader succeeds before the characters of a text, it leaves others, as told. -/
abbrev Yields {α : Type} (reader : Reader α) (text : List Char)
    (result : α → List Char → Prop) : Prop :=
  Consumes reader (utf8 text) fun a ys => ∃ rest, ys = utf8 rest ∧ result a rest

section

variable {α β : Type} {reader : Reader α} {f : α → Reader β} {text : List Char}
variable {known known' : α → List Char → Prop} {result : β → List Char → Prop}

theorem Yields.bind (first : Yields reader text known)
    (next : ∀ a rest, known a rest → Yields (f a) rest result) :
    Yields (reader >>= f) text result := by
  refine Consumes.bind first ?_
  rintro a _ ⟨rest, rfl, holds⟩
  exact next a rest holds

theorem yields_pure {a : α} (holds : known a text) : Yields (pure a) text known :=
  consumes_pure ⟨text, rfl, holds⟩

theorem Yields.mono (yields : Yields reader text known)
    (weaker : ∀ a rest, known a rest → known' a rest) : Yields reader text known' := by
  refine Consumes.mono yields ?_
  rintro a _ ⟨rest, rfl, holds⟩
  exact ⟨rest, rfl, weaker a rest holds⟩

theorem Yields.closedBy {ending : Reader Unit} (yields : Yields reader text known)
    (ends : ∀ a rest, known a rest → Yields ending rest fun _ => known' a) :
    Yields (closedBy ending reader) text known' := by
  refine Consumes.closedBy yields ?_
  rintro a _ ⟨rest, rfl, holds⟩
  exact ends a rest holds

theorem Yields.skip {f : Unit → Reader β} {c : Char} (ascii : c.toNat < 128)
    (next : Yields (f ()) text result) : Yields (skip >>= f) (c :: text) result := by
  refine Consumes.skip ?_
  rw [utf8_cons_ascii ascii]
  exact next

theorem length_le_utf8 (text : List Char) : text.length ≤ (utf8 text).length := by
  induction text with
  | nil => exact Nat.zero_le _
  | cons c text ih =>
    have some_ := List.length_pos_of_ne_nil (String.utf8EncodeChar_ne_nil (c := c))
    rw [utf8, List.flatMap_cons, List.length_append, ← utf8, List.length_cons]
    omega

/-- The first byte of a text, where a reader has looked at it. -/
theorem head?_utf8 {b : UInt8} (ascii : b.toNat < 128) (first : (utf8 text).head? = some b) :
    ∃ rest, text = charOf b :: rest := by
  obtain ⟨ys, bytes⟩ := List.head?_eq_some_iff.mp first
  obtain ⟨rest, rfl, _⟩ := utf8_eq_cons ascii bytes
  exact ⟨rest, rfl⟩

/-- The blanks at the front of a text are the spaces at the front of its bytes. -/
theorem exists_gap (text : List Char) :
    ∃ gap rest, text = gap ++ rest ∧ IsBlank gap ∧
      (utf8 text).dropWhile isSpace = utf8 rest := by
  -- Blanks are single bytes in both directions, so neither scan can stop before the other.
  have each : ∀ b ∈ [32, 9, 10, 13], b.toNat < 128 ∧ charOf b ∈ [' ', '\t', '\n', '\r'] :=
    forall_mem_of_all (by decide)
  have known : ∀ c ∈ [' ', '\t', '\n', '\r'], c.toNat < 128 ∧ isSpace (byteOf c) = true :=
    forall_mem_of_all (by decide)
  induction text with
  | nil => exact ⟨[], [], rfl, nofun, rfl⟩
  | cons c text ih =>
    by_cases blank : c ∈ [' ', '\t', '\n', '\r']
    · obtain ⟨gap, rest, rfl, blanks, left⟩ := ih
      obtain ⟨ascii, space⟩ := known c blank
      refine ⟨c :: gap, rest, rfl, List.forall_mem_cons.mpr ⟨blank, blanks⟩, ?_⟩
      rw [utf8_cons_ascii ascii, List.dropWhile_cons_of_pos space, left]
    · refine ⟨[], c :: text, rfl, nofun, ?_⟩
      cases bytes : utf8 (c :: text) with
      | nil => rfl
      | cons b ys =>
        refine List.dropWhile_cons_of_neg fun space => blank ?_
        obtain ⟨ascii, isBlank⟩ := each b ((isSpace_iff b).mp space)
        obtain ⟨rest, same, _⟩ := utf8_eq_cons ascii bytes
        rwa [(List.cons_eq_cons.mp same).1]

theorem Yields.peekToken {f : Option UInt8 → Reader β}
    (next : ∀ gap rest, text = gap ++ rest → IsBlank gap →
      Yields (f (utf8 rest).head?) rest result) :
    Yields (peekToken >>= f) text result := by
  obtain ⟨gap, rest, rfl, blank, left⟩ := exists_gap text
  refine Consumes.peekToken ?_
  rw [left]
  exact next gap rest rfl blank

theorem Yields.needToken {f : UInt8 → Reader β}
    (next : ∀ gap rest b, text = gap ++ rest → IsBlank gap → (utf8 rest).head? = some b →
      Yields (f b) rest result) :
    Yields (needToken >>= f) text result := by
  rw [Json.needToken, bind_assoc]
  refine .peekToken ?_
  rintro gap rest whole blank
  cases first : (utf8 rest).head? with
  | none => exact (consumes_failNext _).bind fun _ _ => False.elim
  | some b =>
    rw [pure_bind]
    exact next gap rest b whole blank first

/-! ### Tokens -/

theorem yields_word {letters : String} (plain : ∀ c ∈ letters.toList, c.toNat < 128) :
    Yields (word (ascii letters)) text fun _ rest => text = letters.toList ++ rest := by
  refine (consumes_word (ascii letters)).mono ?_
  intro _ ys whole
  obtain ⟨rest, rfl, left⟩ := utf8_eq_append plain (whole.trans (by rw [utf8_ascii plain]; rfl))
  exact ⟨rest, left, rfl⟩

theorem yields_stringBody :
    Yields stringBody text fun _ rest => ∃ pieces, text = Token.literalRest pieces ++ rest := by
  refine (Consumes.sized fun n _ => consumes_stringRest (n + 1) "").mono ?_
  rintro _ ys ⟨bs, literal, whole⟩
  obtain ⟨pieces, rest, rfl, left⟩ := utf8_eq_literal literal whole
  exact ⟨rest, left, pieces, rfl⟩

theorem yields_skipString :
    Yields skipString text fun _ rest => ∃ pieces, text = Token.literalRest pieces ++ rest := by
  refine (Consumes.sized fun n _ => consumes_skipStringRest (n + 1)).mono ?_
  rintro _ ys ⟨bs, literal, whole⟩
  obtain ⟨pieces, rest, rfl, left⟩ := utf8_eq_literal literal whole
  exact ⟨rest, left, pieces, rfl⟩

theorem Numeral.ascii (n : Numeral) : ∀ c ∈ n.unsigned, c.toNat < 128 := by
  intro c member
  have inText : c ∈ n.text := by
    rw [Numeral.text]
    split
    · exact List.mem_cons_of_mem _ member
    · exact member
  have marks : ∀ c ∈ ['-', '+', '.', 'e', 'E'], c.toNat < 128 := forall_mem_of_all (by decide)
  rcases n.isDigit_or_of_mem inText with digit | mark
  · have range := toNat_of_isDigit digit
    omega
  · exact marks c mark

theorem yields_number (negative : Bool) :
    Yields (number negative) text fun _ rest =>
      ∃ n : Numeral, n.negative = negative ∧ text = n.unsigned ++ rest := by
  refine (consumes_number negative).mono ?_
  rintro _ ys ⟨n, sign, whole⟩
  obtain ⟨rest, rfl, left⟩ := utf8_eq_append n.ascii whole
  exact ⟨rest, left, n, sign, rfl⟩

theorem yields_skipNumber (negative : Bool) :
    Yields skipNumber text fun _ rest =>
      ∃ n : Numeral, n.negative = negative ∧ text = n.unsigned ++ rest := by
  refine (consumes_skipNumber negative).mono ?_
  rintro _ ys ⟨n, sign, whole⟩
  obtain ⟨rest, rfl, left⟩ := utf8_eq_append n.ascii whole
  exact ⟨rest, left, n, sign, rfl⟩

end

end UnusedMethods.Json
