import Mathlib.Tactic.IntervalCases
import UnusedMethods.Proofs.NumberReaders

/-!
# Readers that see tokens only

A position is known by the tokens that are ahead, whatever blanks stand between them. The first byte
of a token tells what kind of token it is, so a reader that looks at it knows what comes, and a
token that comes at once is read to its end.

`SeesTokens` is what is shown of all readers of values: from any two positions with the same tokens
ahead they fail together, or they read the same value and leave the same tokens, at least one less.
-/

namespace UnusedMethods.Json

/-! ### Tokens ahead -/

/-- The bytes of tokens with blanks between them. -/
def Written (tokens : List Token) : Ahead :=
  fun xs => ∃ text, Spaced IsBlank IsBlank tokens text ∧ xs = utf8 text

/-- Tokens that fit. -/
def Spelled (tokens : List Token) : Ahead :=
  fun xs => tokens.IsChain Fits ∧ Written tokens xs

/-- Tokens that fit behind another. -/
def Behind (token : Token) (tokens : List Token) : Ahead :=
  fun xs => (token :: tokens).IsChain Fits ∧ Written tokens xs

/-- A token that comes at once, and others behind it. -/
def Started (token : Token) (tokens : List Token) : Ahead :=
  Then (utf8 token.text) (Behind token tokens)

theorem spelled_of_behind {token : Token} {tokens : List Token} (xs : List UInt8)
    (behind : Behind token tokens xs) : Spelled tokens xs :=
  ⟨behind.1.tail, behind.2⟩

theorem spelled_of_started {token : Token} {tokens : List Token} (xs : List UInt8)
    (started : Started token tokens xs) : Spelled (token :: tokens) xs := by
  obtain ⟨ys, rfl, fits, text, spaced, rfl⟩ := started
  refine ⟨fits, token.text ++ text, .cons (nofun : IsBlank []) spaced, ?_⟩
  rw [utf8_append]

theorem isSpace_iff (b : UInt8) : isSpace b = true ↔ b ∈ [32, 9, 10, 13] := by
  simp [isSpace, or_assoc]

namespace Token

/-- The first byte of a token. -/
def byte : Token → UInt8
  | .mark m => byteOf m.char
  | .literal _ => 34
  | .word .yes => 116
  | .word .no => 102
  | .word .null => 110
  | .number n => if n.negative then 45 else byteOf n.whole.first

/-- The other bytes of a token. -/
def others : Token → List UInt8
  | .mark _ => []
  | .literal pieces => literalBytes pieces
  | .word .yes => ascii "rue"
  | .word .no => ascii "alse"
  | .word .null => ascii "ull"
  | .number n => if n.negative then utf8 n.unsigned else (utf8 n.unsigned).tail

theorem utf8_text (token : Token) : utf8 token.text = token.byte :: token.others := by
  cases token with
  | mark m => cases m <;> rfl
  | literal pieces => exact utf8_cons_ascii (by decide) _
  | word w => cases w <;> decide
  | number n =>
    by_cases negative : n.negative = true
    · rw [text, Numeral.text, if_pos negative, byte, if_pos negative, others, if_pos negative,
        utf8_cons_ascii (by decide)]
      rfl
    · rw [text, Numeral.text, if_neg negative, byte, if_neg negative, others, if_neg negative,
        utf8_unsigned]
      rfl

theorem byte_number (n : Numeral) :
    (Token.number n).byte = 45 ∨ isDigit (Token.number n).byte = true := by
  rw [byte]
  split
  · exact Or.inl rfl
  · exact Or.inr (isDigit_byteOf n.whole.valid.1)

theorem byte_mem_digits {n : Numeral} (unsigned : n.negative = false) :
    (Token.number n).byte ∈ [48, 49, 50, 51, 52, 53, 54, 55, 56, 57] := by
  have range := toNat_of_isDigit n.whole.valid.1
  have known : (Token.number n).byte = byteOf n.whole.first := if_neg (by simp [unsigned])
  rw [known, byteOf]
  generalize n.whole.first.toNat = k at range ⊢
  obtain ⟨low, high⟩ := range
  interval_cases k <;> decide

theorem unsigned_of_digit {n : Numeral} (digit : isDigit (Token.number n).byte = true) :
    n.negative = false := by
  by_contra negative
  rw [show (Token.number n).byte = 45 from if_pos (by simpa using negative)] at digit
  cases digit

theorem negative_of_byte {n : Numeral} (minus : (Token.number n).byte = 45) :
    n.negative = true := by
  by_contra unsigned
  have digit := byte_mem_digits (n := n) (by simpa using unsigned)
  rw [minus] at digit
  exact absurd digit (by decide)

/-! The first byte tells the tokens apart. -/

theorem byte_number_ne {n : Numeral} {b : UInt8} (other : b ≠ 45 ∧ isDigit b = false) :
    (Token.number n).byte ≠ b := by
  rintro rfl
  rcases byte_number n with minus | digit
  · exact other.1 minus
  · rw [other.2] at digit
    cases digit

theorem eq_mark {token : Token} (m : Mark) (same : token.byte = byteOf m.char) :
    token = .mark m := by
  cases token with
  | mark m' => cases m <;> cases m' <;> first | rfl | exact absurd same (by decide)
  | literal pieces =>
    change (34 : UInt8) = _ at same
    cases m <;> exact absurd same (by decide)
  | word w => cases m <;> cases w <;> exact absurd same (by decide)
  | number n => exact absurd same (byte_number_ne (by cases m <;> decide))

theorem eq_word {token : Token} (w : Word) (same : token.byte = (Token.word w).byte) :
    token = .word w := by
  cases token with
  | mark m => cases m <;> cases w <;> exact absurd same (by decide)
  | literal pieces =>
    change (34 : UInt8) = _ at same
    cases w <;> exact absurd same (by decide)
  | word w' => cases w <;> cases w' <;> first | rfl | exact absurd same (by decide)
  | number n => exact absurd same (byte_number_ne (by cases w <;> decide))

theorem eq_literal {token : Token} (same : token.byte = 34) :
    ∃ pieces, token = .literal pieces := by
  cases token with
  | mark m => cases m <;> exact absurd same (by decide)
  | literal pieces => exact ⟨pieces, rfl⟩
  | word w => cases w <;> exact absurd same (by decide)
  | number n => exact absurd same (byte_number_ne (by decide))

theorem eq_number {token : Token} (known : token.byte = 45 ∨ isDigit token.byte = true) :
    ∃ n, token = .number n := by
  cases token with
  | mark m => cases m <;> exact absurd known (by decide)
  | literal pieces =>
    change (34 : UInt8) = 45 ∨ isDigit 34 = true at known
    exact absurd known (by decide)
  | word w => cases w <;> exact absurd known (by decide)
  | number n => exact ⟨n, rfl⟩

theorem isSpace_byte (token : Token) : isSpace token.byte = false := by
  cases token with
  | mark m => cases m <;> decide
  | literal pieces => rfl
  | word w => cases w <;> decide
  | number n =>
    have each : ∀ b ∈ [32, 9, 10, 13], ¬ (b = 45 ∨ isDigit b = true) :=
      forall_mem_of_all (by decide)
    rw [← Bool.not_eq_true, isSpace_iff]
    exact fun space => each _ space (byte_number n)

end Token

/-- Tokens have at least one byte each. -/
theorem length_le_of_spelled {tokens : List Token} {xs : List UInt8} (spelled : Spelled tokens xs) :
    tokens.length ≤ xs.length := by
  obtain ⟨-, text, spaced, rfl⟩ := spelled
  induction spaced with
  | nil => exact Nat.zero_le _
  | @cons token tokens before text _ _ ih =>
    rw [utf8_append, utf8_append, token.utf8_text]
    simp only [List.length_append, List.length_cons]
    omega

theorem isSpace_of_blank {gap : List Char} (blank : IsBlank gap) {b : UInt8}
    (member : b ∈ utf8 gap) : isSpace b = true := by
  have each : ∀ c ∈ [' ', '\t', '\n', '\r'], c.toNat < 128 ∧ isSpace (byteOf c) = true :=
    forall_mem_of_all (by decide)
  rw [utf8_ascii fun c inside => (each c (blank c inside)).1] at member
  obtain ⟨c, inside, rfl⟩ := List.mem_map.mp member
  exact (each c (blank c inside)).2

theorem started_eq (token : Token) (tokens : List Token) :
    Started token tokens = Then (token.byte :: token.others) (Behind token tokens) := by
  rw [Started, token.utf8_text]

theorem dropWhile_gap {gap : List Char} (blank : IsBlank gap) (xs : List UInt8) :
    (utf8 gap ++ xs).dropWhile isSpace = xs.dropWhile isSpace :=
  List.dropWhile_append_of_pos fun _ => isSpace_of_blank blank

/-- What is no mark has a blank, a mark or nothing behind it. -/
theorem ends_behind {token : Token} {tokens : List Token} (value : token.isMark = false) :
    Ends (Behind token tokens) := by
  -- A blank, wherever it comes from, is none of the bytes that a number goes on with.
  have space {b : UInt8} (space : isSpace b = true) : Looks false false (some b) := by
    have each : ∀ b ∈ [32, 9, 10, 13], (some b == some (46 : UInt8)) = false ∧
        (some b == some (101 : UInt8) || some b == some 69) = false ∧ isDigit b = false :=
      forall_mem_of_all (by decide)
    obtain ⟨point, letter, digit⟩ := each b ((isSpace_iff b).mp space)
    exact ⟨point, letter, digit⟩
  rintro _ ⟨fits, text, spaced, rfl⟩
  cases spaced with
  | nil blank =>
    cases first : utf8 text with
    | nil => exact ⟨rfl, rfl, rfl⟩
    | cons b xs => exact space (isSpace_of_blank blank (first ▸ List.mem_cons_self))
  | @cons next others before text blank spaced =>
    rw [utf8_append]
    cases first : utf8 before with
    | nil =>
      have mark := (List.isChain_cons_cons.mp fits).1.1 value
      cases next with
      | mark m => cases m <;> exact ⟨rfl, rfl, rfl⟩
      | literal | word | number => cases mark
    | cons b xs => exact space (isSpace_of_blank blank (first ▸ List.mem_cons_self))

section

variable {depth : Nat}

theorem reads_peekToken_nil : Reads peekToken depth (Spelled []) none (Spelled []) := by
  refine reads_peekToken ?_
  rintro _ ⟨fits, text, ⟨blank⟩, rfl⟩
  rw [← List.append_nil (utf8 text), dropWhile_gap blank]
  exact ⟨⟨fits, [], .nil nofun, rfl⟩, rfl⟩

theorem reads_peekToken_cons (token : Token) (tokens : List Token) :
    Reads peekToken depth (Spelled (token :: tokens)) (some token.byte) (Started token tokens) := by
  refine reads_peekToken ?_
  rintro _ ⟨fits, _, _ | ⟨blank, spaced⟩, rfl⟩
  have stays : ¬ isSpace token.byte = true := by
    rw [token.isSpace_byte]
    exact Bool.false_ne_true
  rw [utf8_append, utf8_append, dropWhile_gap blank, token.utf8_text, List.cons_append,
    List.dropWhile_cons_of_neg stays, started_eq]
  exact ⟨⟨_, rfl, fits, _, spaced, rfl⟩, rfl⟩

theorem reads_needToken_cons (token : Token) (tokens : List Token) :
    Reads needToken depth (Spelled (token :: tokens)) token.byte (Started token tokens) :=
  reads_needToken (reads_peekToken_cons token tokens)

theorem refuses_needToken_nil : Refuses needToken depth (Spelled []) :=
  refuses_needToken reads_peekToken_nil

theorem reads_skip_started (token : Token) (tokens : List Token) :
    Reads skip depth (Started token tokens) () (Then token.others (Behind token tokens)) := by
  rw [started_eq]
  exact reads_skip_then

/-- A mark is passed over. -/
theorem reads_skip_mark (m : Mark) (tokens : List Token) :
    Reads skip depth (Started (.mark m) tokens) () (Spelled tokens) := by
  refine (reads_skip_started _ tokens).mono (fun _ => id) ?_
  intro xs behind
  rw [show (Token.mark m).others = [] from rfl, then_nil] at behind
  exact spelled_of_behind xs behind

end

/-! ### Readers that see tokens only -/

/-- What is left is the tokens at the end, fewer than a number. -/
def Fewer {α : Type} (limit : Nat) : α → Ahead → Prop :=
  fun _ after => ∃ tokens, tokens.length < limit ∧ after = Spelled tokens

/-- A reader that goes over one token at least and does not see the blanks between them. -/
def SeesTokens {α : Type} (reader : Reader α) : Prop :=
  ∀ depth tokens, Settled reader depth (Spelled tokens) (Fewer tokens.length)

section

variable {α : Type} {reader reader' : Reader α} {depth : Nat} {ahead : Ahead}

theorem fewer_cons (token : Token) (tokens : List Token) (value : α) :
    Fewer (token :: tokens).length value (Spelled tokens) :=
  ⟨tokens, Nat.lt_succ_self _, rfl⟩

/-- A token that has been read to its end. -/
theorem Agree.token {token : Token} {tokens : List Token}
    (agree : Agree reader reader' depth ahead (Leaves (Behind token tokens))) :
    Agree reader reader' depth ahead (Leaves (Spelled tokens)) := by
  refine agree.mono (fun _ => id) ?_
  rintro value _ rfl
  exact ⟨_, rfl, spelled_of_behind⟩

theorem Agree.fewer {tokens : List Token} {limit : Nat} (less : tokens.length < limit)
    (agree : Agree reader reader' depth ahead (Leaves (Spelled tokens))) :
    Agree reader reader' depth ahead (Fewer limit) :=
  agree.mono (fun _ => id) fun _ after last => ⟨after, ⟨tokens, less, last⟩, fun _ => id⟩

theorem Agree.fewer_of_le {limit limit' : Nat} (le : limit ≤ limit')
    (agree : Agree reader reader' depth ahead (Fewer limit)) :
    Agree reader reader' depth ahead (Fewer limit') := by
  refine agree.mono (fun _ => id) ?_
  rintro value after ⟨tokens, fewer, last⟩
  exact ⟨after, ⟨tokens, by omega, last⟩, fun _ => id⟩

/-- Readers that keep what is read in some form. -/
theorem Agree.keeping {limit : Nat} (agree : Agree reader reader' depth ahead (Fewer limit))
    {β : Type} (keep : α → β) :
    Agree (do return keep (← reader)) (do return keep (← reader')) depth ahead (Fewer limit) :=
  agree.bind fun value _ known => (reads_pure (keep value)).settled known

/-- Readers that go from where the first token comes at once. -/
theorem Agree.started {token : Token} {tokens : List Token} {result : α → Ahead → Prop}
    (agree : Agree reader reader' depth (Spelled (token :: tokens)) result) :
    Agree reader reader' depth (Started token tokens) result :=
  agree.mono spelled_of_started fun _ after known => ⟨after, known, fun _ => id⟩

/-- Readers that look at the first token, if there is one. -/
theorem Agree.peekToken {f g : Option UInt8 → Reader α} {tokens : List Token}
    {result : α → Ahead → Prop}
    (atEnd : tokens = [] → Agree (f none) (g none) depth (Spelled []) result)
    (atToken : ∀ token others, tokens = token :: others →
      Agree (f (some token.byte)) (g (some token.byte)) depth (Started token others) result) :
    Agree (Json.peekToken >>= f) (Json.peekToken >>= g) depth (Spelled tokens) result := by
  cases tokens with
  | nil => exact .after reads_peekToken_nil (atEnd rfl)
  | cons token others => exact .after (reads_peekToken_cons token others) (atToken token others rfl)

/-- A reader that looks at the first token first. -/
theorem seesTokens_needToken {f : UInt8 → Reader α}
    (sees : ∀ depth token tokens,
      Settled (f token.byte) depth (Started token tokens) (Fewer (token :: tokens).length)) :
    SeesTokens (needToken >>= f) := by
  intro depth tokens
  cases tokens with
  | nil => exact refuses_needToken_nil.bind.settled
  | cons token tokens => exact .after (reads_needToken_cons token tokens) (sees depth token tokens)

theorem SeesTokens.placed (sees : SeesTokens reader) : SeesTokens (placed reader) :=
  fun depth tokens => (sees depth tokens).placed

theorem SeesTokens.keeping (sees : SeesTokens reader) {β : Type} (keep : α → β) :
    SeesTokens (do return keep (← reader)) :=
  fun depth tokens => (sees depth tokens).keeping keep

end


/-! ### Tokens that are read to their end -/

section

variable {α β : Type} {reader : Reader α} {f g : α → Reader β} {next next' : Reader β} {depth : Nat}
variable {tokens : List Token} {result : β → Ahead → Prop}

/-- What comes after a literal. -/
theorem Agree.literal {pieces : List Piece}
    (reads : ∀ rest, Settled reader depth (Then (literalBytes pieces) rest) (Leaves rest))
    (agree : ∀ a, Agree (f a) (g a) depth (Spelled tokens) result) :
    Agree (do skip; f (← reader)) (do skip; g (← reader)) depth (Started (.literal pieces) tokens)
      result := by
  refine .after (reads_skip_started _ tokens) ((reads _).token.bind ?_)
  rintro a _ rfl
  exact agree a

/-- What comes after a number, which is read from its sign on or without one. -/
theorem Agree.number {n : Numeral}
    (reads : ∀ rest, Ends rest →
      Settled reader depth (Then (utf8 n.unsigned) rest) (Leaves rest))
    (agree : ∀ a, Agree (f a) (g a) depth (Spelled tokens) result) :
    (n.negative = true → Agree (do skip; f (← reader)) (do skip; g (← reader)) depth
        (Started (.number n) tokens) result) ∧
      (n.negative = false → Agree (do f (← reader)) (do g (← reader)) depth
        (Started (.number n) tokens) result) := by
  have read := (reads (Behind (.number n) tokens) (ends_behind rfl)).token
  have next : ∀ a after, after = Spelled tokens → Agree (f a) (g a) depth after result := by
    rintro a _ rfl
    exact agree a
  constructor
  · intro negative
    refine .after (reads_skip_started _ tokens) (.bind ?_ next)
    rw [show (Token.number n).others = utf8 n.unsigned from if_pos negative]
    exact read
  · intro unsigned
    refine .bind ?_ next
    rw [Started, show (Token.number n).text = n.unsigned from if_neg (by simp [unsigned])]
    exact read

/-- What comes after a word. -/
theorem Agree.word {w : Word} {letters : List UInt8}
    (others : (Token.word w).others = letters)
    (agree : Agree next next' depth (Spelled tokens) result) :
    Agree (do skip; Json.word letters; next) (do skip; Json.word letters; next') depth
      (Started (.word w) tokens) result := by
  have rest : Reads (Json.word letters) depth
      (Then (Token.word w).others (Behind (.word w) tokens)) () (Spelled tokens) := by
    rw [others]
    exact (reads_word letters).mono (fun _ => id) spelled_of_behind
  exact .after (reads_skip_started _ tokens) (.after rest agree)

end

end UnusedMethods.Json
