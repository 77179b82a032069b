import UnusedMethods.Proofs.Decoration

/-!
# What a removal has left

If tokens with blanks between them are left of a text, the text has these tokens too, with what was
removed in its gaps. For commas that holds of every text. For comments it needs that no comment
stands inside a word or a number, whose parts come together when the comment goes.

Both removals are taken back character by character. What is left of a text starts with the first
character of a token, so this character was there before, and the others followed it.
-/

namespace UnusedMethods.Config

open Json

/-! ### Tokens with blanks between them -/

section

variable {gap last : List Char → Prop} {token : Token} {tokens : List Token} {text : List Char}

theorem isBlank_of_mem {c : Char} (blank : c ∈ [' ', '\t', '\n', '\r']) :
    Text.isBlank c = true := by
  have each : ∀ c ∈ [' ', '\t', '\n', '\r'], Text.isBlank c = true :=
    forall_mem_of_all (by decide)
  exact each c blank

/-- Blanks have no token. -/
theorem eq_nil_of_blank (spaced : Spaced IsBlank IsBlank tokens text) (blank : IsBlank text) :
    tokens = [] := by
  cases spaced with
  | nil => rfl
  | @cons token tokens before text _ _ =>
    obtain ⟨c, cs, first, notBlank, _⟩ := token_first token
    have inside : c ∈ before ++ (token.text ++ text) := by simp [first]
    rw [isBlank_of_mem (blank c inside)] at notBlank
    cases notBlank

/-- A blank at the front belongs to the first gap. -/
theorem spaced_of_blank_cons {c : Char} (blank : c ∈ [' ', '\t', '\n', '\r'])
    (spaced : Spaced IsBlank IsBlank tokens (c :: text)) :
    Spaced IsBlank IsBlank tokens text := by
  generalize whole : c :: text = chars at spaced
  cases spaced with
  | nil after =>
    subst whole
    exact .nil (List.forall_mem_cons.mp after).2
  | @cons token tokens before left after rest =>
    cases before with
    | nil =>
      obtain ⟨d, ds, first, notBlank, _⟩ := token_first token
      rw [first] at whole
      obtain ⟨rfl, _⟩ := List.cons_eq_cons.mp whole
      rw [isBlank_of_mem blank] at notBlank
      cases notBlank
    | cons d before =>
      obtain ⟨rfl, rfl⟩ := List.cons_eq_cons.mp whole
      exact .cons (List.forall_mem_cons.mp after).2 rest

theorem spaced_of_blank_append {blanks : List Char} (blank : IsBlank blanks)
    (spaced : Spaced IsBlank IsBlank tokens (blanks ++ text)) :
    Spaced IsBlank IsBlank tokens text := by
  induction blanks with
  | nil => exact spaced
  | cons c blanks ih =>
    obtain ⟨here, later⟩ := List.forall_mem_cons.mp blank
    exact ih later (spaced_of_blank_cons here spaced)

/-- What is no blank at the front starts the first token. -/
theorem spaced_of_cons {c : Char} (other : c ∉ [' ', '\t', '\n', '\r'])
    (spaced : Spaced IsBlank IsBlank tokens (c :: text)) :
    ∃ token others left, tokens = token :: others ∧ c :: text = token.text ++ left ∧
      Spaced IsBlank IsBlank others left := by
  generalize whole : c :: text = chars at spaced
  cases spaced with
  | nil after =>
    subst whole
    exact absurd (List.forall_mem_cons.mp after).1 other
  | @cons token tokens before left after rest =>
    cases before with
    | nil => exact ⟨token, tokens, left, rfl, rfl, rest⟩
    | cons d before =>
      obtain ⟨rfl, _⟩ := List.cons_eq_cons.mp whole
      exact absurd (List.forall_mem_cons.mp after).1 other

end

/-! ### Scans that keep literals -/

/-- The characters of words and numbers. -/
def isWordChar (c : Char) : Bool :=
  c.isAlphanum || c == '+' || c == '-' || c == '.'

theorem isWordChar_of_isBlank {c : Char} (blank : Text.isBlank c = true) :
    isWordChar c = false := by
  rw [← Bool.not_eq_true]
  intro word
  -- All characters of words lie between `+` and `z`, where there is no blank.
  have ranges : ((((65 ≤ c.toNat ∧ c.toNat ≤ 90 ∨ 97 ≤ c.toNat ∧ c.toNat ≤ 122) ∨
      48 ≤ c.toNat ∧ c.toNat ≤ 57) ∨ c = '+') ∨ c = '-') ∨ c = '.' := by
    have letters : c.isAlpha =
        (decide (65 ≤ c.val ∧ c.val ≤ 90) || (97 ≤ c.val && c.val ≤ 122)) := rfl
    simpa [isWordChar, Char.isAlphanum, letters, Char.isDigit, UInt32.le_iff_toNat_le] using word
  have range : 43 ≤ c.toNat ∧ c.toNat ≤ 122 := by
    rcases ranges with ((letter | rfl) | rfl) | rfl
    · omega
    · decide
    · decide
    · decide
  simp only [Text.isBlank, Bool.or_eq_true, Bool.and_eq_true, decide_eq_true_eq,
    beq_iff_eq] at blank
  omega

theorem isWordChar_of_number (n : Numeral) {c : Char} (member : c ∈ n.text) :
    isWordChar c = true := by
  have each : ∀ c ∈ ['-', '+', '.', 'e', 'E'], isWordChar c = true :=
    forall_mem_of_all (by decide)
  rcases n.isDigit_or_of_mem member with digit | other
  · simp [isWordChar, Char.isAlphanum, digit]
  · exact each c other

theorem isWordChar_of_word (w : Word) {c : Char} (member : c ∈ w.text) : isWordChar c = true := by
  have each : ∀ c ∈ w.text, isWordChar c = true := by
    cases w <;> exact forall_mem_of_all (by decide)
  exact each c member

/-- A scan that goes through literals in the way that both removals do and keeps them. -/
structure KeepsLiterals (scan : Mode → List Char → List Char) : Prop where
  atEnd : scan .literal [] = [] ∧ scan .escaped [] = []
  inLiteral : ∀ c rest, scan .literal (c :: rest) =
    c :: scan (if c == '\\' then .escaped else if c == '"' then .plain else .literal) rest
  afterBackslash : ∀ c rest, scan .escaped (c :: rest) = c :: scan .literal rest

namespace KeepsLiterals

variable {scan : Mode → List Char → List Char} {text rest : List Char}

/-- What is left inside a literal starts with the character with which the literal went on. -/
theorem exists_char (keeps : KeepsLiterals scan) {c : Char}
    (same : scan .literal text = c :: rest) :
    ∃ left, text = c :: left ∧
      scan (if c == '\\' then .escaped else if c == '"' then .plain else .literal) left = rest := by
  cases text with
  | nil =>
    rw [keeps.atEnd.1] at same
    cases same
  | cons d text =>
    rw [keeps.inLiteral] at same
    obtain ⟨rfl, left⟩ := List.cons_eq_cons.mp same
    exact ⟨text, rfl, left⟩

theorem exists_plain (keeps : KeepsLiterals scan) {c : Char} (notQuote : c ≠ '"')
    (notBackslash : c ≠ '\\') (same : scan .literal text = c :: rest) :
    ∃ left, text = c :: left ∧ scan .literal left = rest := by
  obtain ⟨left, whole, after⟩ := keeps.exists_char same
  rw [if_neg (by simpa using notBackslash), if_neg (by simpa using notQuote)] at after
  exact ⟨left, whole, after⟩

theorem exists_hexDigit (keeps : KeepsLiterals scan) {c : Char} (digit : isHexDigit c)
    (same : scan .literal text = c :: rest) :
    ∃ left, text = c :: left ∧ scan .literal left = rest := by
  refine keeps.exists_plain ?_ ?_ same
  · rintro rfl
    exact absurd digit (by decide)
  · rintro rfl
    exact absurd digit (by decide)

theorem exists_escape (keeps : KeepsLiterals scan) {c : Char}
    (same : scan .literal text = '\\' :: c :: rest) :
    ∃ left, text = '\\' :: c :: left ∧ scan .literal left = rest := by
  obtain ⟨left, rfl, after⟩ := keeps.exists_char same
  rw [if_pos (beq_self_eq_true _)] at after
  cases left with
  | nil =>
    rw [keeps.atEnd.2] at after
    cases after
  | cons d left =>
    rw [keeps.afterBackslash] at after
    obtain ⟨rfl, last⟩ := List.cons_eq_cons.mp after
    exact ⟨left, rfl, last⟩

/-- What is left of a literal was there. -/
theorem exists_literal (keeps : KeepsLiterals scan) (pieces : List Piece)
    (same : scan .literal text = Token.literalRest pieces ++ rest) :
    ∃ left, text = Token.literalRest pieces ++ left ∧ scan .plain left = rest := by
  induction pieces generalizing text with
  | nil => exact keeps.exists_char same
  | cons piece pieces ih =>
    rw [Token.literalRest_cons, List.append_assoc] at same
    rw [Token.literalRest_cons]
    cases piece with
    | plain c valid =>
      obtain ⟨left, rfl, after⟩ := keeps.exists_plain valid.1 valid.2.1 same
      obtain ⟨left, rfl, last⟩ := ih after
      exact ⟨left, by simp [Piece.text], last⟩
    | short c valid =>
      obtain ⟨left, rfl, after⟩ := keeps.exists_escape same
      obtain ⟨left, rfl, last⟩ := ih after
      exact ⟨left, by simp [Piece.text], last⟩
    | unicode a b c d valid =>
      obtain ⟨left, rfl, escape⟩ := keeps.exists_escape same
      obtain ⟨left, rfl, first⟩ := keeps.exists_hexDigit valid.1 escape
      obtain ⟨left, rfl, second⟩ := keeps.exists_hexDigit valid.2.1 first
      obtain ⟨left, rfl, third⟩ := keeps.exists_hexDigit valid.2.2.1 second
      obtain ⟨left, rfl, fourth⟩ := keeps.exists_hexDigit valid.2.2.2 third
      obtain ⟨left, rfl, last⟩ := ih fourth
      exact ⟨left, by simp [Piece.text], last⟩

/-- What is left of a token was there, if its first character was and, in a word or a number, the
others were. -/
theorem exists_token (keeps : KeepsLiterals scan) (token : Token) {c : Char}
    (kept : scan .plain (c :: text) = c :: scan (if c == '"' then .literal else .plain) text)
    (same : scan .plain (c :: text) = token.text ++ rest)
    (others : ∀ cs, (∀ d ∈ c :: cs, isWordChar d = true) → scan .plain text = cs ++ rest →
      ∃ left, text = cs ++ left ∧ scan .plain left = rest) :
    ∃ left, c :: text = token.text ++ left ∧ scan .plain left = rest := by
  rw [kept] at same
  have quote : isWordChar '"' = false := by decide
  -- Words and numbers alike: they are made of characters that no removal starts with.
  have inWord {cs : List Char} (some_ : cs ≠ []) (all : ∀ d ∈ cs, isWordChar d = true)
      (same : c :: scan (if c == '"' then .literal else .plain) text = cs ++ rest) :
      ∃ left, c :: text = cs ++ left ∧ scan .plain left = rest := by
    obtain ⟨d, ds, rfl⟩ := List.exists_cons_of_ne_nil some_
    obtain ⟨rfl, after⟩ := List.cons_eq_cons.mp same
    have notQuote : c ≠ '"' := by
      rintro rfl
      rw [all _ List.mem_cons_self] at quote
      cases quote
    rw [if_neg (by simpa using notQuote)] at after
    obtain ⟨left, rfl, last⟩ := others ds all after
    exact ⟨left, rfl, last⟩
  cases token with
  | mark m =>
    obtain ⟨rfl, after⟩ := List.cons_eq_cons.mp same
    rw [if_neg (by cases m <;> decide)] at after
    exact ⟨text, rfl, after⟩
  | literal pieces =>
    obtain ⟨rfl, after⟩ := List.cons_eq_cons.mp same
    obtain ⟨left, rfl, last⟩ := keeps.exists_literal pieces after
    exact ⟨left, rfl, last⟩
  | word w => exact inWord (by cases w <;> nofun) (fun _ => isWordChar_of_word w) same
  | number n =>
    obtain ⟨d, ds, first, _⟩ := token_first (.number n)
    have some_ : n.text ≠ [] := by
      intro empty
      rw [Token.text, empty] at first
      cases first
    exact inWord some_ (fun _ => isWordChar_of_number n) same

end KeepsLiterals

/-! ### Commas -/

theorem keepsLiterals_stripCommas : KeepsLiterals stripCommasFrom where
  atEnd := ⟨rfl, rfl⟩
  inLiteral := stripCommasFrom_literal_cons
  afterBackslash := stripCommasFrom_escaped_cons

/-- After a comma that was removed there is a blank or a closing bracket, which are not removed. -/
theorem not_wordChar_of_closesNext {text rest : List Char} {c : Char}
    (closes : closesNext text = true) (same : stripCommasFrom .plain text = c :: rest) :
    isWordChar c = false := by
  cases text with
  | nil => cases same
  | cons d text =>
    by_cases blank : Text.isBlank d = true
    · have notQuote : d ≠ '"' := by
        rintro rfl
        cases blank
      have notComma : d ≠ ',' := by
        rintro rfl
        cases blank
      rw [stripCommasFrom_plain_cons, if_neg (by simpa using notQuote),
        if_neg (by simp [notComma])] at same
      obtain ⟨rfl, _⟩ := List.cons_eq_cons.mp same
      exact isWordChar_of_isBlank blank
    · rw [closesNext, List.dropWhile_cons_of_neg blank] at closes
      have bracket : d = '\x7d' ∨ d = ']' := by simpa using closes
      rcases bracket with rfl | rfl
      · obtain ⟨rfl, _⟩ := List.cons_eq_cons.mp same
        decide
      · obtain ⟨rfl, _⟩ := List.cons_eq_cons.mp same
        decide

/-- The characters of a word or a number stood together. -/
theorem stripCommas_word {cs text rest : List Char} (word : ∀ c ∈ cs, isWordChar c = true)
    (same : stripCommasFrom .plain text = cs ++ rest) :
    ∃ left, text = cs ++ left ∧ stripCommasFrom .plain left = rest := by
  induction cs generalizing text with
  | nil => exact ⟨text, rfl, same⟩
  | cons c cs ih =>
    obtain ⟨here, later⟩ := List.forall_mem_cons.mp word
    cases text with
    | nil => cases same
    | cons d text =>
      rw [stripCommasFrom_plain_cons] at same
      split at same
      next quote =>
        obtain ⟨rfl, _⟩ := List.cons_eq_cons.mp same
        rw [beq_iff_eq.mp quote] at here
        exact absurd here (by decide)
      split at same
      next removed =>
        rw [not_wordChar_of_closesNext (Bool.and_eq_true_iff.mp removed).2 same] at here
        cases here
      next =>
        obtain ⟨rfl, after⟩ := List.cons_eq_cons.mp same
        obtain ⟨left, rfl, last⟩ := ih later after
        exact ⟨left, rfl, last⟩

/-- Tokens that are left after commas have been removed were there with these commas. -/
theorem exists_insertsCommas {tokens : List Token} {text : List Char}
    (spaced : Spaced IsBlank IsBlank tokens (stripCommas text)) :
    ∃ more, InsertsCommas tokens more ∧ Spaced IsBlank IsBlank more text := by
  unfold stripCommas at spaced
  -- A token is taken at once, so the induction is on the length and not on the text.
  induction n : text.length using Nat.strong_induction_on generalizing text tokens with
  | _ n ih =>
    subst n
    cases text with
    | nil =>
      obtain rfl := eq_nil_of_blank spaced nofun
      exact ⟨[], .nil, .nil nofun⟩
    | cons c text =>
      have shorter : text.length < (c :: text).length := Nat.lt_succ_self _
      by_cases removed : c = ',' ∧ closesNext text = true
      · obtain ⟨rfl, closes⟩ := removed
        rw [stripCommasFrom_comma, if_pos closes] at spaced
        obtain ⟨more, inserts, later⟩ := ih _ shorter spaced rfl
        rw [closesNext_spaced later] at closes
        have first := inserts.head?_eq closes
        cases more with
        | nil => cases closes
        | cons closing more =>
          obtain ⟨others, rfl⟩ := List.head?_eq_some_iff.mp first
          refine ⟨_, .insert (by simpa using closes) inserts, ?_⟩
          have empty : IsBlank [] := nofun
          exact .cons empty later
      -- The first character was not removed.
      have kept : stripCommasFrom .plain (c :: text) =
          c :: stripCommasFrom (if c == '"' then .literal else .plain) text := by
        rw [stripCommasFrom_plain_cons]
        split
        · rfl
        · rw [if_neg (by simpa using removed)]
      by_cases blank : c ∈ [' ', '\t', '\n', '\r']
      · have notQuote : c ≠ '"' := by
          rintro rfl
          exact absurd blank (by decide)
        rw [kept, if_neg (by simpa using notQuote)] at spaced
        obtain ⟨more, inserts, later⟩ := ih _ shorter (spaced_of_blank_cons blank spaced) rfl
        have single : IsBlank [c] := List.forall_mem_singleton.mpr blank
        exact ⟨more, inserts, blank_append single later⟩
      · rw [kept] at spaced
        obtain ⟨token, others, left, rfl, whole, rest⟩ := spaced_of_cons blank spaced
        rw [← kept] at whole
        obtain ⟨after, same, stripped⟩ := keepsLiterals_stripCommas.exists_token token kept whole
          fun cs word => stripCommas_word (List.forall_mem_cons.mp word).2
        rw [← stripped] at rest
        have fewer : after.length < (c :: text).length := by
          obtain ⟨d, ds, first, _⟩ := token_first token
          rw [same, first]
          simp only [List.length_append, List.length_cons]
          omega
        obtain ⟨more, inserts, later⟩ := ih _ fewer rest rfl
        refine ⟨token :: more, .keep token inserts, ?_⟩
        rw [same]
        have empty : IsBlank [] := nofun
        exact .cons empty later

end UnusedMethods.Config
