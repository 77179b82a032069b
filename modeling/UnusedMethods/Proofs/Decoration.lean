import UnusedMethods.Config.Decorated
import UnusedMethods.Proofs.JsonGrammar

/-!
# Removing decoration

What decorated JSON is: comments in the gaps between tokens, and commas before closing brackets.
Removing the comments leaves tokens with blank gaps between them, and removing the commas then
leaves the tokens of the JSON that was decorated. JSON without decoration stays as it is.

Both removals pass over a text character by character. So it is said for each what it does with a
token or a gap that comes first, whatever follows, and the texts are taken apart token by token.
-/

namespace UnusedMethods.Config

open Json

/-! ### Decoration -/

/-- Blanks and comments. A comment between slashes and stars ends at the first star and slash. -/
inductive IsGap : List Char → Prop
  | nil : IsGap []
  | blank {c : Char} {gap : List Char} (blank : c ∈ [' ', '\t', '\n', '\r']) (rest : IsGap gap) :
      IsGap (c :: gap)
  | line {body gap : List Char} (ends : '\n' ∉ body) (rest : IsGap gap) :
      IsGap ('/' :: '/' :: (body ++ '\n' :: gap))
  | block {body gap : List Char} (ends : ¬ ['*', '/'] <:+: body) (rest : IsGap gap) :
      IsGap ('/' :: '*' :: (body ++ '*' :: '/' :: gap))

/-- Blanks and comments at the end of a text, which may end the last comment. -/
def IsLastGap (gap : List Char) : Prop :=
  IsGap gap ∨ ∃ front body, gap = front ++ '/' :: '/' :: body ∧ IsGap front ∧ '\n' ∉ body

/-- Tokens to which commas are added, at most one behind what comes last in a pair of brackets. -/
inductive AddsCommas : List Token → List Token → Prop
  | nil : AddsCommas [] []
  | keep (token : Token) {tokens more : List Token} (rest : AddsCommas tokens more) :
      AddsCommas (token :: tokens) (token :: more)
  | add {token closing : Token} {tokens more : List Token} (inside : token.opens = false)
      (closes : closing.closes = true) (rest : AddsCommas (closing :: tokens) (closing :: more)) :
      AddsCommas (token :: closing :: tokens) (token :: .mark .comma :: closing :: more)

/-- A text that has the tokens of a JSON text, but for commas that are added, and comments between
them. -/
def Decorates (text json : String) : Prop :=
  ∃ tokens more, Phrase .value tokens ∧ Spaced IsBlank IsBlank tokens json.toList ∧
    AddsCommas tokens more ∧ Spaced IsGap IsLastGap more text.toList

/-! ### What comes first in a token -/

theorem number_plain (n : Numeral) {c : Char} (member : c ∈ n.text) :
    c ≠ '/' ∧ c ≠ '"' ∧ c ≠ ',' := by
  rcases n.isDigit_or_of_mem member with digit | other
  · refine ⟨?_, ?_, ?_⟩ <;> rintro rfl <;> cases digit
  · refine ⟨?_, ?_, ?_⟩ <;> rintro rfl <;> exact absurd other (by decide)

theorem word_plain (w : Word) {c : Char} (member : c ∈ w.text) : c ≠ '/' ∧ c ≠ '"' ∧ c ≠ ',' := by
  have each : ∀ c ∈ w.text, c ≠ '/' ∧ c ≠ '"' ∧ c ≠ ',' := by
    cases w <;> exact forall_mem_of_all (by decide)
  exact each c member

/-- A scan that goes through literals in the way that both removals do comes out behind their
closing quotes. Each character is kept in some form. -/
theorem passes_literal {β : Type} (scan : Mode → List Char → List β) (keep : Char → β)
    (inLiteral : ∀ c rest, scan .literal (c :: rest) =
      keep c :: scan (if c == '\\' then .escaped else if c == '"' then .plain else .literal) rest)
    (afterBackslash : ∀ c rest, scan .escaped (c :: rest) = keep c :: scan .literal rest)
    (pieces : List Piece) (rest : List Char) :
    scan .literal (Token.literalRest pieces ++ rest) =
      (Token.literalRest pieces).map keep ++ scan .plain rest := by
  have plain {c : Char} {rest : List Char} (notQuote : c ≠ '"') (notBackslash : c ≠ '\\') :
      scan .literal (c :: rest) = keep c :: scan .literal rest := by
    rw [inLiteral, if_neg (by simpa using notBackslash), if_neg (by simpa using notQuote)]
  have hex {c : Char} {rest : List Char} (digit : isHexDigit c) :
      scan .literal (c :: rest) = keep c :: scan .literal rest := by
    refine plain ?_ ?_ <;> rintro rfl <;> exact absurd digit (by decide)
  have backslash {c : Char} {rest : List Char} :
      scan .literal ('\\' :: c :: rest) = keep '\\' :: keep c :: scan .literal rest := by
    rw [inLiteral, if_pos (beq_self_eq_true _), afterBackslash]
  induction pieces with
  | nil =>
    rw [Token.literalRest, List.flatMap_nil, List.nil_append, List.singleton_append, inLiteral]
    rfl
  | cons piece pieces ih =>
    rw [Token.literalRest_cons, List.append_assoc, List.map_append, List.append_assoc]
    cases piece with
    | plain c valid =>
      rw [Piece.text, List.singleton_append, plain valid.1 valid.2.1, ih]
      rfl
    | short c valid =>
      rw [Piece.text, List.cons_append, List.singleton_append, backslash, ih]
      rfl
    | unicode a b c d valid =>
      simp only [Piece.text, List.cons_append, List.nil_append]
      rw [backslash, hex valid.1, hex valid.2.1, hex valid.2.2.1, hex valid.2.2.2, ih]
      rfl

/-- A scan that leaves a comment at the end of its line. -/
theorem passes_lineComment {β : Type} (scan : Mode → List Char → List β) (ending : List β)
    (newline : ∀ rest, scan .lineComment ('\n' :: rest) = ending ++ scan .plain rest)
    (others : ∀ c rest, c ≠ '\n' → scan .lineComment (c :: rest) = scan .lineComment rest)
    {body : List Char} (ends : '\n' ∉ body) (rest : List Char) :
    scan .lineComment (body ++ '\n' :: rest) = ending ++ scan .plain rest := by
  induction body with
  | nil => exact newline rest
  | cons c body ih =>
    rw [List.mem_cons, not_or] at ends
    rw [List.cons_append, others c _ (Ne.symm ends.1), ih ends.2]

/-- A scan that leaves a comment at the first star and slash stays in it before them. -/
theorem passes_blockBody {β : Type} (scan : Mode → List Char → List β) (ending : List β)
    (step : ∀ star c rest, scan (.blockComment star) (c :: rest) =
      if star && c == '/' then ending ++ scan .plain rest
      else scan (.blockComment (c == '*')) rest)
    {body : List Char} (ends : ¬ ['*', '/'] <:+: body) :
    ∃ star, ∀ rest, scan (.blockComment false) (body ++ rest) =
      scan (.blockComment star) rest := by
  -- The body goes on after a star that came last, which must not have a slash behind it.
  have after (star : Bool) (open_ : star = true → body.head? ≠ some '/') :
      ∃ last, ∀ rest, scan (.blockComment star) (body ++ rest) =
        scan (.blockComment last) rest := by
    induction body generalizing star with
    | nil => exact ⟨star, fun _ => rfl⟩
    | cons c body ih =>
      have notHere : ¬ (star && c == '/') = true := by
        intro both
        rw [Bool.and_eq_true, beq_iff_eq] at both
        exact open_ both.1 (by rw [both.2]; rfl)
      have apart : (c == '*') = true → body.head? ≠ some '/' := by
        intro star_ slash
        obtain ⟨tail, rfl⟩ := List.head?_eq_some_iff.mp slash
        rw [beq_iff_eq] at star_
        exact ends ⟨[], tail, by rw [star_]; rfl⟩
      obtain ⟨last, passes⟩ :=
        ih (fun infix_ => ends (infix_.trans (List.suffix_cons c body).isInfix)) _ apart
      refine ⟨last, fun rest => ?_⟩
      rw [List.cons_append, step, if_neg notHere, passes]
  exact after false nofun

theorem passes_blockComment {β : Type} (scan : Mode → List Char → List β) (ending : List β)
    (step : ∀ star c rest, scan (.blockComment star) (c :: rest) =
      if star && c == '/' then ending ++ scan .plain rest
      else scan (.blockComment (c == '*')) rest)
    {body : List Char} (ends : ¬ ['*', '/'] <:+: body) (rest : List Char) :
    scan (.blockComment false) (body ++ '*' :: '/' :: rest) = ending ++ scan .plain rest := by
  obtain ⟨star, passes⟩ := passes_blockBody scan ending step ends
  rw [passes, step, if_neg (by simp), step, if_pos (by simp)]

/-! ### Comments -/

theorem stripFrom_nil (mode : Mode) : stripFrom mode [] = [] := by
  cases mode <;> rfl

theorem stripFrom_slashes (rest : List Char) :
    stripFrom .plain ('/' :: '/' :: rest) = stripFrom .lineComment rest :=
  rfl

theorem stripFrom_slashStar (rest : List Char) :
    stripFrom .plain ('/' :: '*' :: rest) = stripFrom (.blockComment false) rest :=
  rfl

/-- In literals and comments one character is passed at a time. -/
theorem stripFrom_cons (c : Char) (rest : List Char) :
    (stripFrom .literal (c :: rest) = c :: stripFrom
      (if c == '\\' then .escaped else if c == '"' then .plain else .literal) rest) ∧
    stripFrom .escaped (c :: rest) = c :: stripFrom .literal rest ∧
    (stripFrom .lineComment (c :: rest) =
      if c == '\n' then c :: stripFrom .plain rest else stripFrom .lineComment rest) ∧
    ∀ star, stripFrom (.blockComment star) (c :: rest) =
      if star && c == '/' then stripFrom .plain rest
      else stripFrom (.blockComment (c == '*')) rest := by
  refine ⟨?_, ?_, ?_, fun star => ?_⟩ <;> rw [stripFrom]

theorem stripFrom_lineComment_cons (c : Char) (rest : List Char) :
    stripFrom .lineComment (c :: rest) =
      if c == '\n' then c :: stripFrom .plain rest else stripFrom .lineComment rest :=
  (stripFrom_cons c rest).2.2.1

theorem stripFrom_blockComment_cons (star : Bool) (c : Char) (rest : List Char) :
    stripFrom (.blockComment star) (c :: rest) =
      if star && c == '/' then stripFrom .plain rest
      else stripFrom (.blockComment (c == '*')) rest :=
  (stripFrom_cons c rest).2.2.2 star

theorem stripFrom_plain_cons {c : Char} (other : c ≠ '/') (rest : List Char) :
    stripFrom .plain (c :: rest) = c :: stripFrom (if c == '"' then .literal else .plain) rest := by
  rw [stripFrom]
  · rintro _ rfl
    exact absurd rfl other
  · rintro _ rfl
    exact absurd rfl other

/-- Characters that start neither a comment nor a literal stay. -/
theorem stripFrom_plain {cs : List Char} (plain : ∀ c ∈ cs, c ≠ '/' ∧ c ≠ '"') (rest : List Char) :
    stripFrom .plain (cs ++ rest) = cs ++ stripFrom .plain rest := by
  induction cs with
  | nil => rfl
  | cons c cs ih =>
    obtain ⟨here, later⟩ := List.forall_mem_cons.mp plain
    rw [List.cons_append, stripFrom_plain_cons here.1, if_neg (by simpa using here.2), ih later]
    rfl

theorem blank_plain {gap : List Char} (blank : IsBlank gap) {c : Char} (member : c ∈ gap) :
    c ≠ '/' ∧ c ≠ '"' ∧ c ≠ ',' := by
  have known := blank c member
  refine ⟨?_, ?_, ?_⟩ <;> rintro rfl <;> exact absurd known (by decide)

theorem stripFrom_blank {gap : List Char} (blank : IsBlank gap) (rest : List Char) :
    stripFrom .plain (gap ++ rest) = gap ++ stripFrom .plain rest :=
  stripFrom_plain (fun _ => And.imp_right And.left ∘ blank_plain blank) rest

/-- A token stays. -/
theorem stripFrom_token (token : Token) (rest : List Char) :
    stripFrom .plain (token.text ++ rest) = token.text ++ stripFrom .plain rest := by
  cases token with
  | mark m =>
    refine stripFrom_plain ?_ rest
    cases m <;> exact forall_mem_of_all (by decide)
  | literal pieces =>
    rw [Token.text, List.cons_append, stripFrom_plain_cons (by decide), if_pos (beq_self_eq_true _),
      passes_literal stripFrom id (fun c rest => (stripFrom_cons c rest).1)
        (fun c rest => (stripFrom_cons c rest).2.1), List.map_id]
    rfl
  | word w => exact stripFrom_plain (fun _ => And.imp_right And.left ∘ word_plain w) rest
  | number n => exact stripFrom_plain (fun _ => And.imp_right And.left ∘ number_plain n) rest

theorem stripFrom_lineComment {body : List Char} (ends : '\n' ∉ body) (rest : List Char) :
    stripFrom .lineComment (body ++ '\n' :: rest) = '\n' :: stripFrom .plain rest := by
  refine passes_lineComment stripFrom ['\n'] (fun _ => ?_) (fun c _ other => ?_) ends rest
  · rw [stripFrom_lineComment_cons, if_pos (beq_self_eq_true _)]
    rfl
  · rw [stripFrom_lineComment_cons, if_neg (by simpa using other)]

theorem stripFrom_lineComment_end {body : List Char} (ends : '\n' ∉ body) :
    stripFrom .lineComment body = [] := by
  induction body with
  | nil => exact stripFrom_nil _
  | cons c body ih =>
    rw [List.mem_cons, not_or] at ends
    rw [stripFrom_lineComment_cons, if_neg (by simpa using Ne.symm ends.1), ih ends.2]

theorem stripFrom_blockComment {body : List Char} (ends : ¬ ['*', '/'] <:+: body)
    (rest : List Char) :
    stripFrom (.blockComment false) (body ++ '*' :: '/' :: rest) = stripFrom .plain rest :=
  passes_blockComment stripFrom [] stripFrom_blockComment_cons ends rest

/-- Of a gap blanks are left. -/
theorem stripFrom_gap {gap : List Char} (isGap : IsGap gap) :
    ∃ bare, IsBlank bare ∧
      ∀ rest, stripFrom .plain (gap ++ rest) = bare ++ stripFrom .plain rest := by
  induction isGap with
  | nil => exact ⟨[], nofun, fun _ => rfl⟩
  | @blank c gap blank _ ih =>
    obtain ⟨bare, bareBlank, left⟩ := ih
    refine ⟨c :: bare, List.forall_mem_cons.mpr ⟨blank, bareBlank⟩, ?_⟩
    intro rest
    have single : IsBlank [c] := List.forall_mem_singleton.mpr blank
    rw [List.cons_append, ← List.singleton_append, stripFrom_blank single, left]
    rfl
  | @line body gap ends _ ih =>
    obtain ⟨bare, bareBlank, left⟩ := ih
    refine ⟨'\n' :: bare, List.forall_mem_cons.mpr ⟨by decide, bareBlank⟩, ?_⟩
    intro rest
    simp only [List.cons_append, List.append_assoc]
    rw [stripFrom_slashes, stripFrom_lineComment ends, left]
  | @block body gap ends _ ih =>
    obtain ⟨bare, bareBlank, left⟩ := ih
    refine ⟨bare, bareBlank, ?_⟩
    intro rest
    simp only [List.cons_append, List.append_assoc]
    rw [stripFrom_slashStar, stripFrom_blockComment ends, left]

theorem stripFrom_lastGap {gap : List Char} (isGap : IsLastGap gap) :
    IsBlank (stripFrom .plain gap) := by
  rcases isGap with isGap | ⟨front, body, rfl, isGap, ends⟩
  · obtain ⟨bare, blank, left⟩ := stripFrom_gap isGap
    have all := left []
    rw [List.append_nil, stripFrom_nil, List.append_nil] at all
    rwa [all]
  · obtain ⟨bare, blank, left⟩ := stripFrom_gap isGap
    rw [left, stripFrom_slashes, stripFrom_lineComment_end ends, List.append_nil]
    exact blank

/-- Without comments the tokens are left, with blanks between them. -/
theorem stripComments_spaced {tokens : List Token} {text : List Char}
    (spaced : Spaced IsGap IsLastGap tokens text) :
    Spaced IsBlank IsBlank tokens (stripComments text) := by
  unfold stripComments
  induction spaced with
  | nil blank => exact .nil (stripFrom_lastGap blank)
  | cons blank _ ih =>
    obtain ⟨bare, bareBlank, left⟩ := stripFrom_gap blank
    rw [left, stripFrom_token]
    exact .cons bareBlank ih

theorem stripComments_eq_self {tokens : List Token} {text : List Char}
    (spaced : Spaced IsBlank IsBlank tokens text) : stripComments text = text := by
  unfold stripComments
  induction spaced with
  | @nil text blank =>
    have all := stripFrom_blank blank []
    rwa [List.append_nil, stripFrom_nil, List.append_nil] at all
  | cons blank _ ih => rw [stripFrom_blank blank, stripFrom_token, ih]

/-! ### Commas -/

theorem stripCommasFrom_nil (mode : Mode) : stripCommasFrom mode [] = [] := by
  cases mode <;> rfl

theorem stripCommasFrom_plain_cons (c : Char) (rest : List Char) :
    stripCommasFrom .plain (c :: rest) =
      if c == '"' then c :: stripCommasFrom .literal rest
      else if c == ',' && closesNext rest then stripCommasFrom .plain rest
      else c :: stripCommasFrom .plain rest :=
  rfl

theorem stripCommasFrom_literal_cons (c : Char) (rest : List Char) :
    stripCommasFrom .literal (c :: rest) =
      c :: stripCommasFrom
        (if c == '\\' then .escaped else if c == '"' then .plain else .literal) rest :=
  rfl

theorem stripCommasFrom_escaped_cons (c : Char) (rest : List Char) :
    stripCommasFrom .escaped (c :: rest) = c :: stripCommasFrom .literal rest :=
  rfl

/-- The first character of a token is no blank, and a closing bracket only if the token is one. -/
theorem token_first (token : Token) :
    ∃ c cs, token.text = c :: cs ∧ Text.isBlank c = false ∧
      (c == '\x7d' || c == ']') = token.closes := by
  have digit {c : Char} (isDigit : c.isDigit) :
      Text.isBlank c = false ∧ (c == '\x7d' || c == ']') = false := by
    have range := toNat_of_isDigit isDigit
    constructor
    · simp only [Text.isBlank, Bool.or_eq_false_iff, Bool.and_eq_false_iff, decide_eq_false_iff_not,
        beq_eq_false_iff_ne]
      omega
    · rw [Bool.or_eq_false_iff, beq_eq_false_iff_ne, beq_eq_false_iff_ne]
      constructor <;> rintro rfl <;> exact absurd range (by decide)
  cases token with
  | mark m => cases m <;> exact ⟨_, [], rfl, by decide, by decide⟩
  | literal pieces => exact ⟨_, _, rfl, by decide, rfl⟩
  | word w => cases w <;> exact ⟨_, _, rfl, by decide, by decide⟩
  | number n =>
    by_cases negative : n.negative = true
    · exact ⟨'-', n.unsigned, if_pos negative, by decide, rfl⟩
    · exact ⟨n.whole.first, _, if_neg negative, (digit n.whole.valid.1)⟩

theorem closesNext_spaced {tokens : List Token} {text : List Char}
    (spaced : Spaced IsBlank IsBlank tokens text) :
    closesNext text = tokens.head?.any Token.closes := by
  have skipped {gap : List Char} (blank : IsBlank gap) : ∀ c ∈ gap, Text.isBlank c = true := by
    have each : ∀ c ∈ [' ', '\t', '\n', '\r'], Text.isBlank c = true :=
      forall_mem_of_all (by decide)
    exact fun c member => each c (blank c member)
  unfold closesNext
  cases spaced with
  | nil blank =>
    rw [← List.append_nil text, List.dropWhile_append_of_pos (skipped blank)]
    rfl
  | @cons token tokens before text blank rest =>
    obtain ⟨c, cs, first, notBlank, closes⟩ := token_first token
    rw [List.dropWhile_append_of_pos (skipped blank), first, List.cons_append,
      List.dropWhile_cons_of_neg (by simp [notBlank])]
    exact closes

/-- Characters that are neither commas nor start a literal stay. -/
theorem stripCommasFrom_plain {cs : List Char} (plain : ∀ c ∈ cs, c ≠ '"' ∧ c ≠ ',')
    (rest : List Char) :
    stripCommasFrom .plain (cs ++ rest) = cs ++ stripCommasFrom .plain rest := by
  induction cs with
  | nil => rfl
  | cons c cs ih =>
    obtain ⟨here, later⟩ := List.forall_mem_cons.mp plain
    rw [List.cons_append, stripCommasFrom_plain_cons, if_neg (by simpa using here.1),
      if_neg (by simp [here.2]), ih later]
    rfl

theorem stripCommasFrom_comma (rest : List Char) :
    stripCommasFrom .plain (',' :: rest) =
      if closesNext rest then stripCommasFrom .plain rest
      else ',' :: stripCommasFrom .plain rest := by
  rw [stripCommasFrom_plain_cons, if_neg (by decide)]
  rfl

/-- A token stays, unless it is a comma before a closing bracket. -/
theorem stripCommasFrom_token (token : Token) {rest : List Char}
    (stays : token = .mark .comma → closesNext rest = false) :
    stripCommasFrom .plain (token.text ++ rest) = token.text ++ stripCommasFrom .plain rest := by
  cases token with
  | mark m =>
    by_cases comma : m = .comma
    · rw [comma] at stays ⊢
      rw [Token.text, List.singleton_append, Mark.char, stripCommasFrom_comma, stays rfl]
      rfl
    · refine stripCommasFrom_plain ?_ rest
      cases m with
      | comma => exact absurd rfl comma
      | _ => exact forall_mem_of_all (by decide)
  | literal pieces =>
    rw [Token.text, List.cons_append, stripCommasFrom_plain_cons, if_pos (beq_self_eq_true _),
      passes_literal stripCommasFrom id stripCommasFrom_literal_cons stripCommasFrom_escaped_cons,
      List.map_id]
    rfl
  | word w => exact stripCommasFrom_plain (fun _ => And.right ∘ word_plain w) rest
  | number n => exact stripCommasFrom_plain (fun _ => And.right ∘ number_plain n) rest

theorem stripCommasFrom_blank {gap : List Char} (blank : IsBlank gap) (rest : List Char) :
    stripCommasFrom .plain (gap ++ rest) = gap ++ stripCommasFrom .plain rest :=
  stripCommasFrom_plain (fun _ => And.right ∘ blank_plain blank) rest

/-- Tokens to which commas are added before closing brackets, whatever comes before them. -/
inductive InsertsCommas : List Token → List Token → Prop
  | nil : InsertsCommas [] []
  | keep (token : Token) {tokens more : List Token} (rest : InsertsCommas tokens more) :
      InsertsCommas (token :: tokens) (token :: more)
  | insert {closing : Token} {tokens more : List Token} (closes : closing.closes = true)
      (rest : InsertsCommas (closing :: tokens) (closing :: more)) :
      InsertsCommas (closing :: tokens) (.mark .comma :: closing :: more)

theorem AddsCommas.inserts {tokens more : List Token} (adds : AddsCommas tokens more) :
    InsertsCommas tokens more := by
  induction adds with
  | nil => exact .nil
  | keep token _ ih => exact .keep token ih
  | add _ closes _ ih => exact .keep _ (.insert closes ih)

/-- A closing bracket comes first only if it does so without the commas. -/
theorem InsertsCommas.head?_eq {tokens more : List Token} (inserts : InsertsCommas tokens more)
    (closes : more.head?.any Token.closes = true) : tokens.head? = more.head? := by
  cases inserts with
  | nil => rfl
  | keep => rfl
  | insert => cases closes

/-- A comma of tokens that fit is not followed by a closing bracket. -/
theorem closesNext_of_fits {token : Token} {tokens : List Token}
    (fits : (token :: tokens).IsChain Fits) (comma : token = .mark .comma) :
    tokens.head?.any Token.closes = false := by
  cases next : tokens.head? with
  | none => rfl
  | some other => exact ((List.isChain_cons.mp fits).1 other next).2 comma

/-- Blanks before a text belong to its first gap. -/
theorem blank_append {gap text : List Char} {tokens : List Token} (blank : IsBlank gap)
    (spaced : Spaced IsBlank IsBlank tokens text) :
    Spaced IsBlank IsBlank tokens (gap ++ text) := by
  cases spaced with
  | nil after => exact .nil (List.forall_mem_append.mpr ⟨blank, after⟩)
  | cons after rest =>
    rw [← List.append_assoc]
    exact .cons (List.forall_mem_append.mpr ⟨blank, after⟩) rest

/-- Without the commas that were added the tokens are left, with blanks between them. -/
theorem stripCommas_spaced {tokens more : List Token} (fits : tokens.IsChain Fits)
    (inserts : InsertsCommas tokens more) {text : List Char}
    (spaced : Spaced IsBlank IsBlank more text) :
    Spaced IsBlank IsBlank tokens (stripCommas text) := by
  unfold stripCommas
  induction inserts generalizing text with
  | nil =>
    cases spaced with
    | nil blank =>
      have all := stripCommasFrom_blank blank []
      rw [List.append_nil, stripCommasFrom_nil, List.append_nil] at all
      rw [all]
      exact .nil blank
  | @keep token tokens more inserts ih =>
    cases spaced with
    | @cons _ _ before text blank rest =>
      -- A comma that is no added one is not followed by a closing bracket.
      have stays (comma : token = .mark .comma) : closesNext text = false := by
        rw [closesNext_spaced rest, ← Bool.not_eq_true]
        intro closes
        have open_ := closesNext_of_fits fits comma
        rw [inserts.head?_eq closes, closes] at open_
        cases open_
      rw [stripCommasFrom_blank blank, stripCommasFrom_token token stays]
      exact .cons blank (ih fits.tail rest)
  | @insert closing tokens more closes inserts ih =>
    cases spaced with
    | cons blank rest =>
      have closed := closesNext_spaced rest
      rw [List.head?_cons, Option.any_some, closes] at closed
      rw [stripCommasFrom_blank blank, Token.text, List.singleton_append, Mark.char,
        stripCommasFrom_comma, if_pos closed]
      exact blank_append blank (ih fits rest)

theorem stripCommas_eq_self {tokens : List Token} (fits : tokens.IsChain Fits) {text : List Char}
    (spaced : Spaced IsBlank IsBlank tokens text) : stripCommas text = text := by
  unfold stripCommas
  induction spaced with
  | @nil text blank =>
    have all := stripCommasFrom_blank blank []
    rwa [List.append_nil, stripCommasFrom_nil, List.append_nil] at all
  | @cons token tokens before text blank rest ih =>
    have stays := closesNext_of_fits fits
    rw [← closesNext_spaced rest] at stays
    rw [stripCommasFrom_blank blank, stripCommasFrom_token token stays, ih fits.tail]

/-! ### Both removals -/

/-- What is left of a decorated text has the tokens of the JSON text, with blanks between them. -/
theorem Decorates.spaced {text json : String} (decorates : Decorates text json) :
    ∃ tokens, Phrase .value tokens ∧ Spaced IsBlank IsBlank tokens json.toList ∧
      Spaced IsBlank IsBlank tokens (undecorated text).toList := by
  obtain ⟨tokens, more, phrase, plain, adds, decorated⟩ := decorates
  refine ⟨tokens, phrase, plain, ?_⟩
  rw [undecorated, String.toList_ofList]
  exact stripCommas_spaced phrase.joined.chain adds.inserts (stripComments_spaced decorated)

theorem undecorated_eq_self {json : String} (valid : IsJson json) : undecorated json = json := by
  obtain ⟨tokens, phrase, plain⟩ := valid
  rw [undecorated, stripComments_eq_self plain, stripCommas_eq_self phrase.joined.chain plain,
    String.ofList_toList]

end UnusedMethods.Config
