import UnusedMethods.Proofs.Undecoration

/-!
# Comments in a text

A scan of a text tells its characters, inside and outside of literals, and its comments. Removing
the comments and putting something in their place are both told by it. The scan of a text that is
written from tokens and gaps goes by the tokens, and where tokens with blanks between them are left
once the comments are replaced, the text was written from these tokens.
-/

namespace UnusedMethods.Config

open Json

/-! ### The scan -/

/-- What a text is made of. -/
inductive Item where
  /-- A character outside of literals, or the quote that starts one. -/
  | plain (c : Char)
  /-- A character of a literal, or the quote that ends it. -/
  | quoted (c : Char)
  /-- A comment. It is closed unless the text ends before a star and a slash do so. -/
  | comment (closed : Bool)
deriving DecidableEq

/-- What a text is made of, from a given mode on. A comment is told where it ends. -/
def itemsFrom : Mode → List Char → List Item
  | .lineComment, [] => [.comment true]
  | .blockComment _, [] => [.comment false]
  | _, [] => []
  | .plain, '/' :: '/' :: rest => itemsFrom .lineComment rest
  | .plain, '/' :: '*' :: rest => itemsFrom (.blockComment false) rest
  | .plain, c :: rest => .plain c :: itemsFrom (if c == '"' then .literal else .plain) rest
  | .literal, c :: rest =>
    .quoted c :: itemsFrom (if c == '\\' then .escaped else if c == '"' then .plain else .literal)
      rest
  | .escaped, c :: rest => .quoted c :: itemsFrom .literal rest
  | .lineComment, c :: rest =>
    if c == '\n' then .comment true :: .plain c :: itemsFrom .plain rest
    else itemsFrom .lineComment rest
  | .blockComment star, c :: rest =>
    if star && c == '/' then .comment true :: itemsFrom .plain rest
    else itemsFrom (.blockComment (c == '*')) rest

namespace Item

/-- An item, with something in the place of a comment. -/
def text (fill : List Char) : Item → List Char
  | plain c => [c]
  | quoted c => [c]
  | comment _ => fill

/-- An item that may stand between tokens. -/
def isGap : Item → Bool
  | plain c => c ∈ [' ', '\t', '\n', '\r']
  | quoted _ => false
  | comment _ => true

end Item

/-- A text with something in the place of its comments. -/
def filled (fill : List Char) (items : List Item) : List Char :=
  items.flatMap (Item.text fill)

theorem filled_append (fill : List Char) (items others : List Item) :
    filled fill (items ++ others) = filled fill items ++ filled fill others :=
  List.flatMap_append

theorem filled_plain (fill : List Char) (c : Char) (items : List Item) :
    filled fill (.plain c :: items) = c :: filled fill items :=
  rfl

theorem filled_quoted (fill : List Char) (c : Char) (items : List Item) :
    filled fill (.quoted c :: items) = c :: filled fill items :=
  rfl

theorem filled_comment (fill : List Char) (closed : Bool) (items : List Item) :
    filled fill (.comment closed :: items) = fill ++ filled fill items :=
  rfl

/-- What starts no comment is told as it is. -/
theorem itemsFrom_plain_cons {c : Char} {rest : List Char}
    (other : c = '/' → rest.head? ≠ some '/' ∧ rest.head? ≠ some '*') :
    itemsFrom .plain (c :: rest) =
      .plain c :: itemsFrom (if c == '"' then .literal else .plain) rest := by
  rw [itemsFrom]
  · rintro rest rfl rfl
    exact (other rfl).1 rfl
  · rintro rest rfl rfl
    exact (other rfl).2 rfl

/-- In literals and comments one character is passed at a time. -/
theorem itemsFrom_cons (c : Char) (rest : List Char) :
    (itemsFrom .literal (c :: rest) = .quoted c :: itemsFrom
      (if c == '\\' then .escaped else if c == '"' then .plain else .literal) rest) ∧
    itemsFrom .escaped (c :: rest) = .quoted c :: itemsFrom .literal rest ∧
    (itemsFrom .lineComment (c :: rest) =
      if c == '\n' then .comment true :: .plain c :: itemsFrom .plain rest
      else itemsFrom .lineComment rest) ∧
    ∀ star, itemsFrom (.blockComment star) (c :: rest) =
      if star && c == '/' then .comment true :: itemsFrom .plain rest
      else itemsFrom (.blockComment (c == '*')) rest := by
  refine ⟨?_, ?_, ?_, fun star => ?_⟩ <;> rw [itemsFrom]

/-- Removing comments puts nothing in their place. -/
theorem stripFrom_eq_filled (mode : Mode) (text : List Char) :
    stripFrom mode text = filled [] (itemsFrom mode text) := by
  fun_induction itemsFrom mode text with
  | case1 => rfl
  | case2 => rfl
  | case3 mode => exact stripFrom_nil mode
  | case4 rest ih => exact ih
  | case5 rest ih => exact ih
  | case6 c rest notLine notBlock ih =>
    rw [stripFrom, ih, filled_plain]
    · exact notLine
    · exact notBlock
  | case7 c rest ih => rw [(stripFrom_cons c rest).1, ih, filled_quoted]
  | case8 c rest ih => rw [(stripFrom_cons c rest).2.1, ih, filled_quoted]
  | case9 c rest newline ih =>
    rw [stripFrom_lineComment_cons, if_pos newline, ih, filled_comment, filled_plain]
    rfl
  | case10 c rest other ih => rw [stripFrom_lineComment_cons, if_neg other, ih]
  | case11 star c rest ends ih =>
    rw [stripFrom_blockComment_cons, if_pos ends, ih, filled_comment]
    rfl
  | case12 star c rest other ih => rw [stripFrom_blockComment_cons, if_neg other, ih]

/-! ### The scan of tokens and gaps -/

/-- What a token is made of. -/
def tokenItems : Token → List Item
  | .mark m => [.plain m.char]
  | .literal pieces => .plain '"' :: (Token.literalRest pieces).map .quoted
  | .word w => w.text.map .plain
  | .number n => n.text.map .plain

theorem filled_tokenItems (fill : List Char) (token : Token) :
    filled fill (tokenItems token) = token.text := by
  have plain (cs : List Char) : filled fill (cs.map .plain) = cs := by
    rw [filled, List.flatMap_map]
    exact List.flatMap_singleton' cs
  have quoted (cs : List Char) : filled fill (cs.map .quoted) = cs := by
    rw [filled, List.flatMap_map]
    exact List.flatMap_singleton' cs
  cases token with
  | mark m => rfl
  | literal pieces =>
    rw [tokenItems, filled_plain, quoted]
    rfl
  | word w => exact plain w.text
  | number n => exact plain n.text

/-- Characters that start neither a comment nor a literal. -/
theorem itemsFrom_plain {cs : List Char} (plain : ∀ c ∈ cs, c ≠ '/' ∧ c ≠ '"') (rest : List Char) :
    itemsFrom .plain (cs ++ rest) = cs.map .plain ++ itemsFrom .plain rest := by
  induction cs with
  | nil => rfl
  | cons c cs ih =>
    obtain ⟨here, later⟩ := List.forall_mem_cons.mp plain
    rw [List.cons_append, itemsFrom_plain_cons (absurd · here.1), if_neg (by simpa using here.2),
      ih later]
    rfl

theorem itemsFrom_token (token : Token) (rest : List Char) :
    itemsFrom .plain (token.text ++ rest) = tokenItems token ++ itemsFrom .plain rest := by
  cases token with
  | mark m =>
    refine itemsFrom_plain ?_ rest
    cases m <;> exact forall_mem_of_all (by decide)
  | literal pieces =>
    rw [Token.text, List.cons_append, itemsFrom_plain_cons (by simp), if_pos (beq_self_eq_true _),
      passes_literal itemsFrom .quoted (fun c rest => (itemsFrom_cons c rest).1)
        (fun c rest => (itemsFrom_cons c rest).2.1)]
    rfl
  | word w => exact itemsFrom_plain (fun _ => And.imp_right And.left ∘ word_plain w) rest
  | number n => exact itemsFrom_plain (fun _ => And.imp_right And.left ∘ number_plain n) rest

theorem itemsFrom_lineComment {body : List Char} (ends : '\n' ∉ body) (rest : List Char) :
    itemsFrom .plain ('/' :: '/' :: (body ++ '\n' :: rest)) =
      .comment true :: .plain '\n' :: itemsFrom .plain rest := by
  refine passes_lineComment itemsFrom [.comment true, .plain '\n'] (fun _ => ?_)
    (fun c _ other => ?_) ends rest
  · rw [(itemsFrom_cons _ _).2.2.1, if_pos (beq_self_eq_true _)]
    rfl
  · rw [(itemsFrom_cons _ _).2.2.1, if_neg (by simpa using other)]

theorem itemsFrom_lineComment_end {body : List Char} (ends : '\n' ∉ body) :
    itemsFrom .plain ('/' :: '/' :: body) = [.comment true] := by
  show itemsFrom .lineComment body = _
  induction body with
  | nil => rfl
  | cons c body ih =>
    rw [List.mem_cons, not_or] at ends
    rw [(itemsFrom_cons _ _).2.2.1, if_neg (by simpa using Ne.symm ends.1), ih ends.2]

theorem itemsFrom_blockComment {body : List Char} (ends : ¬ ['*', '/'] <:+: body)
    (rest : List Char) :
    itemsFrom .plain ('/' :: '*' :: (body ++ '*' :: '/' :: rest)) =
      .comment true :: itemsFrom .plain rest :=
  passes_blockComment itemsFrom [.comment true]
    (fun star c rest => (itemsFrom_cons c rest).2.2.2 star) ends rest

theorem itemsFrom_blockComment_end {body : List Char} (ends : ¬ ['*', '/'] <:+: body) :
    itemsFrom .plain ('/' :: '*' :: body) = [.comment false] := by
  obtain ⟨star, passes⟩ := passes_blockBody itemsFrom [.comment true]
    (fun star c rest => (itemsFrom_cons c rest).2.2.2 star) ends
  have whole := passes []
  rw [List.append_nil] at whole
  exact whole

/-- Blanks and comments at the end of a text, which may end the last comment, of either kind. -/
def IsOpenLastGap (gap : List Char) : Prop :=
  IsLastGap gap ∨
    ∃ front body, gap = front ++ '/' :: '*' :: body ∧ IsGap front ∧ ¬ ['*', '/'] <:+: body

/-- An item that is not a comment which the text ends too early. -/
def Item.isClosed : Item → Bool
  | comment closed => closed
  | _ => true

theorem itemsFrom_gap {gap : List Char} (isGap : IsGap gap) :
    ∃ items, (∀ item ∈ items, item.isGap = true ∧ item.isClosed = true) ∧
      ∀ rest, itemsFrom .plain (gap ++ rest) = items ++ itemsFrom .plain rest := by
  induction isGap with
  | nil => exact ⟨[], nofun, fun _ => rfl⟩
  | @blank c gap blank _ ih =>
    obtain ⟨items, all, told⟩ := ih
    refine ⟨.plain c :: items, List.forall_mem_cons.mpr ⟨⟨?_, rfl⟩, all⟩, fun rest => ?_⟩
    · simpa [Item.isGap] using blank
    · have single : IsBlank [c] := List.forall_mem_singleton.mpr blank
      have plain : ∀ d ∈ [c], d ≠ '/' ∧ d ≠ '"' :=
        fun _ => And.imp_right And.left ∘ blank_plain single
      rw [List.cons_append, ← List.singleton_append, itemsFrom_plain plain, told]
      rfl
  | @line body gap ends _ ih =>
    obtain ⟨items, all, told⟩ := ih
    refine ⟨.comment true :: .plain '\n' :: items, ?_, fun rest => ?_⟩
    · exact List.forall_mem_cons.mpr
        ⟨⟨rfl, rfl⟩, List.forall_mem_cons.mpr ⟨⟨by decide, rfl⟩, all⟩⟩
    · simp only [List.cons_append, List.append_assoc]
      rw [itemsFrom_lineComment ends, told]
  | @block body gap ends _ ih =>
    obtain ⟨items, all, told⟩ := ih
    refine ⟨.comment true :: items, List.forall_mem_cons.mpr ⟨⟨rfl, rfl⟩, all⟩, fun rest => ?_⟩
    simp only [List.cons_append, List.append_assoc]
    rw [itemsFrom_blockComment ends, told]

theorem itemsFrom_lastGap {gap : List Char} (isGap : IsLastGap gap) :
    ∀ item ∈ itemsFrom .plain gap, item.isGap = true ∧ item.isClosed = true := by
  rcases isGap with isGap | ⟨front, body, rfl, isGap, ends⟩
  · obtain ⟨items, all, told⟩ := itemsFrom_gap isGap
    have whole := told []
    rw [List.append_nil] at whole
    rw [whole]
    exact List.forall_mem_append.mpr ⟨all, nofun⟩
  · obtain ⟨items, all, told⟩ := itemsFrom_gap isGap
    rw [told, itemsFrom_lineComment_end ends]
    exact List.forall_mem_append.mpr ⟨all, List.forall_mem_singleton.mpr ⟨rfl, rfl⟩⟩

theorem itemsFrom_openLastGap {gap : List Char} (isGap : IsOpenLastGap gap) :
    (∀ item ∈ itemsFrom .plain gap, item.isGap = true) ∧
      ((∀ item ∈ itemsFrom .plain gap, item.isClosed = true) → IsLastGap gap) := by
  rcases isGap with isGap | ⟨front, body, rfl, isGap, ends⟩
  · exact ⟨fun item member => (itemsFrom_lastGap isGap item member).1, fun _ => isGap⟩
  · obtain ⟨items, all, told⟩ := itemsFrom_gap isGap
    rw [told, itemsFrom_blockComment_end ends]
    refine ⟨?_, fun closed => ?_⟩
    · exact List.forall_mem_append.mpr
        ⟨fun item member => (all item member).1, List.forall_mem_singleton.mpr rfl⟩
    · have last := (List.forall_mem_append.mp closed).2 _ List.mem_cons_self
      cases last

theorem isClosed_tokenItems (token : Token) : ∀ item ∈ tokenItems token, item.isClosed = true := by
  have mapped (cs : List Char) (f : Char → Item) (closed : ∀ c, (f c).isClosed = true) :
      ∀ item ∈ cs.map f, item.isClosed = true := by
    intro item member
    obtain ⟨c, _, rfl⟩ := List.mem_map.mp member
    exact closed c
  cases token with
  | mark m => exact List.forall_mem_singleton.mpr rfl
  | literal pieces => exact List.forall_mem_cons.mpr ⟨rfl, mapped _ _ fun _ => rfl⟩
  | word w => exact mapped w.text _ fun _ => rfl
  | number n => exact mapped n.text _ fun _ => rfl

/-! ### Items of tokens and gaps -/

/-- Items of tokens, with items between them that may stand there. -/
inductive Laid : List Token → List Item → Prop
  | nil {items : List Item} (gap : ∀ item ∈ items, item.isGap = true) : Laid [] items
  | cons {token : Token} {tokens : List Token} {before items : List Item}
      (gap : ∀ item ∈ before, item.isGap = true) (rest : Laid tokens items) :
      Laid (token :: tokens) (before ++ (tokenItems token ++ items))

theorem laid_of_spaced {tokens : List Token} {text : List Char}
    (spaced : Spaced IsGap IsOpenLastGap tokens text) : Laid tokens (itemsFrom .plain text) := by
  induction spaced with
  | nil isGap => exact .nil (itemsFrom_openLastGap isGap).1
  | cons isGap _ ih =>
    obtain ⟨items, all, told⟩ := itemsFrom_gap isGap
    rw [told, itemsFrom_token]
    exact .cons (fun item member => (all item member).1) ih

theorem isBlank_filled {fill : List Char} (blank : IsBlank fill) {items : List Item}
    (gap : ∀ item ∈ items, item.isGap = true) : IsBlank (filled fill items) := by
  intro c member
  obtain ⟨item, listed, inside⟩ := List.mem_flatMap.mp member
  have here := gap item listed
  cases item with
  | plain d =>
    obtain rfl := List.mem_singleton.mp inside
    simpa [Item.isGap] using here
  | quoted d => cases here
  | comment closed => exact blank c inside

/-- With blanks in the place of comments the tokens are left, with blanks between them. -/
theorem Laid.spaced {tokens : List Token} {items : List Item} (laid : Laid tokens items)
    {fill : List Char} (blank : IsBlank fill) :
    Spaced IsBlank IsBlank tokens (filled fill items) := by
  induction laid with
  | nil gap => exact .nil (isBlank_filled blank gap)
  | cons gap _ ih =>
    rw [filled_append, filled_append, filled_tokenItems]
    exact .cons (isBlank_filled blank gap) ih

theorem closed_of_spaced {tokens : List Token} {text : List Char}
    (spaced : Spaced IsGap IsLastGap tokens text) :
    ∀ item ∈ itemsFrom .plain text, item.isClosed = true := by
  induction spaced with
  | nil isGap => exact fun item member => (itemsFrom_lastGap isGap item member).2
  | cons isGap _ ih =>
    obtain ⟨items, all, told⟩ := itemsFrom_gap isGap
    rw [told, itemsFrom_token]
    refine List.forall_mem_append.mpr ⟨fun item member => (all item member).2, ?_⟩
    exact List.forall_mem_append.mpr ⟨isClosed_tokenItems _, ih⟩

theorem lastGap_of_closed {tokens : List Token} {text : List Char}
    (spaced : Spaced IsGap IsOpenLastGap tokens text)
    (closed : ∀ item ∈ itemsFrom .plain text, item.isClosed = true) :
    Spaced IsGap IsLastGap tokens text := by
  induction spaced with
  | nil isGap => exact .nil ((itemsFrom_openLastGap isGap).2 closed)
  | cons isGap _ ih =>
    obtain ⟨items, _, told⟩ := itemsFrom_gap isGap
    rw [told, itemsFrom_token] at closed
    exact .cons isGap (ih (List.forall_mem_append.mp (List.forall_mem_append.mp closed).2).2)

/-! ### Texts whose comments were replaced -/

/-- Whether no character of a kind stands outside of literals with such items behind it. -/
def never (kind : Char → Bool) (behind : List Item → Bool) : List Item → Bool
  | [] => true
  | .plain c :: rest => !(kind c && behind rest) && never kind behind rest
  | .quoted _ :: rest => never kind behind rest
  | .comment _ :: rest => never kind behind rest

theorem never_of_append {kind : Char → Bool} {behind : List Item → Bool}
    {items others : List Item} (holds : never kind behind (items ++ others) = true) :
    never kind behind others = true := by
  induction items with
  | nil => exact holds
  | cons item items ih =>
    refine ih ?_
    cases item with
    | plain c => exact (Bool.and_eq_true_iff.mp holds).2
    | quoted | comment => exact holds

/-- Whether a character of words comes first where comments are removed before it. -/
def joins : List Item → Bool
  | .comment _ :: rest => (filled [] rest).head?.any isWordChar
  | _ => false

/-- Whether no comment stands alone between two characters of words, which would come together
without it. -/
def keepsApart (items : List Item) : Bool :=
  never isWordChar joins items

/-- What a text starts with: a comment that ends before the text does or not, or a character. -/
inductive Front (text : List Char) : Prop
  | nil (empty : text = [])
  | comment (ending : List Item) {gap rest : List Char} (whole : text = gap ++ rest)
      (some_ : gap ≠ []) (isGap : IsGap gap) (ends : ending = [] ∨ ending = [.plain '\n'])
      (told : itemsFrom .plain text = .comment true :: (ending ++ itemsFrom .plain rest))
  | lastComment (closed : Bool) (isGap : IsOpenLastGap text)
      (told : itemsFrom .plain text = [.comment closed])
  | char {c : Char} {rest : List Char} (whole : text = c :: rest)
      (told : itemsFrom .plain text =
        .plain c :: itemsFrom (if c == '"' then .literal else .plain) rest)

/-- The first star and slash. -/
theorem exists_first_close {text : List Char} (closes : ['*', '/'] <:+: text) :
    ∃ body rest, text = body ++ '*' :: '/' :: rest ∧ ¬ ['*', '/'] <:+: body := by
  induction text with
  | nil => cases List.infix_nil.mp closes
  | cons c text ih =>
    by_cases here : ['*', '/'] <+: c :: text
    · obtain ⟨rest, whole⟩ := here
      exact ⟨[], rest, whole.symm, by decide⟩
    · have later := (List.infix_cons_iff.mp closes).resolve_left here
      obtain ⟨body, rest, rfl, ends⟩ := ih later
      refine ⟨c :: body, rest, rfl, fun inside => ?_⟩
      rcases List.infix_cons_iff.mp inside with front | inside
      · exact here (front.trans (List.prefix_append (c :: body) _))
      · exact ends inside

theorem front_slashes (rest : List Char) : Front ('/' :: '/' :: rest) := by
  -- Without a line end the comment reaches to the end of the text, which is allowed.
  by_cases ends : '\n' ∈ rest
  · obtain ⟨body, rest, rfl, before⟩ := List.eq_append_cons_of_mem ends
    refine .comment [.plain '\n'] ?_ ?_ (.line before .nil) (Or.inr rfl)
      (itemsFrom_lineComment before rest)
    · simp
    · nofun
  · exact .lastComment true (Or.inl (Or.inr ⟨[], rest, rfl, .nil, ends⟩))
      (itemsFrom_lineComment_end ends)

theorem front_slashStar (rest : List Char) : Front ('/' :: '*' :: rest) := by
  by_cases ends : ['*', '/'] <:+: rest
  · obtain ⟨body, rest, rfl, before⟩ := exists_first_close ends
    refine .comment [] ?_ ?_ (.block before .nil) (Or.inl rfl) (itemsFrom_blockComment before rest)
    · simp
    · nofun
  · exact .lastComment false (Or.inr ⟨[], rest, rfl, .nil, ends⟩)
      (itemsFrom_blockComment_end ends)

theorem front_cases (text : List Char) : Front text := by
  cases text with
  | nil => exact .nil rfl
  | cons c rest =>
    by_cases slashes : c = '/' ∧ rest.head? = some '/'
    · obtain ⟨rfl, second⟩ := slashes
      obtain ⟨rest, rfl⟩ := List.head?_eq_some_iff.mp second
      exact front_slashes rest
    by_cases slashStar : c = '/' ∧ rest.head? = some '*'
    · obtain ⟨rfl, second⟩ := slashStar
      obtain ⟨rest, rfl⟩ := List.head?_eq_some_iff.mp second
      exact front_slashStar rest
    · exact .char rfl (itemsFrom_plain_cons fun slash =>
        ⟨fun second => slashes ⟨slash, second⟩, fun second => slashStar ⟨slash, second⟩⟩)

section

variable {fill : List Char} {tokens : List Token} {text : List Char}

/-- A comment does not stand before a character of words that comes next, unless this is to be set
apart or what is put in the place of the comment does so. -/
theorem not_comment_of_word {closed : Bool} {items : List Item} {a c : Char} {rest : List Char}
    (blank : IsBlank fill) (before : isWordChar a = true) (word : isWordChar c = true)
    (separates : fill ≠ [] ∨ keepsApart (.plain a :: .comment closed :: items) = true)
    (same : filled fill (.comment closed :: items) = c :: rest) : False := by
  cases fill with
  | cons d fill =>
    obtain ⟨rfl, _⟩ := List.cons_eq_cons.mp same
    rw [isWordChar_of_isBlank (isBlank_of_mem (blank d List.mem_cons_self))] at word
    cases word
  | nil =>
    have apart := separates.resolve_left (absurd rfl)
    have after : filled [] items = c :: rest := same
    simp [keepsApart, never, joins, before, after, word] at apart

/-- The characters of a word or a number stood together. -/
theorem filled_word (blank : IsBlank fill) {a : Char} {cs rest : List Char}
    (word : ∀ c ∈ a :: cs, isWordChar c = true)
    (separates : fill ≠ [] ∨ keepsApart (.plain a :: itemsFrom .plain text) = true)
    (same : filled fill (itemsFrom .plain text) = cs ++ rest) :
    ∃ left, text = cs ++ left ∧ filled fill (itemsFrom .plain left) = rest := by
  -- `a` is the character before, which a comment in between would have to keep apart.
  induction cs generalizing a text with
  | nil => exact ⟨text, rfl, same⟩
  | cons c cs ih =>
    obtain ⟨before, later⟩ := List.forall_mem_cons.mp word
    have here := later c List.mem_cons_self
    cases front_cases text with
    | nil empty =>
      rw [empty] at same
      cases same
    | comment ending _ _ _ _ told =>
      rw [told] at same separates
      exact (not_comment_of_word blank before here separates same).elim
    | lastComment closed _ told =>
      rw [told] at same separates
      exact (not_comment_of_word blank before here separates same).elim
    | @char d others whole told =>
      subst whole
      rw [told] at same separates
      obtain ⟨rfl, after⟩ := List.cons_eq_cons.mp same
      have notQuote : d ≠ '"' := by
        rintro rfl
        exact absurd here (by decide)
      rw [if_neg (by simpa using notQuote)] at after separates
      obtain ⟨left, rfl, last⟩ :=
        ih later (separates.imp_right fun apart => (Bool.and_eq_true_iff.mp apart).2) after
      exact ⟨left, rfl, last⟩

theorem keepsLiterals_filled (fill : List Char) :
    KeepsLiterals fun mode text => filled fill (itemsFrom mode text) where
  atEnd := ⟨rfl, rfl⟩
  inLiteral c rest := by rw [(itemsFrom_cons c rest).1, filled_quoted]
  afterBackslash c rest := by rw [(itemsFrom_cons c rest).2.1, filled_quoted]

/-- A token whose first character is there was there, with all its characters. -/
theorem exists_filled_token {c : Char} {left : List Char} {token : Token} (blank : IsBlank fill)
    (told : itemsFrom .plain (c :: text) =
      .plain c :: itemsFrom (if c == '"' then .literal else .plain) text)
    (separates : fill ≠ [] ∨ keepsApart (itemsFrom .plain (c :: text)) = true)
    (start : filled fill (itemsFrom .plain (c :: text)) = token.text ++ left) :
    ∃ after, c :: text = token.text ++ after ∧ filled fill (itemsFrom .plain after) = left := by
  refine (keepsLiterals_filled fill).exists_token token (by rw [told, filled_plain]) start ?_
  intro cs word same
  have notQuote : c ≠ '"' := by
    rintro rfl
    exact absurd (word _ List.mem_cons_self) (by decide)
  rw [told, if_neg (by simpa using notQuote)] at separates
  exact filled_word blank word separates same

theorem IsGap.append {gap others : List Char} (isGap : IsGap gap) (isGap' : IsGap others) :
    IsGap (gap ++ others) := by
  induction isGap with
  | nil => exact isGap'
  | blank blank _ ih => exact .blank blank ih
  | line ends _ ih =>
    simp only [List.cons_append, List.append_assoc]
    exact .line ends ih
  | block ends _ ih =>
    simp only [List.cons_append, List.append_assoc]
    exact .block ends ih

/-- Blanks and comments before a text belong to its first gap. -/
theorem gap_append {gap : List Char} (isGap : IsGap gap)
    (spaced : Spaced IsGap IsOpenLastGap tokens text) :
    Spaced IsGap IsOpenLastGap tokens (gap ++ text) := by
  cases spaced with
  | nil last =>
    refine .nil ?_
    rcases last with (isGap' | ⟨front, body, rfl, isGap', ends⟩) | ⟨front, body, rfl, isGap', ends⟩
    · exact Or.inl (Or.inl (isGap.append isGap'))
    · exact Or.inl (Or.inr ⟨gap ++ front, body, by simp, isGap.append isGap', ends⟩)
    · exact Or.inr ⟨gap ++ front, body, by simp, isGap.append isGap', ends⟩
  | cons isGap' rest =>
    rw [← List.append_assoc]
    exact .cons (isGap.append isGap') rest

/-- Tokens that are left once blanks are put in the place of comments were there with these
comments, if what is put there or what stands around them keeps words and numbers apart. -/
theorem spaced_of_filled (blank : IsBlank fill)
    (separates : fill ≠ [] ∨ keepsApart (itemsFrom .plain text) = true)
    (spaced : Spaced IsBlank IsBlank tokens (filled fill (itemsFrom .plain text))) :
    Spaced IsGap IsOpenLastGap tokens text := by
  -- A step may take a whole comment or a whole token, so the induction is on the length.
  induction n : text.length using Nat.strong_induction_on generalizing text tokens with
  | _ n ih =>
    subst n
    cases front_cases text with
    | nil empty =>
      subst empty
      obtain rfl := eq_nil_of_blank spaced nofun
      exact .nil (Or.inl (Or.inl .nil))
    | lastComment closed isGap told =>
      rw [told] at spaced
      have gap : IsBlank (filled fill [.comment closed]) :=
        isBlank_filled blank (List.forall_mem_singleton.mpr rfl)
      obtain rfl := eq_nil_of_blank spaced gap
      exact .nil isGap
    | @comment ending gap rest whole some_ isGap ends told =>
      have shorter : rest.length < text.length := by
        have long := List.length_pos_of_ne_nil some_
        rw [whole, List.length_append]
        omega
      have gaps : ∀ item ∈ Item.comment true :: ending, item.isGap = true := by
        refine List.forall_mem_cons.mpr ⟨rfl, ?_⟩
        rcases ends with rfl | rfl
        · nofun
        · exact List.forall_mem_singleton.mpr (by decide)
      rw [told, ← List.cons_append] at spaced separates
      rw [filled_append] at spaced
      rw [whole]
      refine gap_append isGap (ih _ shorter (separates.imp_right never_of_append) ?_ rfl)
      exact spaced_of_blank_append (isBlank_filled blank gaps) spaced
    | @char c rest whole told =>
      subst whole
      have shorter : rest.length < (c :: rest).length := Nat.lt_succ_self _
      by_cases isBlank : c ∈ [' ', '\t', '\n', '\r']
      · have notQuote : c ≠ '"' := by
          rintro rfl
          exact absurd isBlank (by decide)
        rw [if_neg (by simpa using notQuote)] at told
        rw [told] at spaced separates
        refine gap_append (.blank isBlank .nil) (ih _ shorter ?_ ?_ rfl)
        · exact separates.imp_right fun apart => (Bool.and_eq_true_iff.mp apart).2
        · exact spaced_of_blank_cons isBlank spaced
      · have kept : filled fill (itemsFrom .plain (c :: rest)) =
            c :: filled fill (itemsFrom (if c == '"' then .literal else .plain) rest) := by
          rw [told, filled_plain]
        rw [kept] at spaced
        obtain ⟨token, others, left, rfl, start, later⟩ := spaced_of_cons isBlank spaced
        obtain ⟨after, same, stripped⟩ :=
          exists_filled_token blank told separates (kept.trans start)
        have fewer : after.length < (c :: rest).length := by
          obtain ⟨d, ds, first, _⟩ := token_first token
          rw [same, first]
          simp only [List.length_append, List.length_cons]
          omega
        rw [← stripped] at later
        rw [same, itemsFrom_token] at separates
        rw [same]
        have empty : IsGap [] := .nil
        exact .cons empty (ih _ fewer (separates.imp_right never_of_append) later rfl)

end

/-! ### Texts without comments -/

/-- A mode, or the one in which a scan goes on after a comment. -/
def Mode.outside : Mode → Mode
  | .plain => .plain
  | .literal => .literal
  | .escaped => .escaped
  | .lineComment => .plain
  | .blockComment _ => .plain

/-- With blanks in the place of comments no other character comes first than a blank or the one that
did before. -/
theorem head_filled {text others : List Char} {c : Char}
    (starts : filled [' '] (itemsFrom .plain text) = c :: others) :
    c = ' ' ∨ text.head? = some c := by
  cases front_cases text with
  | nil empty =>
    rw [empty] at starts
    cases starts
  | comment ending _ _ _ _ told =>
    rw [told] at starts
    exact Or.inl (List.cons_eq_cons.mp starts).1.symm
  | lastComment closed _ told =>
    rw [told] at starts
    exact Or.inl (List.cons_eq_cons.mp starts).1.symm
  | char whole told =>
    rw [told] at starts
    rw [whole, (List.cons_eq_cons.mp starts).1]
    exact Or.inr rfl

/-- With a blank in the place of each comment there is none. -/
theorem stripFrom_filled (mode : Mode) (text : List Char) :
    stripFrom mode.outside (filled [' '] (itemsFrom mode text)) =
      filled [' '] (itemsFrom mode text) := by
  have space (rest : List Char) :
      stripFrom .plain (' ' :: rest) = ' ' :: stripFrom .plain rest :=
    stripFrom_plain_cons (by decide) rest
  fun_induction itemsFrom mode text with
  | case1 => rfl
  | case2 => rfl
  | case3 mode => exact stripFrom_nil _
  | case4 rest ih => exact ih
  | case5 rest ih => exact ih
  | case6 c rest notLine notBlock ih =>
    have same : (if c == '"' then Mode.literal else .plain).outside =
        if c == '"' then .literal else .plain := by
      split <;> rfl
    rw [same] at ih
    -- A slash is not followed by what would make it start a comment.
    rw [filled_plain, Mode.outside, stripFrom, ih]
    · rintro others rfl starts
      rcases head_filled starts with wrong | second
      · cases wrong
      · obtain ⟨left, rfl⟩ := List.head?_eq_some_iff.mp second
        exact notLine left rfl rfl
    · rintro others rfl starts
      rcases head_filled starts with wrong | second
      · cases wrong
      · obtain ⟨left, rfl⟩ := List.head?_eq_some_iff.mp second
        exact notBlock left rfl rfl
  | case7 c rest ih =>
    have same :
        (if c == '\\' then .escaped else if c == '"' then .plain else .literal : Mode).outside
        = if c == '\\' then .escaped else if c == '"' then .plain else .literal := by
      split
      · rfl
      · split <;> rfl
    rw [same] at ih
    rw [filled_quoted, Mode.outside, (stripFrom_cons c _).1, ih]
  | case8 c rest ih =>
    rw [filled_quoted, Mode.outside, (stripFrom_cons c _).2.1]
    exact congrArg (c :: ·) ih
  | case9 c rest newline ih =>
    obtain rfl : c = '\n' := beq_iff_eq.mp newline
    rw [filled_comment, filled_plain, Mode.outside, List.singleton_append, space,
      stripFrom_plain_cons (by decide)]
    exact congrArg (' ' :: '\n' :: ·) ih
  | case10 c rest other ih => exact ih
  | case11 star c rest ends ih =>
    rw [filled_comment, Mode.outside, List.singleton_append, space]
    exact congrArg (' ' :: ·) ih
  | case12 star c rest other ih => exact ih

end UnusedMethods.Config
