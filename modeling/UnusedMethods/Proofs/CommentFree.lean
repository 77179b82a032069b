import UnusedMethods.Proofs.CommentScan

/-!
# Texts without comments

What is left of a text without its comments has none. Characters that a comment kept apart come
together when it is removed, but they never start another comment: a slash is kept only before a
character that starts none with it, and that character is kept as well. So quotes and backslashes
delimit the same literals in what is left as in the text, and removing comments again changes
nothing.
-/

namespace UnusedMethods.Config

/-! ### Literals by quotes and backslashes alone -/

/-- The mode after a character where comments are unknown. -/
def Mode.next : Mode → Char → Mode
  | .literal, c => if c == '\\' then .escaped else if c == '"' then .plain else .literal
  | .escaped, _ => .literal
  | _, c => if c == '"' then .literal else .plain

/-- The mode in which what is left of a text goes on. Nothing is left of a comment. -/
def Mode.left : Mode → Mode
  | .lineComment => .plain
  | .blockComment _ => .plain
  | mode => mode

theorem Mode.left_next (mode : Mode) (c : Char) : (mode.next c).left = mode.next c := by
  unfold Mode.next
  split <;> repeat' split
  all_goals rfl

/-- What a text is made of from a given mode on, where comments are unknown. -/
def lettersFrom : Mode → List Char → List Item
  | _, [] => []
  | .plain, c :: rest => .plain c :: lettersFrom (Mode.next .plain c) rest
  | mode, c :: rest => .quoted c :: lettersFrom (mode.next c) rest

/-- An item that is a character. -/
def Item.isLetter : Item → Bool
  | comment _ => false
  | _ => true

/-- From a given mode on, two slashes, or a slash and a star, stand together outside of literals. -/
def OpensFrom (mode : Mode) (text : List Char) : Prop :=
  ∃ before c after, text = before ++ '/' :: c :: after ∧ (c = '/' ∨ c = '*') ∧
    before.foldl Mode.next mode = .plain

/-- Two slashes, or a slash and a star, stand together outside of the literals of a text. -/
def OpensComment (text : List Char) : Prop :=
  OpensFrom .plain text

theorem opensFrom_cons (mode : Mode) (c : Char) (rest : List Char) :
    OpensFrom mode (c :: rest) ↔
      (mode = .plain ∧ c = '/' ∧ (rest.head? = some '/' ∨ rest.head? = some '*')) ∨
        OpensFrom (mode.next c) rest := by
  constructor
  · rintro ⟨before, d, after, whole, opener, outside⟩
    cases before with
    | nil =>
      obtain ⟨rfl, rfl⟩ := List.cons_eq_cons.mp whole
      exact .inl ⟨outside, rfl, by simpa using opener⟩
    | cons first before =>
      obtain ⟨rfl, rfl⟩ := List.cons_eq_cons.mp whole
      exact .inr ⟨before, d, after, rfl, opener, outside⟩
  · rintro (⟨rfl, rfl, opener⟩ | ⟨before, d, after, rfl, opener, outside⟩)
    · cases rest with
      | nil => simp at opener
      | cons d after => exact ⟨[], d, after, rfl, by simpa using opener, rfl⟩
    · exact ⟨c :: before, d, after, rfl, opener, outside⟩

theorem not_opensFrom_nil (mode : Mode) : ¬ OpensFrom mode [] := by
  rintro ⟨before, c, after, whole, _⟩
  simp at whole

/-! ### Texts in which no comment starts -/

theorem filled_lettersFrom (fill : List Char) (mode : Mode) (text : List Char) :
    filled fill (lettersFrom mode text) = text := by
  fun_induction lettersFrom mode text with
  | case1 => rfl
  | case2 c rest ih => rw [filled_plain, ih]
  | case3 mode c rest _ ih => rw [filled_quoted, ih]

/-- Where no comment starts, a scan that knows comments tells the same as one that does not. -/
theorem itemsFrom_of_not_opensFrom {mode : Mode} (outside : mode.left = mode) {text : List Char}
    (opensNone : ¬ OpensFrom mode text) : itemsFrom mode text = lettersFrom mode text := by
  induction text generalizing mode with
  | nil => cases mode <;> first | rfl | cases outside
  | cons c rest ih =>
    rw [opensFrom_cons, not_or] at opensNone
    have later := ih (mode.left_next c) opensNone.2
    cases mode with
    | plain =>
      have other : c = '/' → rest.head? ≠ some '/' ∧ rest.head? ≠ some '*' := fun slash =>
        not_or.mp fun opener => opensNone.1 ⟨rfl, slash, opener⟩
      rw [itemsFrom_plain_cons other]
      exact congrArg (Item.plain c :: ·) later
    | literal =>
      rw [(itemsFrom_cons c rest).1]
      exact congrArg (Item.quoted c :: ·) later
    | escaped =>
      rw [(itemsFrom_cons c rest).2.1]
      exact congrArg (Item.quoted c :: ·) later
    | lineComment => cases outside
    | blockComment star => cases outside

/-- A scan tells the comment in which it stands. -/
theorem exists_comment {mode : Mode} (inside : mode.left ≠ mode) (text : List Char) :
    ∃ closed, .comment closed ∈ itemsFrom mode text := by
  induction text generalizing mode with
  | nil =>
    cases mode with
    | lineComment => exact ⟨true, List.mem_cons_self⟩
    | blockComment star => exact ⟨false, List.mem_cons_self⟩
    | plain | literal | escaped => exact absurd rfl inside
  | cons c rest ih =>
    cases mode with
    | lineComment =>
      rw [(itemsFrom_cons c rest).2.2.1]
      split
      · exact ⟨true, List.mem_cons_self⟩
      · exact ih inside
    | blockComment star =>
      rw [(itemsFrom_cons c rest).2.2.2]
      split
      · exact ⟨true, List.mem_cons_self⟩
      · have further : (Mode.blockComment (c == '*')).left ≠ .blockComment (c == '*') := nofun
        exact ih further
    | plain | literal | escaped => exact absurd rfl inside

/-- Where a comment starts, the scan tells one. -/
theorem exists_comment_of_opensFrom {mode : Mode} (outside : mode.left = mode) {text : List Char}
    (opens : OpensFrom mode text) : ∃ closed, .comment closed ∈ itemsFrom mode text := by
  induction text generalizing mode with
  | nil => exact absurd opens (not_opensFrom_nil mode)
  | cons c rest ih =>
    have later (opens : OpensFrom (mode.next c) rest) := ih (mode.left_next c) opens
    rw [opensFrom_cons] at opens
    cases mode with
    | plain =>
      -- Either the comment starts right here, or the scan goes on to where it does.
      by_cases here : c = '/' ∧ (rest.head? = some '/' ∨ rest.head? = some '*')
      · obtain ⟨rfl, line | block⟩ := here
        · obtain ⟨rest, rfl⟩ := List.head?_eq_some_iff.mp line
          have inside : Mode.lineComment.left ≠ .lineComment := nofun
          exact exists_comment inside rest
        · obtain ⟨rest, rfl⟩ := List.head?_eq_some_iff.mp block
          have inside : (Mode.blockComment false).left ≠ .blockComment false := nofun
          exact exists_comment inside rest
      · obtain ⟨closed, told⟩ := later (opens.resolve_left fun opener => here opener.2)
        have other : c = '/' → rest.head? ≠ some '/' ∧ rest.head? ≠ some '*' := fun slash =>
          not_or.mp fun opener => here ⟨slash, opener⟩
        rw [itemsFrom_plain_cons other]
        exact ⟨closed, List.mem_cons_of_mem _ told⟩
    | literal =>
      obtain ⟨closed, told⟩ := later (opens.resolve_left nofun)
      rw [(itemsFrom_cons c rest).1]
      exact ⟨closed, List.mem_cons_of_mem _ told⟩
    | escaped =>
      obtain ⟨closed, told⟩ := later (opens.resolve_left nofun)
      rw [(itemsFrom_cons c rest).2.1]
      exact ⟨closed, List.mem_cons_of_mem _ told⟩
    | lineComment => cases outside
    | blockComment star => cases outside

/-! ### What is left of a text -/

/-- What comes first and is no slash is still first. -/
theorem head?_stripFrom {rest : List Char} (other : rest.head? ≠ some '/') :
    (stripFrom .plain rest).head? = rest.head? := by
  cases rest with
  | nil => rfl
  | cons c rest =>
    rw [stripFrom_plain_cons fun slash => other (congrArg some slash)]
    rfl

/-- The scan of what is left of a text tells the same characters, inside and outside of literals,
as that of the text: what follows a slash in it starts no comment, as it followed it before. -/
theorem itemsFrom_stripFrom (mode : Mode) (text : List Char) :
    itemsFrom mode.left (stripFrom mode text) = (itemsFrom mode text).filter Item.isLetter := by
  fun_induction itemsFrom mode text with
  | case1 => rfl
  | case2 => rfl
  | case3 mode _ _ =>
    rw [stripFrom_nil]
    cases mode <;> rfl
  -- Nothing is left of what starts a comment.
  | case4 rest ih => exact ih
  | case5 rest ih => exact ih
  | case6 c rest notLine notBlock ih =>
    change itemsFrom (Mode.next .plain c).left (stripFrom (Mode.next .plain c) rest) = _ at ih
    rw [Mode.left_next] at ih
    have other : c = '/' → (stripFrom (Mode.next .plain c) rest).head? ≠ some '/' ∧
        (stripFrom (Mode.next .plain c) rest).head? ≠ some '*' := by
      rintro rfl
      have noSlash : rest.head? ≠ some '/' := fun slash => by
        obtain ⟨tail, after⟩ := List.head?_eq_some_iff.mp slash
        exact notLine tail rfl after
      have noStar : rest.head? ≠ some '*' := fun star => by
        obtain ⟨tail, after⟩ := List.head?_eq_some_iff.mp star
        exact notBlock tail rfl after
      -- What follows the slash is kept, so the same stands behind it in what is left.
      rw [← head?_stripFrom noSlash] at noStar noSlash
      exact ⟨noSlash, noStar⟩
    rw [stripFrom]
    · change itemsFrom .plain (c :: stripFrom (Mode.next .plain c) rest) = _
      rw [itemsFrom_plain_cons other, List.filter_cons_of_pos rfl, ← ih]
      rfl
    · exact notLine
    · exact notBlock
  | case7 c rest ih =>
    change itemsFrom (Mode.next .literal c).left (stripFrom (Mode.next .literal c) rest) = _ at ih
    rw [Mode.left_next] at ih
    rw [(stripFrom_cons c rest).1, List.filter_cons_of_pos rfl, ← ih]
    exact (itemsFrom_cons c _).1
  | case8 c rest ih =>
    rw [(stripFrom_cons c rest).2.1, List.filter_cons_of_pos rfl, ← ih]
    exact (itemsFrom_cons c _).2.1
  | case9 c rest newline ih =>
    -- The newline that ends a comment is no part of it.
    rw [stripFrom_lineComment_cons, if_pos newline, List.filter_cons_of_neg (by decide),
      List.filter_cons_of_pos rfl, ← ih, beq_iff_eq.mp newline]
    apply itemsFrom_plain_cons
    intro same
    exact absurd same (by decide)
  | case10 c rest other ih => rw [stripFrom_lineComment_cons, if_neg other, ← ih]
  | case11 star c rest ends ih =>
    rw [stripFrom_blockComment_cons, if_pos ends, List.filter_cons_of_neg (by decide), ← ih]
    rfl
  | case12 star c rest other ih =>
    rw [stripFrom_blockComment_cons, if_neg other, ← ih]
    rfl

theorem not_opensComment_stripComments (text : List Char) :
    ¬ OpensComment (stripComments text) := by
  intro opens
  obtain ⟨closed, told⟩ := exists_comment_of_opensFrom rfl opens
  have left : itemsFrom .plain (stripComments text) = (itemsFrom .plain text).filter Item.isLetter :=
    itemsFrom_stripFrom .plain text
  rw [left] at told
  cases (List.mem_filter.mp told).2

/-- There is nothing to remove exactly where no comment starts. -/
theorem stripComments_eq_self_iff (text : List Char) :
    stripComments text = text ↔ ¬ OpensComment text := by
  constructor
  · intro same
    exact same ▸ not_opensComment_stripComments text
  · intro opensNone
    rw [stripComments, stripFrom_eq_filled, itemsFrom_of_not_opensFrom rfl opensNone,
      filled_lettersFrom]

/-- Removing comments leaves none, in any text: outside of literals, as quotes and backslashes alone
delimit them, no two slashes and no slash and star stand together in what is left. What is left are
the characters of the text outside of comments, and those stand in literals that stood in literals.
So removing comments again changes nothing. -/
theorem stripComments_commentFree (text : List Char) :
    ¬ OpensComment (stripComments text) ∧
      lettersFrom .plain (stripComments text) = (itemsFrom .plain text).filter Item.isLetter ∧
      stripComments (stripComments text) = stripComments text := by
  have opensNone := not_opensComment_stripComments text
  refine ⟨opensNone, ?_, (stripComments_eq_self_iff _).mpr opensNone⟩
  rw [← itemsFrom_of_not_opensFrom rfl opensNone]
  exact itemsFrom_stripFrom .plain text

/-- The slash after a comment stays: one right before it would have started a comment earlier. -/
example : stripComments "1 /**// \"//\" //**/ 2".toList = "1 / \"//\" ".toList := by decide +kernel

end UnusedMethods.Config
