import UnusedMethods.Proofs.GlobStem

/-!
# The texts that globs match

A piece of a glob stands for certain runs of bytes, whatever comes before and after them, and a glob
matches the texts that its pieces spell one after the other. The search for what may remain after a
piece finds exactly the rests of a text behind the runs that the piece stands for. It may keep one
of several rests of equal length, because all of them are ends of one text.
-/

namespace UnusedMethods.Glob

mutual

/-- The bytes that a piece may stand for. -/
inductive Spells : Piece → List UInt8 → Prop
  | literal (c : Char) : Spells (.literal c) (bytesOf c.toString)
  | any {b : UInt8} (within : b ≠ separator) : Spells .any [b]
  | star {run : List UInt8} (within : separator ∉ run) : Spells .star run
  | leadingNone : Spells .leading []
  | leadingDirs (dirs : List UInt8) : Spells .leading (dirs ++ [separator])
  | trailing (below : List UInt8) : Spells .trailing (separator :: below)
  | betweenNone : Spells .between [separator]
  | betweenDirs (dirs : List UInt8) : Spells .between (separator :: (dirs ++ [separator]))
  | charClass {negated : Bool} {ranges : List (Char × Char)} {b : UInt8}
      (member : inClass negated ranges b = true) : Spells (.charClass negated ranges) [b]
  | noOption {options : List (List Piece)} (blank : allBlank options = true) :
      Spells (.alternatives options) []
  | option {options : List (List Piece)} {option : List Piece} {run : List UInt8}
      (listed : option ∈ options) (written : piecesBlank option = false)
      (spells : SpellAll option run) : Spells (.alternatives options) run

/-- The bytes that pieces may stand for one after the other. -/
inductive SpellAll : List Piece → List UInt8 → Prop
  | nil : SpellAll [] []
  | cons {piece : Piece} {pieces : List Piece} {run rest : List UInt8} (first : Spells piece run)
      (others : SpellAll pieces rest) : SpellAll (piece :: pieces) (run ++ rest)

end

theorem spellAll_cons {piece : Piece} {pieces : List Piece} {text : List UInt8} :
    SpellAll (piece :: pieces) text ↔
      ∃ run rest, text = run ++ rest ∧ Spells piece run ∧ SpellAll pieces rest := by
  constructor
  · rintro ⟨⟩
    exact ⟨_, _, rfl, ‹_›, ‹_›⟩
  · rintro ⟨run, rest, rfl, first, others⟩
    exact .cons first others

theorem SpellAll.append {pieces more : List Piece} {text rest : List UInt8}
    (spells : SpellAll pieces text) (others : SpellAll more rest) :
    SpellAll (pieces ++ more) (text ++ rest) := by
  induction pieces generalizing text with
  | nil =>
    cases spells
    exact others
  | cons piece pieces ih =>
    obtain ⟨run, later, rfl, first, spells⟩ := spellAll_cons.mp spells
    rw [List.append_assoc]
    exact .cons first (ih spells)

/-- A text that several pieces spell is divided where the first of them end. -/
theorem SpellAll.split {pieces more : List Piece} {text : List UInt8}
    (spells : SpellAll (pieces ++ more) text) :
    ∃ front back, text = front ++ back ∧ SpellAll pieces front ∧ SpellAll more back := by
  induction pieces generalizing text with
  | nil => exact ⟨[], text, rfl, .nil, spells⟩
  | cons piece pieces ih =>
    obtain ⟨run, later, rfl, first, spells⟩ := spellAll_cons.mp spells
    obtain ⟨front, back, rfl, spells, others⟩ := ih spells
    exact ⟨run ++ front, back, by rw [List.append_assoc], .cons first spells, others⟩

/-- Literals spell the text that they stand for. -/
theorem spellAll_literals (letters : List Char) (text : List UInt8) :
    SpellAll (letters.map .literal) text ↔ text = bytesOf (String.ofList letters) := by
  induction letters generalizing text with
  | nil =>
    rw [List.map_nil, String.ofList_nil, bytesOf_empty]
    constructor
    · rintro ⟨⟩
      rfl
    · rintro rfl
      exact .nil
  | cons c letters ih =>
    have whole : bytesOf (String.ofList (c :: letters)) =
        bytesOf c.toString ++ bytesOf (String.ofList letters) := by
      rw [← bytesOf_append]
      congr 1
      rw [← String.toList_inj]
      simp
    rw [List.map_cons, spellAll_cons, whole]
    constructor
    · rintro ⟨run, rest, rfl, ⟨⟩, others⟩
      rw [(ih rest).mp others]
    · rintro rfl
      exact ⟨_, _, rfl, .literal c, (ih _).mpr rfl⟩

/-! ### What remains after a run -/

theorem mem_afterBytes (bytes text e : List UInt8) :
    e ∈ afterBytes bytes text ↔ text = bytes ++ e := by
  induction bytes generalizing text with
  | nil => cases text <;> simp [afterBytes, eq_comm]
  | cons b bytes ih =>
    cases text with
    | nil => simp [afterBytes]
    | cons c text =>
      rw [afterBytes]
      split
      next same => rw [ih, beq_iff_eq.mp same, List.cons_append, List.cons_inj_right]
      next differs => simp [show c ≠ b from fun same => differs (beq_iff_eq.mpr same.symm)]

theorem mem_afterStar (text e : List UInt8) :
    e ∈ afterStar text ↔ ∃ run, text = run ++ e ∧ separator ∉ run := by
  induction text with
  | nil => simp [afterStar, eq_comm]
  | cons b text ih =>
    have stays : (∃ run, b :: text = run ++ e ∧ separator ∉ run) ↔
        e = b :: text ∨ b ≠ separator ∧ ∃ run, text = run ++ e ∧ separator ∉ run := by
      constructor
      · rintro ⟨run, whole, within⟩
        cases run with
        | nil => exact .inl whole.symm
        | cons c run =>
          cases whole
          rw [List.mem_cons, not_or] at within
          exact .inr ⟨Ne.symm within.1, run, rfl, within.2⟩
      · rintro (rfl | ⟨other, run, rfl, within⟩)
        · exact ⟨[], rfl, List.not_mem_nil⟩
        · exact ⟨b :: run, rfl, by simp [Ne.symm other, within]⟩
    rw [stays, afterStar]
    split
    next same => simp [beq_iff_eq.mp same]
    next differs => simp [ih, show b ≠ separator from fun same => differs (beq_iff_eq.mpr same)]

theorem mem_afterSeparators (text e : List UInt8) :
    e ∈ afterSeparators text ↔ ∃ dirs, text = dirs ++ separator :: e := by
  induction text with
  | nil => simp [afterSeparators]
  | cons b text ih =>
    have cut : (∃ dirs, b :: text = dirs ++ separator :: e) ↔
        b = separator ∧ e = text ∨ ∃ dirs, text = dirs ++ separator :: e := by
      constructor
      · rintro ⟨dirs, whole⟩
        cases dirs with
        | nil =>
          cases whole
          exact .inl ⟨rfl, rfl⟩
        | cons c dirs =>
          cases whole
          exact .inr ⟨dirs, rfl⟩
      · rintro (⟨rfl, rfl⟩ | ⟨dirs, rfl⟩)
        · exact ⟨[], rfl⟩
        · exact ⟨b :: dirs, rfl⟩
    rw [cut, afterSeparators]
    split
    next same => simp [ih, beq_iff_eq.mp same]
    next differs => simp [ih, show b ≠ separator from fun same => differs (beq_iff_eq.mpr same)]

theorem mem_afterSeparator (text e : List UInt8) :
    e ∈ afterSeparator text ↔ text = separator :: e := by
  cases text with
  | nil => simp [afterSeparator]
  | cons b text =>
    rw [afterSeparator]
    split
    next same => simp [beq_iff_eq.mp same, eq_comm]
    next differs => simp [show b ≠ separator from fun same => differs (beq_iff_eq.mpr same)]

theorem mem_suffixes (text e : List UInt8) : e ∈ suffixes text ↔ ∃ before, text = before ++ e := by
  induction text with
  | nil => simp [suffixes, eq_comm]
  | cons b text ih =>
    rw [suffixes, List.mem_cons, ih]
    constructor
    · rintro (rfl | ⟨before, rfl⟩)
      · exact ⟨[], rfl⟩
      · exact ⟨b :: before, rfl⟩
    · rintro ⟨before, whole⟩
      cases before with
      | nil => exact .inl whole.symm
      | cons c before =>
        cases whole
        exact .inr ⟨before, rfl⟩

/-- Of the ends of one text none is lost. -/
theorem mem_distinctEnds {whole : List UInt8} {ends : List (List UInt8)}
    (suffix : ∀ e ∈ ends, e <:+ whole) (e : List UInt8) : e ∈ distinctEnds ends ↔ e ∈ ends := by
  refine ⟨mem_of_mem_distinctEnds ends e, fun member => ?_⟩
  obtain ⟨kept, there, same⟩ := exists_mem_distinctEnds ends e member
  have shorter := List.suffix_of_suffix_length_le
    (suffix kept (mem_of_mem_distinctEnds _ _ there)) (suffix e member) (Nat.le_of_eq same)
  exact shorter.eq_of_length same ▸ there

/-! ### What remains after pieces -/

theorem piecesBlank_of_allBlank {options : List (List Piece)} (blank : allBlank options = true)
    {option : List Piece} (listed : option ∈ options) : piecesBlank option = true := by
  induction options with
  | nil => cases listed
  | cons first options ih =>
    rw [allBlank, Bool.and_eq_true] at blank
    rcases List.mem_cons.mp listed with rfl | later
    · exact blank.1
    · exact ih blank.2 later

mutual

-- The three statements follow the recursion of `ends`, which goes through the options of a piece;
-- one case per constructor, and only `alternatives` uses the others.
theorem mem_ends (piece : Piece) (text e : List UInt8) :
    e ∈ piece.ends text ↔ ∃ run, text = run ++ e ∧ Spells piece run := by
  match piece with
  | .literal c =>
    rw [Piece.ends, mem_afterBytes]
    constructor
    · rintro rfl
      exact ⟨_, rfl, .literal c⟩
    · rintro ⟨_, rfl, spells⟩
      cases spells
      rfl
  | .any =>
    rw [Piece.ends.eq_def]
    constructor
    · intro member
      cases text with
      | nil => cases member
      | cons b rest =>
        simp only at member
        split at member
        · cases member
        next differs =>
          rw [List.mem_singleton.mp member]
          exact ⟨[b], rfl, .any fun same => differs (beq_iff_eq.mpr same)⟩
    · rintro ⟨_, rfl, spells⟩
      cases spells with
      | any within => simp [within]
  | .star =>
    rw [Piece.ends, mem_afterStar]
    constructor
    · rintro ⟨run, rfl, within⟩
      exact ⟨run, rfl, .star within⟩
    · rintro ⟨run, rfl, spells⟩
      cases spells with
      | star within => exact ⟨run, rfl, within⟩
  | .leading =>
    rw [Piece.ends, List.mem_cons, mem_afterSeparators]
    constructor
    · rintro (rfl | ⟨dirs, rfl⟩)
      · exact ⟨[], rfl, .leadingNone⟩
      · exact ⟨dirs ++ [separator], by simp, .leadingDirs dirs⟩
    · rintro ⟨_, rfl, spells⟩
      cases spells with
      | leadingNone => exact .inl rfl
      | leadingDirs dirs => exact .inr ⟨dirs, by simp⟩
  | .trailing =>
    rw [Piece.ends, List.mem_flatMap]
    constructor
    · rintro ⟨below, here, later⟩
      rw [mem_afterSeparator] at here
      obtain ⟨before, rfl⟩ := (mem_suffixes _ _).mp later
      exact ⟨separator :: before, here, .trailing before⟩
    · rintro ⟨_, rfl, spells⟩
      cases spells with
      | trailing before =>
        exact ⟨before ++ e, (mem_afterSeparator _ _).mpr rfl,
          (mem_suffixes _ _).mpr ⟨before, rfl⟩⟩
  | .between =>
    rw [Piece.ends, List.mem_flatMap]
    constructor
    · rintro ⟨below, here, later⟩
      rw [mem_afterSeparator] at here
      rw [List.mem_cons, mem_afterSeparators] at later
      rcases later with rfl | ⟨dirs, rfl⟩
      · exact ⟨[separator], here, .betweenNone⟩
      · exact ⟨separator :: (dirs ++ [separator]), by simp [here], .betweenDirs dirs⟩
    · rintro ⟨_, rfl, spells⟩
      cases spells with
      | betweenNone => exact ⟨e, (mem_afterSeparator _ _).mpr rfl, List.mem_cons_self⟩
      | betweenDirs dirs =>
        refine ⟨dirs ++ separator :: e, (mem_afterSeparator _ _).mpr (by simp), ?_⟩
        exact List.mem_cons_of_mem _ ((mem_afterSeparators _ _).mpr ⟨dirs, rfl⟩)
  | .charClass negated ranges =>
    rw [Piece.ends.eq_def]
    constructor
    · intro member
      cases text with
      | nil => cases member
      | cons b rest =>
        simp only at member
        split at member
        next inside =>
          rw [List.mem_singleton.mp member]
          exact ⟨[b], rfl, .charClass inside⟩
        · cases member
    · rintro ⟨_, rfl, spells⟩
      cases spells with
      | charClass inside => simp [inside]
  | .alternatives options =>
    rw [Piece.ends]
    split
    next blank =>
      rw [List.mem_singleton]
      constructor
      · rintro rfl
        exact ⟨[], rfl, .noOption blank⟩
      · rintro ⟨_, rfl, spells⟩
        cases spells with
        | noOption => rfl
        | option listed written =>
          rw [piecesBlank_of_allBlank blank listed] at written
          cases written
    next some_ =>
      rw [mem_optionEnds options text e]
      constructor
      · rintro ⟨option, listed, written, run, rfl, spells⟩
        exact ⟨run, rfl, .option listed written spells⟩
      · rintro ⟨_, rfl, spells⟩
        cases spells with
        | noOption blank => exact absurd blank some_
        | option listed written spells => exact ⟨_, listed, written, _, rfl, spells⟩

theorem mem_pieceEnds (pieces : List Piece) (whole : List UInt8) (texts : List (List UInt8))
    (suffix : ∀ text ∈ texts, text <:+ whole) (e : List UInt8) :
    e ∈ pieceEnds pieces texts ↔
      ∃ text ∈ texts, ∃ run, text = run ++ e ∧ SpellAll pieces run := by
  match pieces with
  | [] =>
    rw [pieceEnds]
    constructor
    · intro member
      exact ⟨e, member, [], rfl, .nil⟩
    · rintro ⟨_, member, _, rfl, ⟨⟩⟩
      exact member
  | piece :: pieces =>
    -- Ends are told apart by length alone, which is enough among the ends of one text.
    have later : ∀ text ∈ texts.flatMap piece.ends, text <:+ whole := by
      intro text member
      obtain ⟨before, listed, left⟩ := List.mem_flatMap.mp member
      obtain ⟨run, rfl, _⟩ := (mem_ends piece before text).mp left
      exact (List.suffix_append run text).trans (suffix _ listed)
    have kept : ∀ text ∈ distinctEnds (texts.flatMap piece.ends), text <:+ whole :=
      fun text member => later text (mem_of_mem_distinctEnds _ _ member)
    rw [pieceEnds, mem_pieceEnds pieces whole _ kept e]
    simp only [mem_distinctEnds later, List.mem_flatMap]
    constructor
    · rintro ⟨_, ⟨before, listed, left⟩, rest, rfl, others⟩
      obtain ⟨run, rfl, first⟩ := (mem_ends piece before _).mp left
      exact ⟨_, listed, run ++ rest, by rw [List.append_assoc], .cons first others⟩
    · rintro ⟨_, listed, _, rfl, spells⟩
      obtain ⟨run, rest, rfl, first, others⟩ := spellAll_cons.mp spells
      refine ⟨rest ++ e, ⟨_, listed, ?_⟩, rest, rfl, others⟩
      exact (mem_ends piece _ _).mpr ⟨run, by rw [List.append_assoc], first⟩

theorem mem_optionEnds (options : List (List Piece)) (text e : List UInt8) :
    e ∈ optionEnds options text ↔
      ∃ option ∈ options, piecesBlank option = false ∧
        ∃ run, text = run ++ e ∧ SpellAll option run := by
  match options with
  | [] => simp [optionEnds]
  | option :: options =>
    have first := mem_pieceEnds option text [text] (by simp) e
    simp only [List.mem_singleton, exists_eq_left] at first
    rw [optionEnds, List.mem_append, mem_optionEnds options text e]
    cases blank : piecesBlank option with
    | true => simp [blank]
    | false => simp [blank, first]

end

/-- What a glob matches is what its pieces spell, unless it is tried by a file name that the text
does not have. Two stars alone match everything. -/
theorem matchesPieces_iff (pieces : List Piece) (text : String) :
    matchesPieces pieces text = true ↔ pieces = [.leading] ∨
      SpellAll pieces (bytesOf text) ∧ ¬ (needsFileName pieces = true ∧ endsInUp text = true) := by
  have found : (pieceEnds pieces [bytesOf text]).any List.isEmpty = true ↔
      SpellAll pieces (bytesOf text) := by
    have ends := mem_pieceEnds pieces (bytesOf text) [bytesOf text] (by simp) []
    simp only [List.mem_singleton, exists_eq_left, List.append_nil] at ends
    simp only [List.any_eq_true, List.isEmpty_iff, exists_eq_right, ends]
    exact exists_eq_left'
  unfold matchesPieces
  split
  · simp
  next other =>
    rw [or_iff_right other, Bool.and_eq_true, found, Bool.not_eq_true', ← Bool.not_eq_true,
      Bool.and_eq_true]

end UnusedMethods.Glob
