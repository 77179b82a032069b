import UnusedMethods.Proofs.GlobSet
import UnusedMethods.Proofs.TextBytes

/-!
# Globs below a stem

A glob that begins with a stem of plain characters and a separator says about the texts below the
stem what the rest of it, from the separator on, says about the rest of the texts. The two readings
run side by side: the stem lies, as literals, under the piece that the separator made, and nothing
that is read later reaches under that piece.
-/

namespace UnusedMethods.Glob

/-- A piece that a separator at the start of a glob makes, alone or with the stars after it. -/
inductive IsJoint : Piece → Prop
  | slash : IsJoint (.literal '/')
  | between : IsJoint .between
  | trailing : IsJoint .trailing

theorem IsJoint.absorb {joint : Piece} (isJoint : IsJoint joint) (atEnd : Bool) :
    IsJoint (Glob.absorb atEnd joint) := by
  cases isJoint with
  | slash => cases atEnd <;> constructor
  | between => cases atEnd <;> constructor
  | trailing => constructor

/-! ### Reading upon a base -/

/-- The same levels, but with more pieces under the joint at the bottom of the outermost one. -/
inductive LevelsUpon (base : List Piece) : List Level → List Level → Prop
  | outermost (finished : List (List Piece)) (current : List Piece) {joint : Piece}
      (isJoint : IsJoint joint) :
      LevelsUpon base [⟨finished, current ++ [joint]⟩] [⟨finished, current ++ joint :: base⟩]
  | inner (level : Level) {outer outer' : List Level} (beyond : LevelsUpon base outer outer') :
      LevelsUpon base (level :: outer) (level :: outer')

/-- The same state, but with more pieces under the joint that the glob starts with. -/
structure State.Upon (base : List Piece) (s s' : State) : Prop where
  levels : LevelsUpon base (s.level :: s.outer) (s'.level :: s'.outer)
  previous : s'.previous = s.previous

namespace State.Upon

variable {base : List Piece} {s s' : State}

theorem outer_isEmpty (upon : Upon base s s') : s'.outer.isEmpty = s.outer.isEmpty := by
  obtain ⟨level, outer, previous⟩ := s
  obtain ⟨level', outer', previous'⟩ := s'
  cases upon.levels with
  | outermost => rfl
  | inner level beyond => cases beyond <;> rfl

theorem current_isEmpty (upon : Upon base s s') :
    s'.level.current.isEmpty = s.level.current.isEmpty := by
  obtain ⟨level, outer, previous⟩ := s
  obtain ⟨level', outer', previous'⟩ := s'
  cases upon.levels with
  | outermost finished current isJoint => cases current <;> rfl
  | inner level beyond => rfl

theorem withPrevious (upon : Upon base s s') (c : Option Char) :
    Upon base { s with previous := c } { s' with previous := c } :=
  ⟨upon.levels, rfl⟩

theorem push (upon : Upon base s s') (piece : Piece) :
    Upon base (s.push piece) (s'.push piece) := by
  refine ⟨?_, upon.previous⟩
  obtain ⟨level, outer, previous⟩ := s
  obtain ⟨level', outer', previous'⟩ := s'
  cases upon.levels with
  | outermost finished current isJoint => exact .outermost finished (piece :: current) isJoint
  | inner level beyond => exact .inner _ beyond

/-- Stars absorb the separator before them, at most the joint itself. -/
theorem replaceLast (upon : Upon base s s') (atEnd : Bool) :
    Upon base (s.replaceLast (absorb atEnd)) (s'.replaceLast (absorb atEnd)) := by
  obtain ⟨level, outer, previous⟩ := s
  obtain ⟨level', outer', previous'⟩ := s'
  cases upon.levels with
  | outermost finished current isJoint =>
    -- Only with nothing read after the joint is the joint itself the last piece.
    cases current with
    | nil => exact ⟨.outermost finished [] (isJoint.absorb atEnd), upon.previous⟩
    | cons last current => exact ⟨.outermost finished (_ :: current) isJoint, upon.previous⟩
  | inner level beyond =>
    obtain ⟨finished, current⟩ := level
    cases current with
    | nil => exact upon
    | cons last current => exact ⟨.inner _ beyond, upon.previous⟩

theorem pushStars (upon : Upon base s s') {follower : Option Char} {next : State} {taken : Bool}
    (stars : s.pushStars follower = (next, taken)) :
    ∃ next', s'.pushStars follower = (next', taken) ∧ Upon base next next' := by
  suffices both : Upon base (s.pushStars follower).1 (s'.pushStars follower).1 ∧
      (s'.pushStars follower).2 = (s.pushStars follower).2 by
    rw [stars] at both
    exact ⟨_, Prod.ext rfl both.2, both.1⟩
  -- How stars are read is decided by what both states share.
  simp only [State.pushStars, upon.current_isEmpty, upon.outer_isEmpty, upon.previous]
  split
  · split
    · exact ⟨upon.push _, rfl⟩
    · exact ⟨upon.push _, rfl⟩
    · exact ⟨(upon.push _).push _, rfl⟩
  · split
    · exact ⟨(upon.push _).push _, rfl⟩
    · split
      · exact ⟨upon.replaceLast _, rfl⟩
      · exact ⟨upon.replaceLast _, rfl⟩
      · split
        · exact ⟨upon.replaceLast _, rfl⟩
        · exact ⟨(upon.push _).push _, rfl⟩

theorem opens (upon : Upon base s s') (c : Option Char) :
    Upon base ⟨⟨[], []⟩, s.level :: s.outer, c⟩ ⟨⟨[], []⟩, s'.level :: s'.outer, c⟩ :=
  ⟨.inner _ upon.levels, rfl⟩

theorem closes (upon : Upon base s s') {level : Level} {outer : List Level}
    (nested : s.outer = level :: outer) (c : Option Char) :
    ∃ level' outer', s'.level = s.level ∧ s'.outer = level' :: outer' ∧
      Upon base ⟨level, outer, c⟩ ⟨level', outer', c⟩ := by
  obtain ⟨_, _, previous⟩ := s
  obtain ⟨_, _, previous'⟩ := s'
  cases nested
  -- The level that is closed is not the outermost, so it is the same in both.
  cases upon.levels with
  | inner _ beyond =>
    cases beyond with
    | outermost finished current isJoint =>
      exact ⟨_, _, rfl, rfl, .outermost finished current isJoint, rfl⟩
    | inner _ further => exact ⟨_, _, rfl, rfl, .inner _ further, rfl⟩

/-- Inside braces both states have the same innermost level. -/
theorem changeInner (upon : Upon base s s') (nested : s.outer.isEmpty = false)
    (f : Level → Level) (c : Option Char) :
    Upon base ⟨f s.level, s.outer, c⟩ ⟨f s'.level, s'.outer, c⟩ := by
  obtain ⟨_, _, previous⟩ := s
  obtain ⟨_, _, previous'⟩ := s'
  cases upon.levels with
  | outermost => cases nested
  | inner level beyond => exact ⟨.inner _ beyond, rfl⟩

end State.Upon

/-- Two readings that fail alike, or give the same pieces from a joint on, the second with more
pieces before it. -/
def EndUpon (base : List Piece) (result result' : Except Problem (List Piece)) : Prop :=
  (∃ problem, result = .error problem ∧ result' = .error problem) ∨
    ∃ joint pieces, IsJoint joint ∧ result = .ok (joint :: pieces) ∧
      result' = .ok (base.reverse ++ joint :: pieces)

theorem readFrom_upon {base : List Piece} (s s' : State) (upon : s.Upon base s') (cs : List Char) :
    EndUpon base (readFrom s cs) (readFrom s' cs) := by
  -- Each case reads one character, or one group of them, and the states after it are alike again.
  fun_induction readFrom s cs generalizing s' with
  | case1 s whole =>
    rw [readFrom.eq_def s']
    simp only [upon.outer_isEmpty, whole, if_true]
    obtain ⟨level, outer, previous⟩ := s
    obtain ⟨level', outer', previous'⟩ := s'
    cases upon.levels with
    | outermost finished current isJoint =>
      exact .inr ⟨_, current.reverse, isJoint, by simp, by simp⟩
    | inner level beyond =>
      cases List.isEmpty_iff.mp whole
      cases beyond
  | case2 s nested =>
    rw [readFrom.eq_def s']
    simp only [upon.outer_isEmpty, nested]
    exact .inl ⟨_, rfl, rfl⟩
  | case3 s c rest after _ ih =>
    rw [readFrom.eq_def s']
    simp only [*, if_true]
    exact ih _ ((upon.withPrevious _).push _)
  | case4 s c _ _ tail next stars ih =>
    obtain ⟨next', stars', beyond⟩ := upon.pushStars stars
    rw [readFrom.eq_def s']
    simp only [*, Bool.false_eq_true, if_false, if_true]
    exact ih _ (beyond.withPrevious _)
  | case5 s c _ _ tail next stars ih =>
    obtain ⟨next', stars', beyond⟩ := upon.pushStars stars
    rw [readFrom.eq_def s']
    simp only [*, Bool.false_eq_true, if_false, if_true]
    exact ih _ (beyond.withPrevious _)
  | case6 s c after _ _ other _ ih =>
    rw [readFrom.eq_def s']
    simp only [*, Bool.false_eq_true, if_false, if_true]
    exact ih _ ((upon.withPrevious _).push _)
  | case7 s c rest _ _ _ negated body problem read =>
    rw [readFrom.eq_def s']
    simp only [*, Bool.false_eq_true, if_false, if_true]
    split
    next read' =>
      cases read.symm.trans read'
      exact .inl ⟨_, rfl, rfl⟩
    next read' => cases read.symm.trans read'
  | case8 s c rest _ _ _ negated body ranges tail read shorter ih =>
    rw [readFrom.eq_def s']
    simp only [*, Bool.false_eq_true, if_false, if_true]
    split
    next read' => cases read.symm.trans read'
    next read' =>
      cases read.symm.trans read'
      exact ih _ ((upon.withPrevious _).push _)
  | case9 s c rest _ _ _ _ ih =>
    rw [readFrom.eq_def s']
    simp only [*, Bool.false_eq_true, if_false, if_true]
    exact ih _ (upon.opens _)
  | case10 s c rest _ _ _ _ _ whole =>
    have whole' : s'.outer = [] := by
      rw [← List.isEmpty_iff, upon.outer_isEmpty, whole]
      rfl
    rw [readFrom.eq_def s']
    simp only [*, Bool.false_eq_true, if_false, if_true]
    exact .inl ⟨_, rfl, rfl⟩
  | case11 s c rest _ _ _ _ _ level outer nested options ih =>
    obtain ⟨level', outer', same, nested', beyond⟩ := upon.closes nested (some c)
    simp only [options, List.unattach_reverse, List.unattach_attach] at ih
    rw [readFrom.eq_def s']
    simp only [*, Bool.false_eq_true, if_false, if_true]
    exact ih _ (beyond.push _)
  | case12 s c rest after _ _ _ _ _ nested ih =>
    rw [Bool.and_eq_true, Bool.not_eq_true'] at nested
    rw [List.unattach_reverse, List.unattach_attach] at ih
    rw [readFrom.eq_def s']
    simp only [*, upon.outer_isEmpty, Bool.false_eq_true, if_false]
    exact ih _ (upon.changeInner nested.2
      (fun level => ⟨level.current.reverse :: level.finished, []⟩) _)
  | case13 s c _ _ _ _ _ _ _ =>
    rw [readFrom.eq_def s']
    simp only [*, upon.outer_isEmpty, Bool.false_eq_true, if_false, if_true]
    exact .inl ⟨_, rfl, rfl⟩
  | case14 s c _ _ _ _ _ _ _ e tail ih =>
    rw [readFrom.eq_def s']
    simp only [*, upon.outer_isEmpty, Bool.false_eq_true, if_false, if_true]
    exact ih _ ((upon.withPrevious _).push _)
  | case15 s c rest after _ _ _ _ _ _ _ ih =>
    rw [readFrom.eq_def s']
    simp only [*, upon.outer_isEmpty, Bool.false_eq_true, if_false]
    exact ih _ ((upon.withPrevious _).push _)

/-! ### Plain characters -/

/-- A character that means something in a glob wherever it stands. -/
def isSpecial (c : Char) : Bool :=
  ['*', '?', '[', '\x7b', '\x7d', '\\'].contains c

theorem readFrom_plain (s : State) (whole : s.outer = []) (c : Char) (plain : isSpecial c = false)
    (rest : List Char) :
    readFrom s (c :: rest) = readFrom ({ s with previous := some c }.push (.literal c)) rest := by
  simp only [isSpecial, List.contains_cons, List.contains_nil, Bool.or_false,
    Bool.or_eq_false_iff] at plain
  rw [readFrom.eq_def]
  simp [plain, whole]

/-- Plain characters are read one by one, outside braces, and only the last is remembered. -/
theorem readFrom_plains (s : State) (whole : s.outer = []) (stem : List Char)
    (plain : ∀ c ∈ stem, isSpecial c = false) (rest : List Char) :
    readFrom s (stem ++ rest) =
      readFrom ⟨⟨s.level.finished, (stem.map .literal).reverse ++ s.level.current⟩, [],
        stem.getLast?.or s.previous⟩ rest := by
  induction stem generalizing s with
  | nil =>
    obtain ⟨⟨finished, current⟩, outer, previous⟩ := s
    cases whole
    rfl
  | cons c stem ih =>
    have later : ∀ c ∈ stem, isSpecial c = false := fun c member =>
      plain c (List.mem_cons_of_mem _ member)
    rw [List.cons_append, readFrom_plain s whole c (plain c List.mem_cons_self)]
    refine (ih (State.push { s with previous := some c } (.literal c)) whole later).trans ?_
    simp [State.push, List.getLast?_cons]

/-- A text of plain characters stands for itself. -/
theorem parse_plains (stem : String) (plain : ∀ c ∈ stem.toList, isSpecial c = false) :
    parse stem = .ok (stem.toList.map .literal) := by
  have read := readFrom_plains ⟨⟨[], []⟩, [], none⟩ rfl stem.toList plain []
  rw [List.append_nil] at read
  rw [parse, read, readFrom]
  simp

/-- A stem before a separator only adds literals in front. -/
theorem parse_stem (stem : String) (plain : ∀ c ∈ stem.toList, isSpecial c = false)
    (rest : String) :
    EndUpon (stem.toList.map .literal).reverse (parse ("/" ++ rest))
      (parse (stem ++ "/" ++ rest)) := by
  have slash : isSpecial '/' = false := by decide
  have alone : parse ("/" ++ rest) =
      readFrom ⟨⟨[], [.literal '/']⟩, [], some '/'⟩ rest.toList := by
    rw [parse, String.toList_append]
    exact readFrom_plain ⟨⟨[], []⟩, [], none⟩ rfl '/' slash rest.toList
  have after : parse (stem ++ "/" ++ rest) =
      readFrom ⟨⟨[], .literal '/' :: (stem.toList.map .literal).reverse⟩, [], some '/'⟩
        rest.toList := by
    rw [parse, String.append_assoc, String.toList_append, readFrom_plains _ rfl _ plain,
      String.toList_append]
    simp only [List.append_nil]
    exact readFrom_plain ⟨⟨[], _⟩, [], _⟩ rfl '/' slash rest.toList
  rw [alone, after]
  apply readFrom_upon
  exact ⟨.outermost [] [] .slash, rfl⟩

/-! ### Plans and depths -/

theorem piecesDepth_literals (stem : List Char) (pieces : List Piece) :
    piecesDepth (stem.map .literal ++ pieces) = piecesDepth pieces := by
  induction stem with
  | nil => rfl
  | cons c stem ih => simpa [piecesDepth, Piece.depth] using ih

theorem isSome_chars_cons (piece : Piece) (pieces : List Piece) :
    (chars? (piece :: pieces)).isSome = (piece.char?.isSome && (chars? pieces).isSome) := by
  cases char : piece.char? with
  | none => simp [chars?, char]
  | some c => cases rest : List.mapM Piece.char? pieces <;> simp [chars?, char, rest]

theorem isSome_chars_literals (stem : List Char) (pieces : List Piece) :
    (chars? (stem.map .literal ++ pieces)).isSome = (chars? pieces).isSome := by
  induction stem with
  | nil => rfl
  | cons c stem ih =>
    rw [List.map_cons, List.cons_append, isSome_chars_cons, ih]
    rfl

/-- A character that may follow the last dot of an ending. -/
def Piece.isEndChar (piece : Piece) : Bool :=
  match piece.char? with
  | some c => c != '.' && c != '/'
  | none => false

theorem head_drop_takeWhile {α : Type} (test : α → Bool) (xs : List α) :
    (xs.drop (xs.takeWhile test).length).head? = xs.find? (!test ·) := by
  induction xs with
  | nil => rfl
  | cons x xs ih => cases taken : test x <;> simp [taken, ih]

theorem endsInDot_eq (pieces : List Piece) :
    endsInDot pieces = match pieces.reverse.find? (!·.isEndChar) with
      | some (.literal c) => c == '.'
      | _ => false := by
  rw [← head_drop_takeWhile]
  rfl

section Joint

variable {joint : Piece} (isJoint : IsJoint joint) (pieces : List Piece)
include isJoint

/-- The search for the last dot ends at the joint at the latest. -/
theorem endsInDot_joint (base : List Piece) :
    endsInDot (base ++ joint :: pieces) = endsInDot (joint :: pieces) := by
  have stops : (!joint.isEndChar) = true := by cases isJoint <;> rfl
  simp [endsInDot_eq, List.find?_append, stops]

theorem planOf_joint (stem : List Char) :
    planOf (stem.map .literal ++ joint :: pieces) = planOf (joint :: pieces) := by
  -- A plan depends on the first piece, on the last ones and on whether all others are characters:
  -- literals in front of the joint change none of that.
  have last : (stem.map Piece.literal ++ joint :: pieces).getLast? = (joint :: pieces).getLast? :=
    List.getLast?_append_cons _ _ _
  have before : (chars? (stem.map Piece.literal ++ joint :: pieces).dropLast).isSome =
      (chars? (joint :: pieces).dropLast).isSome := by
    rw [List.dropLast_append_of_ne_nil (List.cons_ne_nil _ _), isSome_chars_literals]
  have all := isSome_chars_literals stem (joint :: pieces)
  have dot := endsInDot_joint isJoint pieces (stem.map .literal)
  cases stem with
  | nil => rfl
  | cons c stem =>
    simp only [List.map_cons, List.cons_append] at last before all dot ⊢
    cases isJoint <;> simp [planOf, last, before, all, dot, isEnding]

theorem needsFileName_joint (stem : List Char) :
    needsFileName (stem.map .literal ++ joint :: pieces) = needsFileName (joint :: pieces) := by
  have plan := planOf_joint isJoint pieces stem
  cases stem with
  | nil => rfl
  | cons c stem =>
    simp only [List.map_cons, List.cons_append] at plan ⊢
    cases isJoint <;> simp [needsFileName, plan, isEnding]

theorem isRefused_joint (stem : List Char) :
    isRefused (stem.map .literal ++ joint :: pieces) = isRefused (joint :: pieces) := by
  simp only [isRefused, planOf_joint isJoint, isTooDeep, piecesDepth_literals]

end Joint

/-! ### Matching -/

theorem bytesOf_append (text more : String) :
    bytesOf (text ++ more) = bytesOf text ++ bytesOf more := by
  simp [bytesOf, Text.toList_eq_data, String.toUTF8]

theorem bytesOf_empty : bytesOf "" = [] := by
  simp [bytesOf, String.toUTF8]

theorem afterBytes_append (bytes rest : List UInt8) :
    afterBytes bytes (bytes ++ rest) = [rest] := by
  induction bytes with
  | nil => cases rest <;> rfl
  | cons b bytes ih => simp [afterBytes, ih]

/-- Literals take their own bytes off a text. -/
theorem pieceEnds_literals (stem : List Char) (pieces : List Piece) (rest : List UInt8) :
    pieceEnds (stem.map .literal ++ pieces) [bytesOf (String.ofList stem) ++ rest] =
      pieceEnds pieces [rest] := by
  induction stem with
  | nil => simp [bytesOf_empty]
  | cons c stem ih =>
    have split : String.ofList (c :: stem) = c.toString ++ String.ofList stem := by
      rw [← String.toList_inj]
      simp
    rw [← ih, split, bytesOf_append]
    simp [pieceEnds, Piece.ends, afterBytes_append, distinctEnds]

theorem endsInUp_iff (text : String) :
    endsInUp text = true ↔ text.toList = ['.', '.'] ∨ ['/', '.', '.'] <:+ text.toList := by
  rw [endsInUp, Bool.or_eq_true, beq_iff_eq, ← String.toList_inj, ← String.endsWith_toSlice,
    String.Slice.endsWith_string_iff, String.copy_toSlice]
  rfl

theorem endsInUp_append_iff (stem rest : String) :
    endsInUp (stem ++ "/" ++ rest) = true ↔
      ['.', '.', '/'] <+: rest.toList.reverse ++ '/' :: stem.toList.reverse := by
  have other : (stem ++ "/" ++ rest).toList ≠ ['.', '.'] := by
    intro same
    have slash : '/' ∈ (stem ++ "/" ++ rest).toList := by simp
    rw [same] at slash
    simp at slash
  rw [endsInUp_iff, or_iff_right other, ← List.reverse_prefix]
  simp

/-- Whether a text ends in `..` is seen behind its last separator. -/
theorem endsInUp_append (stem rest : String) :
    endsInUp (stem ++ "/" ++ rest) = endsInUp ("/" ++ rest) := by
  -- Seen from the end, three characters do not reach past the separator.
  have near (after before : List Char) :
      ['.', '.', '/'] <+: after ++ '/' :: before ↔ ['.', '.', '/'] <+: after ++ ['/'] := by
    match after with
    | [] => simp
    | [_] => simp
    | [_, _] => simp
    | _ :: _ :: _ :: _ => simp
  rw [Bool.eq_iff_iff, endsInUp_append_iff, near, ← String.empty_append (s := "/"),
    endsInUp_append_iff]
  exact (near _ _).symm

/-- Literals in front of a joint match the stem that they spell. -/
theorem matchesPieces_joint (stem : String) {joint : Piece} (isJoint : IsJoint joint)
    (pieces : List Piece) (rest : String) :
    matchesPieces (stem.toList.map .literal ++ joint :: pieces) (stem ++ "/" ++ rest) =
      matchesPieces (joint :: pieces) ("/" ++ rest) := by
  have ends := pieceEnds_literals stem.toList (joint :: pieces) (bytesOf ("/" ++ rest))
  rw [String.ofList_toList, ← bytesOf_append, ← String.append_assoc] at ends
  have unfolded (base : List Piece) (text : String) :
      matchesPieces (base ++ joint :: pieces) text =
        ((pieceEnds (base ++ joint :: pieces) [bytesOf text]).any List.isEmpty &&
          !(needsFileName (base ++ joint :: pieces) && endsInUp text)) := by
    unfold matchesPieces
    split
    next leading => cases isJoint <;> cases base <;> simp at leading
    · rfl
  have alone := unfolded [] ("/" ++ rest)
  rw [List.nil_append] at alone
  rw [unfolded, alone, ends, needsFileName_joint isJoint, endsInUp_append]

/-! ### Texts below a stem -/

/-- What a glob says about texts below a stem, given without the stem and the separator after it;
nothing if the glob cannot be used. -/
def testBelow (stem glob : String) : Option (String → Bool) :=
  match parse glob with
  | .error _ => none
  | .ok pieces =>
    if isRefused pieces then none else some fun rest => matchesPieces pieces (stem ++ "/" ++ rest)

theorem testBelow_eq_some {stem glob : String} {test : String → Bool} :
    testBelow stem glob = some test ↔
      ∃ pieces, (parse glob = .ok pieces ∧ isRefused pieces = false) ∧
        test = fun rest => matchesPieces pieces (stem ++ "/" ++ rest) := by
  cases parsed : parse glob with
  | error problem => simp [testBelow, parsed]
  | ok pieces =>
    cases refused : isRefused pieces with
    | true => simp [testBelow, parsed, refused]
    | false =>
      simp only [testBelow, parsed, refused, Bool.false_eq_true, if_false, Option.some.injEq]
      constructor
      · rintro rfl
        exact ⟨pieces, ⟨rfl, refused⟩, rfl⟩
      · rintro ⟨_, ⟨same, _⟩, rfl⟩
        cases same
        rfl

/-- A glob that begins with the stem says what the rest of it says without the stem. -/
theorem testBelow_stem (stem : String) (plain : ∀ c ∈ stem.toList, isSpecial c = false)
    (rest : String) : testBelow stem (stem ++ "/" ++ rest) = testBelow "" ("/" ++ rest) := by
  rcases parse_stem stem plain rest with
    ⟨problem, alone, after⟩ | ⟨joint, pieces, isJoint, alone, after⟩
  · simp only [testBelow, alone, after]
  · rw [List.reverse_reverse] at after
    simp only [testBelow, alone, after, isRefused_joint isJoint, matchesPieces_joint stem isJoint,
      String.empty_append]

/-- Two globs say the same about texts below two stems. -/
def AlikeBelow (stem stem' glob glob' : String) : Prop :=
  testBelow stem glob = testBelow stem' glob'

/-- Two sets of globs say the same about texts below two stems. -/
def AnyOf.AlikeBelow (stem stem' : String) (any any' : AnyOf) : Prop :=
  ∀ rest, any.isMatch (stem ++ "/" ++ rest) = any'.isMatch (stem' ++ "/" ++ rest)

/-- Two sets of globs whose members say the same below two stems say the same as sets. -/
theorem AnyOf.ofTexts_alike {stem stem' : String} {globs globs' : List String}
    (alike : List.Forall₂ (Glob.AlikeBelow stem stem') globs globs') {any : AnyOf}
    (read : ofTexts globs = .ok any) :
    ∃ any', ofTexts globs' = .ok any' ∧ any.AlikeBelow stem stem' any' := by
  obtain ⟨patterns⟩ := any
  rw [ofTexts_eq_ok] at read
  simp only [ofTexts_eq_ok, AnyOf.AlikeBelow, isMatch] at read ⊢
  induction alike generalizing patterns with
  | nil =>
    cases read
    exact ⟨⟨[]⟩, .nil, fun _ => rfl⟩
  | @cons glob glob' globs globs' same alike ih =>
    cases read with
    | @cons _ pieces _ patterns usable read =>
      obtain ⟨⟨patterns'⟩, read', agree⟩ := ih patterns read
      obtain ⟨pieces', usable', agreeFirst⟩ := testBelow_eq_some.mp
        (same.symm.trans (testBelow_eq_some.mpr ⟨pieces, usable, rfl⟩))
      refine ⟨⟨pieces' :: patterns'⟩, .cons usable' read', fun rest => ?_⟩
      rw [List.any_cons, List.any_cons, ← congrFun agreeFirst rest, agree]

/-! ### Globs for all below a stem, and for the stem itself -/

theorem mem_of_mem_distinctEnds (ends : List (List UInt8)) (k : List UInt8)
    (member : k ∈ distinctEnds ends) : k ∈ ends := by
  have folded (rest kept : List (List UInt8)) (found : k ∈ rest.foldl (fun kept e =>
      if kept.any (fun k => k.length == e.length) then kept else e :: kept) kept) :
      k ∈ kept ∨ k ∈ rest := by
    induction rest generalizing kept with
    | nil => exact .inl found
    | cons e rest ih =>
      rw [List.foldl_cons] at found
      split at found
      · exact (ih _ found).imp_right (List.mem_cons_of_mem _)
      · rcases ih _ found with old | later
        · rcases List.mem_cons.mp old with rfl | older
          · exact .inr List.mem_cons_self
          · exact .inl older
        · exact .inr (List.mem_cons_of_mem _ later)
  exact (folded ends [] member).resolve_left List.not_mem_nil

/-- An end that is left out has the length of one that is kept. -/
theorem exists_mem_distinctEnds (ends : List (List UInt8)) (e : List UInt8) (member : e ∈ ends) :
    ∃ k ∈ distinctEnds ends, k.length = e.length := by
  have folded (rest kept : List (List UInt8))
      (found : e ∈ rest ∨ ∃ k ∈ kept, k.length = e.length) :
      ∃ k ∈ rest.foldl (fun kept e =>
        if kept.any (fun k => k.length == e.length) then kept else e :: kept) kept,
          k.length = e.length := by
    induction rest generalizing kept with
    | nil => exact found.resolve_left List.not_mem_nil
    | cons first rest ih =>
      rw [List.foldl_cons]
      apply ih
      rcases found with listed | ⟨k, old, same⟩
      · rcases List.mem_cons.mp listed with rfl | later
        · right
          split
          next there => simpa using there
          · exact ⟨e, List.mem_cons_self, rfl⟩
        · exact .inl later
      · right
        split
        · exact ⟨k, old, same⟩
        · exact ⟨k, List.mem_cons_of_mem _ old, same⟩
  exact folded ends [] (.inl member)

theorem any_isEmpty_distinctEnds (ends : List (List UInt8)) (empty : [] ∈ ends) :
    (distinctEnds ends).any List.isEmpty = true := by
  obtain ⟨k, kept, none⟩ := exists_mem_distinctEnds ends [] empty
  exact List.any_eq_true.mpr ⟨k, kept, List.isEmpty_iff_length_eq_zero.mpr none⟩

theorem nil_mem_suffixes (text : List UInt8) : [] ∈ suffixes text := by
  induction text with
  | nil => exact List.mem_singleton_self _
  | cons b rest ih => exact List.mem_cons_of_mem _ ih

theorem nil_mem_afterStar (text : List UInt8) (single : separator ∉ text) :
    [] ∈ afterStar text := by
  induction text with
  | nil => exact List.mem_singleton_self _
  | cons b rest ih =>
    rw [List.mem_cons, not_or] at single
    simp [afterStar, Ne.symm single.1, ih single.2]

theorem suffix_of_mem_afterSeparators (text e : List UInt8) (member : e ∈ afterSeparators text) :
    e <:+ text := by
  induction text with
  | nil => cases member
  | cons b rest ih =>
    rw [afterSeparators] at member
    split at member
    · rcases List.mem_cons.mp member with rfl | later
      · exact List.suffix_cons b e
      · exact (ih later).trans (List.suffix_cons b rest)
    · exact (ih member).trans (List.suffix_cons b rest)

/-- Some end of a text, itself or one after a separator, has no separator. -/
theorem exists_single_end (text : List UInt8) :
    ∃ e ∈ text :: afterSeparators text, separator ∉ e := by
  induction text with
  | nil => exact ⟨[], List.mem_cons_self, List.not_mem_nil⟩
  | cons b rest ih =>
    obtain ⟨e, member, single⟩ := ih
    rw [afterSeparators]
    split
    · exact ⟨e, List.mem_cons_of_mem _ member, single⟩
    next other =>
      rcases List.mem_cons.mp member with rfl | later
      · refine ⟨b :: e, List.mem_cons_self, ?_⟩
        rw [List.mem_cons, not_or]
        exact ⟨fun same => other (beq_iff_eq.mpr same.symm), single⟩
      · exact ⟨e, List.mem_cons_of_mem _ later, single⟩

theorem bytesOf_slash (rest : String) : bytesOf ("/" ++ rest) = separator :: bytesOf rest := by
  have slash : bytesOf "/" = [separator] := by decide +kernel
  rw [bytesOf_append, slash, List.singleton_append]

theorem testBelow_everything : testBelow "" "/**" = some fun _ => true := by
  have parsed : parse "/**" = .ok [.trailing] := by
    simp [parse, readFrom, State.pushStars, State.push, State.replaceLast, absorb]
  refine testBelow_eq_some.mpr ⟨_, ⟨parsed, by decide⟩, ?_⟩
  funext rest
  have empty : [] ∈ Piece.trailing.ends (separator :: bytesOf rest) := by
    simpa [Piece.ends, afterSeparator] using nil_mem_suffixes (bytesOf rest)
  have anywhere : needsFileName [.trailing] = false := rfl
  rw [String.empty_append, matchesPieces, bytesOf_slash]
  · simp [pieceEnds, any_isEmpty_distinctEnds _ empty, anywhere]
  · simp

theorem testBelow_everyFile : testBelow "" "/**/*" = some fun _ => true := by
  have parsed : parse "/**/*" = .ok [.between, .star] := by
    simp [parse, readFrom, State.pushStars, State.push, State.replaceLast, absorb]
  refine testBelow_eq_some.mpr ⟨_, ⟨parsed, by decide⟩, ?_⟩
  funext rest
  -- The star takes what follows the last separator.
  have ends : Piece.between.ends (separator :: bytesOf rest) =
      bytesOf rest :: afterSeparators (bytesOf rest) := by
    simp [Piece.ends, afterSeparator]
  have suffix (e : List UInt8) (member : e ∈ bytesOf rest :: afterSeparators (bytesOf rest)) :
      e <:+ bytesOf rest := by
    rcases List.mem_cons.mp member with rfl | later
    · exact List.suffix_refl _
    · exact suffix_of_mem_afterSeparators _ _ later
  obtain ⟨e, member, single⟩ := exists_single_end (bytesOf rest)
  obtain ⟨k, kept, same⟩ := exists_mem_distinctEnds _ e member
  have equal : k = e := by
    have shorter := List.suffix_of_suffix_length_le
      (suffix k (mem_of_mem_distinctEnds _ k kept)) (suffix e member) (Nat.le_of_eq same)
    exact shorter.eq_of_length same
  subst equal
  have empty : [] ∈ (distinctEnds (Piece.between.ends (separator :: bytesOf rest))).flatMap
      Piece.star.ends := by
    rw [ends]
    exact List.mem_flatMap.mpr ⟨k, kept, nil_mem_afterStar k single⟩
  have anywhere : needsFileName [.between, .star] = false := by decide
  rw [String.empty_append, matchesPieces, bytesOf_slash]
  · simp [pieceEnds, any_isEmpty_distinctEnds _ empty, anywhere]
  · simp

/-- A plain text matches nothing below itself. -/
theorem testBelow_itself (stem : String) (plain : ∀ c ∈ stem.toList, isSpecial c = false) :
    testBelow stem stem = some fun _ => false := by
  have shallow : isRefused (stem.toList.map .literal) = false := by
    have depth := piecesDepth_literals stem.toList []
    rw [List.append_nil] at depth
    simp [isRefused, isTooDeep, depth, piecesDepth, maxDepth]
  refine testBelow_eq_some.mpr ⟨_, ⟨parse_plains stem plain, shallow⟩, ?_⟩
  funext rest
  have ends := pieceEnds_literals stem.toList [] (bytesOf ("/" ++ rest))
  rw [String.ofList_toList, ← bytesOf_append, ← String.append_assoc, List.append_nil] at ends
  rw [matchesPieces, ends, bytesOf_slash]
  · simp [pieceEnds]
  · cases stem.toList <;> simp

theorem testBelow_slashes (stem slashes glob : String)
    (only : slashes ++ "/" = "/" ++ slashes) :
    testBelow (stem ++ slashes) glob =
      (testBelow stem glob).map fun test rest => test (slashes ++ rest) := by
  have text (rest : String) :
      stem ++ slashes ++ "/" ++ rest = stem ++ "/" ++ (slashes ++ rest) := by
    calc stem ++ slashes ++ "/" ++ rest = stem ++ (slashes ++ "/") ++ rest := by
          rw [← String.append_assoc]
      _ = stem ++ "/" ++ (slashes ++ rest) := by
          rw [only, ← String.append_assoc, String.append_assoc]
  unfold testBelow
  split
  · rfl
  · split
    · rfl
    · simp only [text, Option.map_some]

end UnusedMethods.Glob
