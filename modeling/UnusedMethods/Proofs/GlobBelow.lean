import UnusedMethods.Proofs.GlobLanguage

/-!
# Globs for what lies below

A glob that is followed by `/**` matches all that lies below what the glob matches. Reading goes on
where the glob alone would have ended, so `/**` becomes one more piece, unless the glob ends in two
stars that fill a segment: these absorb it, and then the glob itself matches all that lies below.

Two stars at the start of a glob are the exception that has to be kept in sight. Alone they match
everything, but with a separator behind them they match only what ends in one.
-/

namespace UnusedMethods.Glob

/-! ### The places of leading stars -/

/-- Stars that lead are the first piece of the option that they are in, and outside braces the
separator behind them has just been read when nothing else has. -/
structure State.LeadsFirst (s : State) : Prop where
  first : ∀ level ∈ s.level :: s.outer, Piece.leading ∉ level.current.dropLast
  followed : s.outer = [] → s.level.current = [.leading] → s.previous = some '/'

namespace State.LeadsFirst

variable {s : State}

theorem push (leads : s.LeadsFirst) {piece : Piece} (other : piece ≠ .leading) (c : Option Char) :
    LeadsFirst { s.push piece with previous := c } where
  first := by
    intro level member
    rcases List.mem_cons.mp member with rfl | outer
    · have here := leads.first s.level List.mem_cons_self
      cases current : s.level.current with
      | nil => simp [State.push, current]
      | cons last before =>
        rw [current] at here
        simpa [State.push, current, Ne.symm other] using here
    · exact leads.first level (List.mem_cons_of_mem _ outer)
  followed := by
    intro _ only
    simp only [State.push, List.cons.injEq] at only
    exact absurd only.1 other

theorem replaceLast (leads : s.LeadsFirst) (atEnd : Bool) {c : Char}
    (inner : c = '/' ∨ s.outer ≠ []) :
    LeadsFirst { s.replaceLast (absorb atEnd) with previous := some c } where
  first := by
    intro level member
    rw [State.replaceLast] at member
    split at member
    · exact leads.first level member
    next last before current =>
      rcases List.mem_cons.mp member with rfl | outer
      · have here := leads.first s.level List.mem_cons_self
        rw [current] at here
        cases before with
        | nil => simp
        | cons other before =>
          -- Only leading stars stay leading, and they would lie above another piece.
          cases last <;> cases atEnd <;> simp_all [absorb]
      · exact leads.first level (List.mem_cons_of_mem _ outer)
  followed := by
    intro whole _
    have same : (s.replaceLast (absorb atEnd)).outer = s.outer := by
      rw [State.replaceLast]
      split <;> rfl
    rw [inner.resolve_right (· (same.symm.trans whole))]

theorem opens (leads : s.LeadsFirst) (c : Option Char) :
    LeadsFirst ⟨⟨[], []⟩, s.level :: s.outer, c⟩ where
  first := by
    intro level member
    rcases List.mem_cons.mp member with rfl | outer
    · exact List.not_mem_nil
    · exact leads.first level outer
  followed := nofun

theorem closes (leads : s.LeadsFirst) {level : Level} {outer : List Level}
    (nested : s.outer = level :: outer) (options : List (List Piece)) (c : Option Char) :
    LeadsFirst (State.push ⟨level, outer, c⟩ (.alternatives options)) := by
  have inner : ∀ other ∈ level :: outer, Piece.leading ∉ other.current.dropLast := by
    intro other member
    exact leads.first other (nested ▸ List.mem_cons_of_mem _ member)
  constructor
  · intro other member
    rcases List.mem_cons.mp member with rfl | further
    · have here := inner level List.mem_cons_self
      cases current : level.current with
      | nil => simp [State.push, current]
      | cons last before =>
        rw [current] at here
        simpa [State.push, current] using here
    · exact inner other (List.mem_cons_of_mem _ further)
  · simp [State.push]

theorem nextOption (leads : s.LeadsFirst) (finished : List (List Piece)) (c : Option Char) :
    LeadsFirst ⟨⟨finished, []⟩, s.outer, c⟩ where
  first := by
    intro level member
    rcases List.mem_cons.mp member with rfl | outer
    · exact List.not_mem_nil
    · exact leads.first level (List.mem_cons_of_mem _ outer)
  followed := nofun

theorem pushStars (leads : s.LeadsFirst) {c : Char} {next : State} {taken : Bool}
    (stars : s.pushStars (some c) = (next, taken)) :
    LeadsFirst { next with previous := some (if taken then '/' else '*') } := by
  have plain (d : Option Char) :
      LeadsFirst { (s.push .star).push .star with previous := d } := by
    have once := leads.push (nofun : Piece.star ≠ .leading) (some '*')
    exact once.push (by nofun) d
  simp only [State.pushStars] at stars
  split at stars
  next empty =>
    split at stars
    next none => cases none
    next =>
      cases stars
      rw [List.isEmpty_iff] at empty
      refine ⟨?_, fun _ _ => rfl⟩
      intro level member
      rcases List.mem_cons.mp member with rfl | outer
      · simp [State.push, empty]
      · exact leads.first level (List.mem_cons_of_mem _ outer)
    next =>
      cases stars
      exact plain _
  · split at stars
    · cases stars
      exact plain _
    · split at stars
      next none => cases none
      next =>
        cases stars
        exact leads.replaceLast false (.inl rfl)
      next =>
        split at stars
        next nested =>
          cases stars
          refine leads.replaceLast true (.inr ?_)
          rintro whole
          simp [whole] at nested
        · cases stars
          exact plain _

end State.LeadsFirst

/-! ### Reading on -/

/-- A class is read from its own characters, whatever follows. -/
theorem readClass_append {first : Bool} {s : ClassState} {cs rest : List Char}
    {ranges : List (Char × Char)} (read : readClass first s cs = .ok (ranges, rest)) :
    ∃ body, cs = body ++ rest ∧
      ∀ more, readClass first s (body ++ more) = .ok (ranges, more) := by
  fun_induction readClass first s cs with
  | case1 => cases read
  | case2 s first c cs closes =>
    cases read
    refine ⟨[c], rfl, fun more => ?_⟩
    rw [List.singleton_append, readClass, if_pos closes]
  | case3 s first c cs stays dash ih =>
    obtain ⟨body, rfl, again⟩ := ih read
    refine ⟨c :: body, rfl, fun more => ?_⟩
    rw [List.cons_append, readClass, if_neg stays, if_pos dash, again]
  | case4 => cases read
  | case5 s first c cs stays other next added ih =>
    obtain ⟨body, rfl, again⟩ := ih read
    refine ⟨c :: body, rfl, fun more => ?_⟩
    rw [List.cons_append, readClass, if_neg stays, if_neg other, added]
    exact again more

/-- What follows the sign that negates a class, if there is one. -/
def classBody (rest : List Char) : List Char :=
  if rest.head? == some '!' || rest.head? == some '^' then rest.drop 1 else rest

/-- A class that is read starts the same, and is read the same, if more follows. -/
theorem readClass_classBody (rest : List Char) {tail : List Char} {ranges : List (Char × Char)}
    (read : readClass true ⟨[], false⟩ (classBody rest) = .ok (ranges, tail)) :
    tail <:+ rest ∧ ∀ more, (rest ++ more).head? = rest.head? ∧
      readClass true ⟨[], false⟩ (classBody (rest ++ more)) = .ok (ranges, tail ++ more) := by
  obtain ⟨inside, whole, again⟩ := readClass_append read
  have some_ : rest ≠ [] := by
    rintro rfl
    simp [classBody, readClass] at read
  have suffix : classBody rest <:+ rest := by
    unfold classBody
    split
    · exact List.drop_suffix 1 rest
    · exact List.suffix_refl rest
  refine ⟨(whole ▸ List.suffix_append inside tail).trans suffix, fun more => ?_⟩
  have head : (rest ++ more).head? = rest.head? := List.head?_append_of_ne_nil _ some_
  have body : classBody (rest ++ more) = classBody rest ++ more := by
    rw [classBody, classBody, head]
    split
    · exact List.drop_append_of_le_length (List.length_pos_iff.mpr some_)
    · rfl
  refine ⟨head, ?_⟩
  rw [body, whole, List.append_assoc]
  exact again (tail ++ more)

/-- The pieces of a glob that is followed by `/**`, by the pieces of the glob alone. -/
inductive IsBelow : List Piece → List Piece → Prop
  /-- Two stars alone match everything already. -/
  | everything : IsBelow [.leading] [.leading]
  /-- The glob ends in two stars. -/
  | absorbed (pieces : List Piece) : IsBelow (pieces ++ [.trailing]) (pieces ++ [.trailing])
  | added {pieces : List Piece} (other : pieces ≠ [.leading]) :
      IsBelow pieces (pieces ++ [.trailing])

theorem absorb_absorb (atEnd : Bool) (piece : Piece) :
    absorb true (absorb atEnd piece) = absorb true piece := by
  cases piece <;> cases atEnd <;> rfl

/-- Two stars at the end, right after a separator. -/
theorem readFrom_lastStars {s : State} (whole : s.outer = []) (after : s.previous = some '/')
    {last : Piece} {before : List Piece} (current : s.level.current = last :: before) :
    readFrom s ['*', '*'] = .ok (before.reverse ++ [absorb true last]) := by
  simp [readFrom, State.pushStars, State.replaceLast, whole, after, current]

theorem readFrom_below_here (s : State) (whole : s.outer = []) :
    readFrom s ['/', '*', '*'] = .ok (s.level.current.reverse ++ [.trailing]) := by
  have slash : isSpecial '/' = false := by decide
  rw [readFrom_plain s whole '/' slash]
  exact readFrom_lastStars (s := State.push { s with previous := some '/' } (.literal '/'))
    whole rfl
    rfl

/-- Two stars at the end of a glob, alone and with `/**` behind them. -/
theorem readFrom_stars_below {s : State} (leads : s.LeadsFirst) (whole : s.outer = []) :
    ∃ pieces below, readFrom s ['*', '*'] = .ok pieces ∧
      readFrom s ['*', '*', '/', '*', '*'] = .ok below ∧ IsBelow pieces below := by
  obtain ⟨⟨finished, current⟩, outer, previous⟩ := s
  cases whole
  have first := leads.first ⟨finished, current⟩ List.mem_cons_self
  cases current with
  | nil =>
    refine ⟨[.leading], [.leading], ?_, ?_, .everything⟩
    · simp [readFrom, State.pushStars, State.push]
    · simp [readFrom, State.pushStars, State.push, State.replaceLast, absorb]
  | cons last before =>
    by_cases after : previous = some '/'
    · subst after
      refine ⟨_, before.reverse ++ [absorb true last], readFrom_lastStars rfl rfl rfl, ?_, ?_⟩
      · simp [readFrom, State.pushStars, State.replaceLast, absorb_absorb]
      by_cases leading : last = .leading
      · -- Stars that lead lie at the bottom, so there is nothing before them.
        subst leading
        cases before with
        | nil => exact .everything
        | cons other before => simp at first
      · have trailing : absorb true last = .trailing := by
          cases last <;> first | rfl | exact absurd rfl leading
        rw [trailing]
        exact .absorbed _
    · refine ⟨before.reverse ++ [last, .star, .star], _, ?_, ?_, .added ?_⟩
      · simp [readFrom, State.pushStars, State.push, after]
      · simp [readFrom, State.pushStars, State.push, State.replaceLast, absorb, after]
      · intro only
        have length := congrArg List.length only
        simp at length

theorem pushStars_outer (s : State) (follower : Option Char) :
    (s.pushStars follower).1.outer = s.outer := by
  have replaced (f : Piece → Piece) : (s.replaceLast f).outer = s.outer := by
    rw [State.replaceLast]
    split <;> rfl
  simp only [State.pushStars]
  split
  · split <;> rfl
  · split
    · rfl
    · split
      · exact replaced _
      · exact replaced _
      · split
        · exact replaced _
        · rfl

/-- What stars take with them is a separator. -/
theorem pushStars_taken {s next : State} {follower : Option Char}
    (stars : s.pushStars follower = (next, true)) : follower = some '/' := by
  simp only [State.pushStars] at stars
  split at stars
  · split at stars
    · cases stars
    · rfl
    · cases stars
  · split at stars
    · cases stars
    · split at stars
      · cases stars
      · rfl
      · split at stars <;> cases stars

theorem last_cons (c : Char) (rest : List Char) (previous : Option Char) :
    (c :: rest).getLast?.or previous = rest.getLast?.or (some c) := by
  cases last : rest.getLast? <;> simp [List.getLast?_cons, last]

theorem readFrom_below (s : State) (leads : s.LeadsFirst) (cs : List Char)
    (ends : cs.getLast?.or s.previous ≠ some '/') {pieces : List Piece}
    (read : readFrom s cs = .ok pieces) :
    ∃ below, readFrom s (cs ++ ['/', '*', '*']) = .ok below ∧ IsBelow pieces below := by
  -- Each case reads what it read without the end, and goes on from the same state.
  fun_induction readFrom s cs with
  | case1 s whole =>
    cases read
    have outside := List.isEmpty_iff.mp whole
    refine ⟨_, readFrom_below_here s outside, .added ?_⟩
    intro only
    have current : s.level.current = [.leading] := List.reverse_inj.mp only
    exact ends (leads.followed outside current)
  | case2 => cases read
  | case3 s c rest after _ ih =>
    rw [last_cons] at ends
    rw [List.cons_append, readFrom.eq_def]
    simp only [*, if_true]
    exact ih (leads.push Piece.noConfusion _) ends read
  | case4 s c _ _ tail next stars ih =>
    -- The separator that is taken comes before the end.
    obtain ⟨tail, rfl⟩ := List.head?_eq_some_iff.mp (pushStars_taken stars)
    have onward := leads.pushStars stars
    rw [last_cons, last_cons, last_cons] at ends
    rw [List.head?_cons] at stars
    simp only [List.cons_append]
    rw [readFrom.eq_def]
    simp only [*, List.head?_cons, Bool.false_eq_true, if_false, if_true]
    exact ih onward ends read
  | case5 s c _ _ tail next stars ih =>
    cases tail with
    | nil =>
      -- The stars end the glob, so they stand outside braces.
      rw [List.head?_nil] at stars
      have whole : s.outer = [] := by
        have same := pushStars_outer s none
        rw [stars] at same
        rw [readFrom] at read
        split at read
        next outside => rw [← same, ← List.isEmpty_iff, outside]
        · cases read
      have alone : readFrom s ['*', '*'] = .ok pieces := by
        rw [← read, readFrom.eq_def]
        simp [stars]
      obtain ⟨pieces', below, alone', followed, isBelow⟩ := readFrom_stars_below leads whole
      cases alone.symm.trans alone'
      rw [beq_iff_eq.mp ‹(c == '*') = true›]
      exact ⟨below, followed, isBelow⟩
    | cons d tail =>
      have onward := leads.pushStars stars
      rw [last_cons, last_cons] at ends
      rw [List.head?_cons] at stars
      simp only [List.cons_append]
      rw [readFrom.eq_def]
      simp only [*, List.head?_cons, Bool.false_eq_true, if_false, if_true]
      exact ih onward ends read
  | case6 s c after _ _ other single ih =>
    rw [last_cons] at ends
    have still : ∀ tail, other ++ ['/', '*', '*'] = '*' :: tail → False := by
      intro tail same
      cases other with
      | nil => cases same
      | cons d other => exact single other (by rw [(List.cons.inj same).1])
    rw [List.cons_append, readFrom.eq_def]
    simp only [*, Bool.false_eq_true, if_false, if_true]
    exact ih (leads.push Piece.noConfusion _) ends read
  | case7 => cases read
  | case8 s c rest _ _ _ negated body ranges tail isClass shorter ih =>
    obtain ⟨suffix, again⟩ := readClass_classBody rest isClass
    obtain ⟨head, isClass'⟩ := again ['/', '*', '*']
    -- What is left after the class has the same end, unless nothing is left.
    have ends' : tail.getLast?.or (some ']') ≠ some '/' := by
      obtain ⟨before, rfl⟩ := suffix
      rw [last_cons, List.getLast?_append] at ends
      cases last : tail.getLast? with
      | none => simp
      | some d => simpa [last] using ends
    rw [List.cons_append, readFrom.eq_def]
    simp only [*, Bool.false_eq_true, if_false, if_true]
    split
    next failed => cases isClass'.symm.trans failed
    next read' =>
      cases isClass'.symm.trans read'
      exact ih (leads.push Piece.noConfusion _) ends' read
  | case9 s c rest _ _ _ _ ih =>
    rw [last_cons] at ends
    rw [List.cons_append, readFrom.eq_def]
    simp only [*, Bool.false_eq_true, if_false, if_true]
    exact ih (leads.opens _) ends read
  | case10 => cases read
  | case11 s c rest _ _ _ _ _ level outer nested options ih =>
    rw [last_cons] at ends
    simp only [options, List.unattach_reverse, List.unattach_attach] at ih
    rw [List.cons_append, readFrom.eq_def]
    simp only [*, Bool.false_eq_true, if_false, if_true]
    exact ih (leads.closes nested _ _) ends read
  | case12 s c rest after _ _ _ _ _ nested ih =>
    rw [last_cons] at ends
    rw [List.unattach_reverse, List.unattach_attach] at ih
    rw [List.cons_append, readFrom.eq_def]
    simp only [*, Bool.false_eq_true, if_false, if_true]
    exact ih (leads.nextOption _ _) ends read
  | case13 => cases read
  | case14 s c _ _ _ _ _ _ _ e tail ih =>
    rw [last_cons, last_cons] at ends
    rw [List.cons_append, List.cons_append, readFrom.eq_def]
    simp only [*, Bool.false_eq_true, if_false, if_true]
    exact ih (leads.push Piece.noConfusion _) ends read
  | case15 s c rest after _ _ _ _ _ _ _ ih =>
    rw [last_cons] at ends
    rw [List.cons_append, readFrom.eq_def]
    simp only [*, Bool.false_eq_true, if_false]
    exact ih (leads.push Piece.noConfusion _) ends read

theorem parse_below {text : String} (ends : text.toList.getLast? ≠ some '/') {pieces : List Piece}
    (read : parse text = .ok pieces) :
    ∃ below, parse (text ++ "/**") = .ok below ∧ IsBelow pieces below := by
  have start : State.LeadsFirst ⟨⟨[], []⟩, [], none⟩ := ⟨by simp, nofun⟩
  have result := readFrom_below _ start text.toList (by simpa using ends) read
  rwa [show ['/', '*', '*'] = "/**".toList from rfl, ← String.toList_append] at result

/-! ### Matching what lies below -/

theorem isSome_chars_trailing (pieces : List Piece) :
    (chars? (pieces ++ [.trailing])).isSome = false := by
  induction pieces with
  | nil => rfl
  | cons piece pieces ih => rw [List.cons_append, isSome_chars_cons, ih, Bool.and_false]

/-- A glob that ends in `/**` is not tried by the name of a file. -/
theorem needsFileName_trailing (pieces : List Piece) :
    needsFileName (pieces ++ [.trailing]) = false := by
  have dot : endsInDot (pieces ++ [.trailing]) = false := endsInDot_joint .trailing [] pieces
  have ending : isEnding (pieces ++ [.trailing]) = false := by
    unfold isEnding
    split
    next rest whole =>
      have last : Piece.trailing ∈ rest := by
        have member : Piece.trailing ∈ pieces ++ [.trailing] := by simp
        rw [whole] at member
        simpa using member
      exact List.all_eq_false.mpr ⟨_, last, by simp [Piece.char?]⟩
    · rfl
  have plan : planOf (pieces ++ [.trailing]) ≠ .ending := by
    simp only [planOf, dot, Bool.false_eq_true, if_false]
    split_ifs <;> simp
  cases pieces with
  | nil => rfl
  | cons first pieces =>
    have none : chars? (pieces ++ [.trailing]) = none := by
      simpa using isSome_chars_trailing pieces
    rw [List.cons_append] at ending plan ⊢
    cases first <;> simp [needsFileName, ending, plan, none]

theorem spellAll_trailing {pieces : List Piece} {text : List UInt8} (spells : SpellAll pieces text)
    (below : List UInt8) : SpellAll (pieces ++ [.trailing]) (text ++ separator :: below) := by
  have last : SpellAll [.trailing] ((separator :: below) ++ []) := .cons (.trailing below) .nil
  rw [List.append_nil] at last
  exact spells.append last

/-- If a glob matches a text, alone or followed by `/**`, then followed by `/**` it matches all
that lies below the text. -/
theorem IsBelow.matches {pieces below : List Piece} (isBelow : IsBelow pieces below) {dir : String}
    (matched : matchesPieces pieces dir = true ∨ matchesPieces below dir = true) (rest : String) :
    matchesPieces below (dir ++ "/" ++ rest) = true := by
  have text : bytesOf (dir ++ "/" ++ rest) = bytesOf dir ++ separator :: bytesOf rest := by
    rw [String.append_assoc, bytesOf_append, bytesOf_slash]
  -- A text that the glob spells to its end goes on below itself.
  have goesOn {pieces : List Piece} (spells : SpellAll (pieces ++ [.trailing]) (bytesOf dir)) :
      SpellAll (pieces ++ [.trailing]) (bytesOf dir ++ separator :: bytesOf rest) := by
    obtain ⟨front, back, whole, spells, last⟩ := spells.split
    obtain ⟨run, _, rfl, trailing, ⟨⟩⟩ := spellAll_cons.mp last
    cases trailing with
    | trailing middle =>
      rw [whole]
      simpa using spellAll_trailing spells (middle ++ separator :: bytesOf rest)
  have spelled {pieces : List Piece} (other : pieces ≠ [.leading])
      (matched : matchesPieces pieces dir = true) : SpellAll pieces (bytesOf dir) :=
    (((matchesPieces_iff _ _).mp matched).resolve_left other).1
  have ended (pieces : List Piece) : pieces ++ [.trailing] ≠ [.leading] := by
    cases pieces <;> simp
  rw [matchesPieces_iff]
  cases isBelow with
  | everything => exact .inl rfl
  | absorbed pieces =>
    refine .inr ⟨?_, by simp [needsFileName_trailing]⟩
    rw [text]
    exact goesOn (spelled (ended pieces) (or_self_iff.mp matched))
  | added other =>
    refine .inr ⟨?_, by simp [needsFileName_trailing]⟩
    rw [text]
    rcases matched with alone | followed
    · exact spellAll_trailing (spelled other alone) _
    · exact goesOn (spelled (ended _) followed)

end UnusedMethods.Glob
