import UnusedMethods.Proofs.AcceptedPhrases
import UnusedMethods.Proofs.ValueReaders

/-!
# What readers of values accept

A reader of a value that succeeds has passed over the tokens of a value, with blanks around them. So
a text that is read to its end is JSON, whatever kind of value was asked for.

A value that no one asks for is skipped in one loop over all brackets that are open. What the loop
passes until the last of them is closed is told by `Closes`.
-/

namespace UnusedMethods.Json

/-! ### Values of one token -/

section

variable {α β : Type} {reader : Reader α} {f : α → Reader β} {text : List Char}
variable {result : β → List Char → Prop} {next : Reader β}

/-- A literal whose quote comes first is read, and then what follows. -/
theorem Yields.literal (first : (utf8 text).head? = some 34)
    (reads : ∀ text, Yields reader text fun _ rest =>
      ∃ pieces, text = Token.literalRest pieces ++ rest)
    (goesOn : ∀ a pieces rest, Passes [.literal pieces] text rest → Yields (f a) rest result) :
    Yields (do Json.skip; f (← reader)) text result := by
  obtain ⟨text, rfl⟩ := head?_utf8 (by decide) first
  refine .skip (by decide) ((reads text).bind ?_)
  rintro a rest ⟨pieces, rfl⟩
  exact goesOn a pieces rest (passes_token (.literal pieces) rest)

theorem begins_number (n : Numeral) (rest : List Char) : Begins .value (n.text ++ rest) rest :=
  ⟨_, .number n, passes_token (.number n) rest⟩

/-- A number with a sign. -/
theorem Yields.negative (first : (utf8 text).head? = some 45)
    (reads : ∀ text, Yields reader text fun _ rest =>
      ∃ n : Numeral, n.negative = true ∧ text = n.unsigned ++ rest)
    (goesOn : ∀ a rest, Begins .value text rest → Yields (f a) rest result) :
    Yields (do Json.skip; f (← reader)) text result := by
  obtain ⟨text, rfl⟩ := head?_utf8 (by decide) first
  refine .skip (by decide) ((reads text).bind ?_)
  rintro a rest ⟨n, sign, rfl⟩
  have begins := begins_number n rest
  rw [Numeral.text, if_pos sign] at begins
  exact goesOn a rest begins

/-- A number without a sign. -/
theorem Yields.unsigned
    (reads : ∀ text, Yields reader text fun _ rest =>
      ∃ n : Numeral, n.negative = false ∧ text = n.unsigned ++ rest)
    (goesOn : ∀ a rest, Begins .value text rest → Yields (f a) rest result) :
    Yields (do f (← reader)) text result := by
  refine (reads text).bind ?_
  rintro a rest ⟨n, sign, rfl⟩
  have begins := begins_number n rest
  rw [Numeral.text, if_neg (by simp [sign])] at begins
  exact goesOn a rest begins

/-- A word whose first letter comes first. -/
theorem Yields.word (w : Word) {letters : String}
    (first : (utf8 text).head? = some (Token.word w).byte)
    (spelled : w.text = charOf (Token.word w).byte :: letters.toList)
    (goesOn : ∀ rest, Begins .value text rest → Yields next rest result) :
    Yields (do Json.skip; Json.word (ascii letters); next) text result := by
  -- The first letter decides which word is read, the others are compared.
  have plain : ∀ c ∈ w.text, c.toNat < 128 := by
    cases w <;> exact forall_mem_of_all (by decide)
  rw [spelled] at plain
  obtain ⟨here, later⟩ := List.forall_mem_cons.mp plain
  have ascii : (Token.word w).byte.toNat < 128 := by
    cases w <;> decide
  obtain ⟨text, rfl⟩ := head?_utf8 ascii first
  refine .skip here ((yields_word later).bind ?_)
  rintro _ rest rfl
  refine goesOn rest ⟨_, .word w, ?_⟩
  have passes := passes_token (.word w) rest
  rw [Token.text, spelled] at passes
  exact passes

/-- A reader that succeeds has passed over a value. -/
def ReadsValue (reader : Reader α) : Prop :=
  ∀ text, Yields reader text fun _ rest => Begins .value text rest

/-- What comes before the first token of a value does not matter. -/
theorem readsValue_needToken {f : UInt8 → Reader α}
    (reads : ∀ text b, (utf8 text).head? = some b →
      Yields (f b) text fun _ rest => Begins .value text rest) :
    ReadsValue (needToken >>= f) := by
  intro text
  refine .needToken ?_
  rintro gap rest b rfl blank first
  exact (reads rest b first).mono fun _ _ begins => begins.after_gap blank

theorem ReadsValue.placed (reads : ReadsValue reader) : ReadsValue (placed reader) :=
  fun text => (reads text).placed

theorem ReadsValue.keeping (reads : ReadsValue reader) (keep : α → β) :
    ReadsValue (do return keep (← reader)) :=
  fun text => (reads text).bind fun _ _ begins => yields_pure begins

theorem consumes_wrongType {xs : List UInt8} {known : α → List UInt8 → Prop} (expected : String) :
    Consumes (wrongType expected) xs known :=
  consumes_of_refuses fun _ => refuses_wrongType expected

theorem begins_literal {pieces : List Piece} {rest : List Char}
    (passes : Passes [.literal pieces] text rest) : Begins .value text rest :=
  ⟨_, .literal pieces, passes⟩

theorem readsValue_text : ReadsValue Json.text := by
  refine ReadsValue.placed (readsValue_needToken ?_)
  intro text b first
  split
  · rw [← bind_pure stringBody]
    refine .literal first (fun _ => yields_stringBody) ?_
    exact fun a pieces rest passes => yields_pure (begins_literal passes)
  · exact consumes_wrongType _

theorem readsValue_bool : ReadsValue bool := by
  refine ReadsValue.placed (readsValue_needToken ?_)
  intro text b first
  split
  · exact .word .yes first rfl fun _ begins => yields_pure begins
  · exact .word .no first rfl fun _ begins => yields_pure begins
  · exact consumes_wrongType _

theorem ReadsValue.optional (reads : ReadsValue reader) : ReadsValue (optional reader) := by
  intro text
  refine .peekToken ?_
  rintro gap rest rfl blank
  split
  next null =>
    exact .word .null null rfl fun _ begins => yields_pure (begins.after_gap blank)
  next =>
    refine (reads.keeping some rest).mono fun _ _ begins => begins.after_gap blank

end

/-! ### Lists and objects -/

section

variable {α : Type} {text : List Char} {shape : Shape}

theorem mark_ascii (m : Mark) : m.char.toNat < 128 := by
  cases m <;> decide

/-- A mark that comes first. -/
theorem passes_first (m : Mark) {gap rest : List Char} (blank : IsBlank gap)
    (first : (utf8 rest).head? = some (byteOf m.char)) :
    ∃ left, rest = m.char :: left ∧ Passes [.mark m] (gap ++ rest) left := by
  have ascii := mark_ascii m
  obtain ⟨left, rfl⟩ := head?_utf8 (by rw [toNat_byteOf ascii]; exact ascii) first
  rw [charOf_byteOf ascii]
  exact ⟨left, rfl, (passes_mark m left).after_gap blank⟩

theorem yields_skip_mark (m : Mark) {rest : List Char} {known : Unit → List Char → Prop}
    (holds : known () rest) : Yields skip (m.char :: rest) known := by
  rw [← bind_pure skip]
  exact .skip (mark_ascii m) (yields_pure holds)

/-- What has been passed over once it is known whether another item follows. -/
def Separated (first more : Bool) (text rest : List Char) : Prop :=
  Passes (if more then Shape.separator first else []) text rest

theorem yields_moreElements (first : Bool) :
    Yields (moreElements first) text fun more rest => Separated first more text rest := by
  refine .peekToken ?_
  rintro gap rest rfl blank
  split
  · exact consumes_failNext _
  · exact yields_pure (passes_gap blank rest)
  next b _ head =>
    split
    next isFirst =>
      rw [isFirst]
      exact yields_pure (passes_gap blank rest)
    split
    · exact consumes_failNext _
    next later comma =>
      obtain rfl : b = 44 := by simpa using comma
      obtain ⟨left, rfl, passes⟩ := passes_first .comma blank head
      refine .skip (mark_ascii .comma) (.peekToken ?_)
      rintro gap' rest' rfl blank'
      split
      · exact consumes_failNext _
      · have notFirst : first = false := by simpa using later
        rw [notFirst]
        exact yields_pure (passes.append (passes_gap blank' rest'))
      · exact consumes_failNext _

theorem yields_endList :
    Yields endList text fun _ rest => Passes [.mark .closeList] text rest := by
  refine .peekToken ?_
  rintro gap rest rfl blank
  split
  next head =>
    obtain ⟨left, rfl, passes⟩ := passes_first .closeList blank head
    exact yields_skip_mark .closeList passes
  next =>
    refine consumes_of_refuses fun _ =>
      refuses_bind_right fun _ _ => refuses_bind_right fun _ _ => ?_
    split
    · exact refuses_failNext _
    · exact refuses_failNext _
  · exact consumes_failNext _
  · exact consumes_failNext _

theorem yields_endObject :
    Yields endObject text fun _ rest => Passes [.mark .closeObject] text rest := by
  refine .peekToken ?_
  rintro gap rest rfl blank
  split
  next head =>
    obtain ⟨left, rfl, passes⟩ := passes_first .closeObject blank head
    exact yields_skip_mark .closeObject passes
  · exact consumes_failNext _
  · exact consumes_failNext _
  · exact consumes_failNext _

/-- A list or an object, from a reader of its inside and one of its end. -/
theorem yields_brackets (shape : Shape) {ending : Reader Unit} {inside : Reader α}
    (first : (utf8 text).head? = some (byteOf shape.opening.char))
    (reads : ∀ text, Yields inside text fun _ rest => shape.Inside true text rest)
    (ends : ∀ text, Yields ending text fun _ rest => Passes [.mark shape.closing] text rest) :
    Yields (closedBy ending (entering do skip; inside)) text
      fun _ rest => Begins .value text rest := by
  have blank : IsBlank [] := nofun
  obtain ⟨left, rfl, opens⟩ := passes_first shape.opening blank first
  have yields : Yields (entering do skip; inside) (shape.opening.char :: left)
      fun _ rest => shape.Inside true left rest :=
    Consumes.entering (Yields.skip (mark_ascii _) (reads left))
  refine yields.closedBy fun _ between items => ?_
  exact (ends between).mono fun _ _ closes => items.value opens closes

theorem yields_elements {reader : Reader α} (reads : ReadsValue reader) (fuel : Nat) (first : Bool)
    (done : Array α) :
    Yields (elements reader fuel first done) text fun _ rest =>
      Shape.list.Inside first text rest := by
  -- Where the steps run out too early the list is not at its end, which is looked for afterwards.
  induction fuel generalizing text first done with
  | zero => exact yields_pure (Or.inl (passes_nil text))
  | succ fuel ih =>
    refine (yields_moreElements first).bind ?_
    intro more between separated
    cases more with
    | false => exact yields_pure (Or.inl separated)
    | true =>
      refine (reads between).bind fun value after item => ?_
      exact (ih false (done.push value)).mono fun _ _ inside =>
        .cons .list separated item inside

theorem ReadsValue.listOf {reader : Reader α} (reads : ReadsValue reader) :
    ReadsValue (listOf reader) := by
  refine ReadsValue.placed (readsValue_needToken ?_)
  intro text b first
  split
  · refine Consumes.sized
      (h := fun n => closedBy endList (entering do
        skip
        return (← elements reader n true #[]).toList))
      fun n _ => yields_brackets .list first (fun text => ?_) fun _ => yields_endList
    exact (yields_elements reads n true #[]).bind fun _ _ inside => yields_pure inside
  · exact consumes_wrongType _

/-- Before a key its quote comes at once. -/
theorem yields_moreKeys (first : Bool) :
    Yields (moreKeys first) text fun more rest =>
      Separated first more text rest ∧ (more = true → (utf8 rest).head? = some 34) := by
  refine .peekToken ?_
  rintro gap rest rfl blank
  split
  · exact consumes_failNext _
  · exact yields_pure ⟨passes_gap blank rest, nofun⟩
  next b _ head =>
    split
    next isFirst =>
      split
      next quote =>
        obtain rfl : b = 34 := by simpa using quote
        rw [isFirst]
        exact yields_pure ⟨passes_gap blank rest, fun _ => head⟩
      · exact consumes_failNext _
    split
    · exact consumes_failNext _
    next later comma =>
      obtain rfl : b = 44 := by simpa using comma
      obtain ⟨left, rfl, passes⟩ := passes_first .comma blank head
      refine .skip (mark_ascii .comma) (.peekToken ?_)
      rintro gap' rest' rfl blank'
      split
      next quote =>
        have notFirst : first = false := by simpa using later
        rw [notFirst]
        exact yields_pure ⟨passes.append (passes_gap blank' rest'), fun _ => quote⟩
      · exact consumes_failNext _
      · exact consumes_failNext _
      · exact consumes_failNext _

theorem yields_colon : Yields colon text fun _ rest => Passes [.mark .colon] text rest := by
  refine .peekToken ?_
  rintro gap rest rfl blank
  split
  next head =>
    obtain ⟨left, rfl, passes⟩ := passes_first .colon blank head
    exact yields_skip_mark .colon passes
  · exact consumes_failNext _
  · exact consumes_failNext _

end

/-! ### Values that are skipped -/

/-- What is passed after a value until all brackets around it are closed, innermost first. -/
def Closes : List Shape → List Char → List Char → Prop
  | [], text, rest => Passes [] text rest
  | shape :: outer, text, rest => ∃ between after, shape.Inside false text between ∧
      Passes [.mark shape.closing] between after ∧ Closes outer after rest

/-- What is passed from a value on. -/
def ValueCloses (shapes : List Shape) (text rest : List Char) : Prop :=
  ∃ between, Begins .value text between ∧ Closes shapes between rest

/-- A way to go on passes what it has to wherever fewer characters are left. -/
def PassesOn (go : Bool → List UInt8 → Reader Unit) (limit : Nat) : Prop :=
  ∀ shapes text, text.length < limit →
    Yields (go true (shapes.map Shape.byte)) text (fun _ rest => Closes shapes text rest) ∧
      Yields (go false (shapes.map Shape.byte)) text fun _ rest => ValueCloses shapes text rest

section

variable {text : List Char} {go : Bool → List UInt8 → Reader Unit} {limit : Nat}

/-- A closing bracket that comes first and that an open one asks for. -/
theorem passes_closing (shape : Shape) {gap rest : List Char} {b : UInt8} (blank : IsBlank gap)
    (first : (utf8 rest).head? = some b) (closes : (b == closing shape.byte) = true) :
    ∃ left, rest = shape.closing.char :: left ∧
      Passes [.mark shape.closing] (gap ++ rest) left := by
  have asked : closing shape.byte = byteOf shape.closing.char := by
    cases shape <;> decide
  rw [beq_iff_eq.mp closes, asked] at first
  exact passes_first shape.closing blank first

theorem yields_skipKey :
    Yields skipOpen.skipKey text fun _ rest =>
      ∃ key, Passes [.literal key, .mark .colon] text rest := by
  refine .peekToken ?_
  rintro gap rest rfl blank
  split
  next quote =>
    refine .literal quote (fun _ => yields_skipString) fun _ key behind passes => ?_
    refine yields_colon.mono fun _ rest colon => ?_
    exact ⟨key, (passes.after_gap blank).append colon⟩
  · exact (consumes_failNext _).bind fun _ _ => False.elim
  · exact (consumes_failNext _).bind fun _ _ => False.elim

/-- An item and what follows it until the brackets are closed. -/
theorem PassesOn.skipMember (passesOn : PassesOn go limit) (short : text.length < limit)
    (shape : Shape) (outer : List Shape) :
    Yields (skipMember go shape.byte ((shape :: outer).map Shape.byte)) text fun _ rest =>
      ∃ between after, Begins shape.kind text between ∧
        Passes [.mark shape.closing] between after ∧ Closes outer after rest := by
  -- The items that the loop finds behind this one complete it to those of the brackets.
  have items {between rest : List Char} (item : shape.Item text between)
      (closes : Closes (shape :: outer) between rest) :
      ∃ between after, Begins shape.kind text between ∧
        Passes [.mark shape.closing] between after ∧ Closes outer after rest := by
    obtain ⟨between, after, inside, closed, more⟩ := closes
    exact ⟨between, after, item.begins inside, closed, more⟩
  unfold Json.skipMember
  cases shape with
  | list =>
    refine (passesOn (.list :: outer) text short).2.mono ?_
    rintro _ rest ⟨between, value, closes⟩
    exact items value closes
  | object =>
    refine yields_skipKey.bind ?_
    rintro _ behind ⟨key, keyed⟩
    have shorter := keyed.length_le
    refine (passesOn (.object :: outer) behind (by omega)).2.mono ?_
    rintro _ rest ⟨between, value, closes⟩
    exact items ⟨key, behind, keyed, value⟩ closes

theorem PassesOn.skipOpening (passesOn : PassesOn go text.length) (shape : Shape)
    (first : (utf8 text).head? = some shape.byte) (shapes : List Shape) :
    Yields (skipOpening go shape.byte (shapes.map Shape.byte)) text fun _ rest =>
      ValueCloses shapes text rest := by
  have same : shape.byte = byteOf shape.opening.char := by
    cases shape <;> decide
  have blank : IsBlank [] := nofun
  obtain ⟨left, whole, opens⟩ := passes_first shape.opening blank (same ▸ first)
  obtain rfl : text = shape.opening.char :: left := whole
  refine .skip (mark_ascii _) (.peekToken ?_)
  rintro gap rest rfl blank'
  cases head : (utf8 rest).head? with
  | none => exact consumes_failNext _
  | some c =>
    dsimp only
    split
    next closes =>
      obtain ⟨after, rfl, closed⟩ := passes_closing shape blank' head closes
      refine .skip (mark_ascii _) ((passesOn shapes after ?_).1.mono fun _ rest more => ?_)
      · simp only [List.length_cons, List.length_append]
        omega
      · exact ⟨after, Shape.Inside.value opens (Or.inl (passes_nil _)) closed, more⟩
    · refine (passesOn.skipMember ?_ shape shapes).mono ?_
      · simp only [List.length_cons, List.length_append]
        omega
      · rintro _ left ⟨between, after, begins, closed, more⟩
        refine ⟨after, Shape.Inside.value opens (Or.inr ?_) closed, more⟩
        exact ⟨_, passes_gap blank' rest, begins⟩

theorem PassesOn.skipOne (passesOn : PassesOn go text.length) (shapes : List Shape) :
    Yields (skipOne go (shapes.map Shape.byte)) text fun _ rest =>
      ValueCloses shapes text rest := by
  refine .needToken ?_
  rintro gap rest b rfl blank first
  have goesOn (after : List Char) (begins : Begins .value rest after) :
      Yields (go true (shapes.map Shape.byte)) after fun _ left =>
        ValueCloses shapes (gap ++ rest) left := by
    have shorter := begins.length_lt
    refine (passesOn shapes after ?_).1.mono fun _ left closes => ?_
    · rw [List.length_append]
      omega
    · exact ⟨after, begins.after_gap blank, closes⟩
  have opening (shape : Shape) (same : b = shape.byte) :
      Yields (Json.skipOpening go b (shapes.map Shape.byte)) rest fun _ left =>
        ValueCloses shapes (gap ++ rest) left := by
    -- The gap counts for the measure too, so what is short enough behind it was so before.
    have fewer : PassesOn go rest.length := by
      intro shapes text short
      refine passesOn shapes text ?_
      rw [List.length_append]
      omega
    rw [same] at first ⊢
    refine (fewer.skipOpening shape first shapes).mono ?_
    rintro _ left ⟨between, value, closes⟩
    exact ⟨between, value.after_gap blank, closes⟩
  split
  · exact .word .null first rfl goesOn
  · exact .word .yes first rfl goesOn
  · exact .word .no first rfl goesOn
  · exact .negative first (fun _ => yields_skipNumber true) fun _ => goesOn
  · exact .literal first (fun _ => yields_skipString) fun _ _ after passes =>
      goesOn after (begins_literal passes)
  · split
    · exact .unsigned (fun _ => yields_skipNumber false) fun _ => goesOn
    split
    next bracket =>
      rcases Bool.or_eq_true_iff.mp bracket with isList | isObject
      · exact opening .list (beq_iff_eq.mp isList)
      · exact opening .object (beq_iff_eq.mp isObject)
    · exact consumes_failNext _

theorem PassesOn.skipAfter (passesOn : PassesOn go text.length) (shape : Shape)
    (outer : List Shape) :
    Yields (skipAfter go shape.byte (outer.map Shape.byte)) text fun _ rest =>
      Closes (shape :: outer) text rest := by
  refine .peekToken ?_
  rintro gap rest rfl blank
  cases head : (utf8 rest).head? with
  | none => exact consumes_failNext _
  | some b =>
    dsimp only
    split
    next comma =>
      obtain rfl : b = 44 := by simpa using comma
      obtain ⟨left, rfl, passes⟩ := passes_first .comma blank head
      refine .skip (mark_ascii .comma) ((passesOn.skipMember ?_ shape outer).mono ?_)
      · simp only [List.length_append, List.length_cons]
        omega
      · rintro _ rest ⟨between, after, begins, closed, more⟩
        exact ⟨between, after, Or.inr ⟨left, passes, begins⟩, closed, more⟩
    split
    next closes =>
      obtain ⟨left, rfl, closed⟩ := passes_closing shape blank head closes
      refine .skip (mark_ascii _) ((passesOn outer left ?_).1.mono fun _ rest more => ?_)
      · simp only [List.length_append, List.length_cons]
        omega
      · exact ⟨_, left, Or.inl (passes_nil _), closed, more⟩
    · exact consumes_failNext _

end

/-- The loop goes on until all brackets are closed, if it may make a step for each character. -/
theorem passesOn_skipOpen (fuel : Nat) : PassesOn (skipOpen fuel) fuel := by
  induction fuel with
  | zero => exact fun _ _ short => absurd short (Nat.not_lt_zero _)
  | succ fuel ih =>
    intro shapes text short
    have fewer : PassesOn (skipOpen fuel) text.length := by
      intro shapes text' shorter
      exact ih shapes text' (by omega)
    refine ⟨?_, ?_⟩
    · cases shapes with
      | nil =>
        rw [List.map_nil, skipOpen_nil]
        exact yields_pure (passes_nil text)
      | cons shape outer =>
        rw [List.map_cons, skipOpen_cons]
        exact fewer.skipAfter shape outer
    · rw [skipOpen_false]
      exact fewer.skipOne shapes

theorem readsValue_skipValue : ReadsValue skipValue := by
  intro text
  -- A value without open brackets around it: what is to be closed is nothing.
  refine Consumes.sized (h := fun n => skipOpen (2 * n + 2) false []) fun n long => ?_
  have shorter := length_le_utf8 text
  refine (passesOn_skipOpen (2 * n + 2) [] text (by omega)).2.mono ?_
  rintro _ rest ⟨between, ⟨tokens, value, passes⟩, ends⟩
  have whole := passes.append ends
  rw [List.append_nil] at whole
  exact ⟨tokens, value, whole⟩

/-! ### Records -/

section

variable {σ : Type} {fields : List (Field σ)} {text : List Char}

theorem yields_namedFields (reads : ∀ field ∈ fields, ∀ value, ReadsValue (field.read value))
    (fuel : Nat) (first : Bool) (seen : List String) (value : σ) :
    Yields (namedFields fields fuel first seen value) text fun _ rest =>
      Shape.object.Inside first text rest := by
  induction fuel generalizing text first seen value with
  | zero => exact yields_pure (Or.inl (passes_nil text))
  | succ fuel ih =>
    refine (yields_moreKeys first).bind ?_
    rintro more between ⟨separated, quote⟩
    cases more with
    | false => exact yields_pure (Or.inl separated)
    | true =>
      refine .literal (quote rfl) (fun _ => yields_stringBody) fun key pieces start keyed => ?_
      have goesOn {after : List Char} (item : Shape.object.Item between after)
          (seen : List String) (value : σ) :
          Yields (namedFields fields fuel false seen value) after fun _ rest =>
            Shape.object.Inside first text rest :=
        (ih false seen value).mono fun _ _ inside => .cons .object separated item inside
      split
      · refine yields_colon.bind fun _ behind colon => ?_
        refine (readsValue_skipValue behind).bind fun _ after begins => ?_
        exact goesOn ⟨pieces, behind, keyed.append colon, begins⟩ seen value
      next field found =>
        split
        · exact consumes_failUnplaced _
        · refine yields_colon.bind fun _ behind colon => ?_
          refine (reads field (List.mem_of_find?_eq_some found) value behind).bind ?_
          intro value after begins
          exact goesOn ⟨pieces, behind, keyed.append colon, begins⟩ (key :: seen) value

theorem yields_orderedFields (reads : ∀ field ∈ fields, ∀ value, ReadsValue (field.read value))
    (expected : Option String) (count : Nat) (first : Bool) (value : σ) :
    Yields (orderedFields expected count fields first value) text fun _ rest =>
      Shape.list.Inside first text rest := by
  induction fields generalizing text count first value with
  | nil => exact yields_pure (Or.inl (passes_nil text))
  | cons field fields ih =>
    obtain ⟨here, later⟩ := List.forall_mem_cons.mp reads
    refine (yields_moreElements first).bind ?_
    intro more between separated
    cases more with
    | true =>
      refine (here value between).bind fun value after item => ?_
      exact (ih later (count + 1) false value).mono fun _ _ inside =>
        .cons .list separated item inside
    | false =>
      cases expected with
      | some title => exact consumes_failUnplaced _
      | none => exact yields_pure (Or.inl separated)

theorem readsValue_record (title : String) (needAll : Bool) (start : σ)
    (reads : ∀ field ∈ fields, ∀ value, ReadsValue (field.read value)) :
    ReadsValue (record title needAll fields start) := by
  refine ReadsValue.placed (readsValue_needToken ?_)
  intro text b first
  split
  · exact yields_brackets .list first (fun _ => yields_orderedFields reads _ 0 true start)
      fun _ => yields_endList
  · refine Consumes.sized
      (h := fun n => closedBy endObject (entering do skip; namedFields fields n true [] start))
      fun n _ => ?_
    exact yields_brackets .object first (fun _ => yields_namedFields reads n true [] start)
      fun _ => yields_endObject
  · exact consumes_wrongType _

end

/-! ### Values of any kind -/

theorem yields_entries {value : Reader Content} (reads : ReadsValue value) {text : List Char}
    (fuel : Nat) (first : Bool) :
    Yields (entries value fuel first) text fun _ rest => Shape.object.Inside first text rest := by
  induction fuel generalizing text first with
  | zero => exact yields_pure (Or.inl (passes_nil text))
  | succ fuel ih =>
    refine (yields_moreKeys first).bind ?_
    rintro more between ⟨separated, quote⟩
    cases more with
    | false => exact yields_pure (Or.inl separated)
    | true =>
      refine .literal (quote rfl) (fun _ => yields_stringBody) fun _ pieces start keyed => ?_
      refine yields_colon.bind fun _ behind colon => ?_
      refine (reads behind).bind fun _ after begins => ?_
      refine (ih false).mono fun _ _ inside => ?_
      exact .cons .object separated ⟨pieces, behind, keyed.append colon, begins⟩ inside

theorem readsValue_content (limit : Nat) : ReadsValue (content limit) := by
  induction limit with
  | zero => exact fun _ => consumes_failNext _
  | succ limit ih =>
    refine readsValue_needToken ?_
    intro text b first
    split
    · exact .word .null first rfl fun _ begins => yields_pure begins
    · exact .word .yes first rfl fun _ begins => yields_pure begins
    · exact .word .no first rfl fun _ begins => yields_pure begins
    · exact .negative first (fun _ => yields_number true) fun _ _ begins => yields_pure begins
    · exact .literal first (fun _ => yields_stringBody) fun _ _ _ passes =>
        yields_pure (begins_literal passes)
    · refine Consumes.sized
        (h := fun n => closedBy endList (entering do
          skip
          return Content.list (← elements (content limit) n true #[]).toList))
        fun n _ => yields_brackets .list first (fun text => ?_) fun _ => yields_endList
      exact (yields_elements ih n true #[]).bind fun _ _ inside => yields_pure inside
    · refine Consumes.sized
        (h := fun n => closedBy endObject (entering do
          skip
          entries (content limit) n true
          return Content.other))
        fun n _ => yields_brackets .object first (fun text => ?_) fun _ => yields_endObject
      exact (yields_entries ih n true).bind fun _ _ inside => yields_pure inside
    · split
      · exact .unsigned (fun _ => yields_number false) fun _ _ begins => yields_pure begins
      · exact consumes_failNext _

/-! ### Whole texts -/

/-- A text that is read to its end is JSON. -/
theorem ReadsValue.isJson {α : Type} {reader : Reader α} (reads : ReadsValue reader)
    {source : String} {value : α} (read : parse reader source = .ok value) : IsJson source := by
  have yields : Yields (wholeText reader) source.toList fun _ _ => IsJson source := by
    refine (reads source.toList).bind ?_
    rintro value left ⟨tokens, phrase, passes⟩
    refine .peekToken ?_
    rintro gap rest rfl blank
    cases ended : (utf8 rest).head? with
    | some b => exact consumes_failNext _
    | none =>
      -- No byte is left, so no character is.
      have long := length_le_utf8 rest
      rw [List.head?_eq_none_iff.mp ended] at long
      obtain rfl := List.eq_nil_of_length_eq_zero (Nat.le_zero.mp long)
      rw [List.append_nil] at passes
      exact yields_pure ⟨tokens, phrase, passes.spaced blank⟩
  rw [parse_eq] at read
  cases run : wholeText reader source.toUTF8 ⟨0, maxDepth⟩ with
  | error fault q =>
    rw [run] at read
    cases read
  | ok a q =>
    obtain ⟨_, _, json⟩ := yields _ _ a q (remaining_toUTF8 source) run
    exact json

end UnusedMethods.Json
