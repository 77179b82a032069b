import UnusedMethods.Proofs.SkippedValues

/-!
# Readers of values

The readers of texts, truth values, lists, records and values of any kind see tokens only. So a text
is read as any other text that has the same tokens with blanks between them.
-/

namespace UnusedMethods.Json

/-! ### Single values -/

theorem refuses_wrongType {α : Type} {depth : Nat} {ahead : Ahead} (expected : String) :
    Refuses (wrongType expected : Reader α) depth ahead := by
  refine Refuses.placed (refuses_bind_right fun b _ => ?_)
  have skipped {value : Type} {next : Reader value} {message : value → String} {depth : Nat} :
      Refuses (do skip; let a ← next; failUnplaced (.wrongType (message a) expected) : Reader α)
        depth fun _ => True :=
    refuses_bind_right fun _ _ => refuses_bind_right fun _ _ => refuses_failUnplaced _
  split
  · exact skipped
  · exact skipped
  · exact skipped
  · exact skipped
  · exact skipped
  · exact refuses_failUnplaced _
  · exact refuses_failUnplaced _
  · split
    · exact refuses_bind_right fun _ _ => refuses_failUnplaced _
    · exact refuses_failNext _
  · exact refuses_failNext _

theorem seesTokens_text : SeesTokens text := by
  refine SeesTokens.placed (seesTokens_needToken ?_)
  intro depth token tokens
  generalize known : token.byte = b
  split
  · obtain ⟨pieces, rfl⟩ := Token.eq_literal known
    exact .after (reads_skip_started _ tokens)
      ((settled_stringBody pieces).token.fewer (Nat.lt_succ_self _))
  · exact (refuses_wrongType _).settled

theorem seesTokens_bool : SeesTokens bool := by
  refine SeesTokens.placed (seesTokens_needToken ?_)
  intro depth token tokens
  generalize known : token.byte = b
  split
  · obtain rfl := Token.eq_word .yes known
    exact .word rfl ((reads_pure true).settled (fewer_cons _ _ _))
  · obtain rfl := Token.eq_word .no known
    exact .word rfl ((reads_pure false).settled (fewer_cons _ _ _))
  · exact (refuses_wrongType _).settled

theorem SeesTokens.optional {α : Type} {reader : Reader α} (sees : SeesTokens reader) :
    SeesTokens (optional reader) := by
  intro depth tokens
  refine .peekToken ?_ ?_
  · rintro rfl
    exact (sees depth []).keeping some
  · rintro token tokens rfl
    split
    next null =>
      obtain rfl := Token.eq_word .null (Option.some.inj null)
      exact .word rfl ((reads_pure none).settled (fewer_cons _ _ _))
    next => exact ((sees depth (token :: tokens)).keeping some).started

/-! ### Lists -/

theorem settled_moreElements {depth : Nat} (first : Bool) (tokens : List Token) :
    Settled (moreElements first) depth (Spelled tokens) (Fewer (tokens.length + 1)) := by
  -- Whether there is more is told by a token that is looked at and not passed over.
  have here (more : Bool) (token : Token) (tokens : List Token) {limit : Nat}
      (less : tokens.length + 1 < limit) :
      Settled (pure more) depth (Started token tokens) (Fewer limit) :=
    Agree.started ((reads_pure more).settled ⟨token :: tokens, less, rfl⟩)
  refine .peekToken (fun _ => (refuses_failNext _).settled) ?_
  rintro token tokens rfl
  split
  next none_ => cases none_
  next => exact here false token tokens (Nat.lt_succ_self _)
  next b _ same =>
    split
    · exact here true token tokens (Nat.lt_succ_self _)
    split
    · exact (refuses_failNext _).settled
    next comma =>
      have byte : token.byte = 44 := by simpa [← Option.some.inj same] using comma
      obtain rfl := Token.eq_mark .comma byte
      refine .after (reads_skip_mark .comma tokens) ?_
      refine .peekToken (fun _ => (refuses_failNext _).settled) ?_
      rintro next tokens rfl
      split
      · exact (refuses_failNext _).settled
      · exact here true next tokens (Nat.lt_succ_of_lt (Nat.lt_succ_self _))
      · exact (refuses_failNext _).settled

theorem settled_endList {depth : Nat} (tokens : List Token) :
    Settled endList depth (Spelled tokens) (Fewer tokens.length) := by
  refine .peekToken (fun _ => (refuses_failNext _).settled) ?_
  rintro token tokens rfl
  split
  next close =>
    obtain rfl := Token.eq_mark .closeList (Option.some.inj close)
    exact (reads_skip_mark _ tokens).settled (fewer_cons _ _ _)
  next =>
    refine Refuses.settled (refuses_bind_right fun _ _ => refuses_bind_right fun _ _ => ?_)
    split
    · exact refuses_failNext _
    · exact refuses_failNext _
  · exact (refuses_failNext _).settled
  · exact (refuses_failNext _).settled

theorem settled_endObject {depth : Nat} (tokens : List Token) :
    Settled endObject depth (Spelled tokens) (Fewer tokens.length) := by
  refine .peekToken (fun _ => (refuses_failNext _).settled) ?_
  rintro token tokens rfl
  split
  next close =>
    obtain rfl := Token.eq_mark .closeObject (Option.some.inj close)
    exact (reads_skip_mark _ tokens).settled (fewer_cons _ _ _)
  · exact (refuses_failNext _).settled
  · exact (refuses_failNext _).settled
  · exact (refuses_failNext _).settled

-- The two runs have fuels of their own, since each goes by the length of its text. Every element
-- takes a token, so neither runs out.
theorem agree_elements {α : Type} {reader : Reader α} (sees : SeesTokens reader) {depth : Nat}
    {fuel fuel' : Nat} {tokens : List Token} (enough : tokens.length < fuel)
    (enough' : tokens.length < fuel') (first : Bool) (done : Array α) :
    Agree (elements reader fuel first done) (elements reader fuel' first done) depth
      (Spelled tokens) (Fewer (tokens.length + 1)) := by
  induction fuel generalizing fuel' tokens first done with
  | zero => omega
  | succ fuel ih =>
    obtain ⟨fuel', rfl⟩ : ∃ n, fuel' = n + 1 := ⟨fuel' - 1, by omega⟩
    refine (settled_moreElements first tokens).bind ?_
    rintro more _ ⟨others, fewer, rfl⟩
    cases more with
    | false => exact (reads_pure done).settled ⟨others, fewer, rfl⟩
    | true =>
      refine (sees depth others).bind ?_
      rintro value _ ⟨left, fewest, rfl⟩
      have less : left.length < tokens.length := by omega
      exact (ih (by omega) (by omega) false (done.push value)).fewer_of_le (by omega)

section

variable {α : Type} {m : Mark} {tokens : List Token} {depth : Nat} {ending : Reader Unit}

/-- A list or an object is read from its opening mark on, by a reader of its inside and one of its
end. -/
theorem agree_brackets {inside inside' : Reader α}
    (agree : Agree inside inside' (depth - 1) (Spelled tokens) (Fewer (tokens.length + 1)))
    (ends : ∀ tokens, Settled ending depth (Spelled tokens) (Fewer tokens.length)) :
    Agree (closedBy ending (entering do skip; inside)) (closedBy ending (entering do skip; inside'))
      depth (Started (.mark m) tokens) (Fewer (tokens.length + 1)) := by
  refine .closedBy (.entering (.after (reads_skip_mark m tokens) agree)) ?_
  rintro value _ ⟨others, fewer, rfl⟩
  exact (ends others).fewer_of_le (by omega)

/-- The reader of the inside may go by the length of the text. -/
theorem settled_brackets (inside : Nat → Reader α)
    (agree : ∀ n n', tokens.length < n → tokens.length < n' →
      Agree (inside n) (inside n') (depth - 1) (Spelled tokens) (Fewer (tokens.length + 1)))
    (ends : ∀ tokens, Settled ending depth (Spelled tokens) (Fewer tokens.length)) :
    Settled (do
      let limit := (← read).size
      closedBy ending (entering do skip; inside limit)) depth (Started (.mark m) tokens)
      (Fewer (tokens.length + 1)) := by
  refine .sized (h := fun n => closedBy ending (entering do skip; inside n))
    (fun xs started => length_le_of_spelled (spelled_of_started xs started)) ?_
  exact fun n n' enough enough' => agree_brackets (agree n n' enough enough') ends

end

theorem SeesTokens.listOf {α : Type} {reader : Reader α} (sees : SeesTokens reader) :
    SeesTokens (listOf reader) := by
  refine SeesTokens.placed (seesTokens_needToken ?_)
  intro depth token tokens
  generalize known : token.byte = b
  split
  · obtain rfl := Token.eq_mark .openList known
    refine settled_brackets (fun limit => do return (← elements reader limit true #[]).toList) ?_
      settled_endList
    intro n n' enough enough'
    exact (agree_elements sees enough enough' true #[]).keeping Array.toList
  · exact (refuses_wrongType _).settled

/-! ### Objects -/

/-- Before a key its literal comes at once; else it is the end of the object. -/
def KeyNext (limit : Nat) (more : Bool) (after : Ahead) : Prop :=
  if more then ∃ pieces tokens, tokens.length < limit ∧ after = Started (.literal pieces) tokens
  else Fewer (limit + 1) more after

theorem settled_moreKeys {depth : Nat} (first : Bool) (tokens : List Token) :
    Settled (moreKeys first) depth (Spelled tokens) (KeyNext tokens.length) := by
  refine .peekToken (fun _ => (refuses_failNext _).settled) ?_
  rintro token tokens rfl
  split
  next none_ => cases none_
  next =>
    exact Agree.started ((reads_pure false).settled ⟨token :: tokens, Nat.lt_succ_self _, rfl⟩)
  next b _ same =>
    obtain rfl := Option.some.inj same
    split
    · split
      next quote =>
        obtain ⟨pieces, rfl⟩ := Token.eq_literal (by simpa using quote)
        exact (reads_pure true).settled ⟨pieces, tokens, Nat.lt_succ_self _, rfl⟩
      · exact (refuses_failNext _).settled
    split
    · exact (refuses_failNext _).settled
    next comma =>
      have byte : token.byte = 44 := by simpa using comma
      obtain rfl := Token.eq_mark .comma byte
      refine .after (reads_skip_mark .comma tokens) ?_
      refine .peekToken (fun _ => (refuses_failNext _).settled) ?_
      rintro next tokens rfl
      split
      next quote =>
        obtain ⟨pieces, rfl⟩ := Token.eq_literal (Option.some.inj quote)
        exact (reads_pure true).settled
          ⟨pieces, tokens, Nat.lt_succ_of_lt (Nat.lt_succ_self _), rfl⟩
      · exact (refuses_failNext _).settled
      · exact (refuses_failNext _).settled
      · exact (refuses_failNext _).settled

/-! ### Records -/

section

variable {σ : Type} {fields : List (Field σ)} {depth : Nat}

theorem agree_namedFields (sees : ∀ field ∈ fields, ∀ value, SeesTokens (field.read value))
    {fuel fuel' : Nat} {tokens : List Token} (enough : tokens.length < fuel)
    (enough' : tokens.length < fuel') (first : Bool) (seen : List String) (value : σ) :
    Agree (namedFields fields fuel first seen value) (namedFields fields fuel' first seen value)
      depth (Spelled tokens) (Fewer (tokens.length + 1)) := by
  induction fuel generalizing fuel' tokens first seen value with
  | zero => omega
  | succ fuel ih =>
    obtain ⟨fuel', rfl⟩ : ∃ n, fuel' = n + 1 := ⟨fuel' - 1, by omega⟩
    refine (settled_moreKeys first tokens).bind ?_
    intro more after known
    cases more with
    | false =>
      obtain ⟨others, fewer, rfl⟩ := known
      exact (reads_pure value).settled ⟨others, fewer, rfl⟩
    | true =>
      obtain ⟨pieces, others, less, rfl⟩ := known
      -- Whatever becomes of the field, the reader goes on with fewer tokens than before.
      have goesOn {left : List Token} (fewer : left.length < others.length) (seen : List String)
          (value : σ) :
          Agree (namedFields fields fuel false seen value)
            (namedFields fields fuel' false seen value) depth (Spelled left)
            (Fewer (tokens.length + 1)) :=
        (ih (by omega) (by omega) false seen value).fewer_of_le (by omega)
      refine .literal (fun _ => settled_stringBody pieces) fun key => ?_
      cases found : fields.find? (·.name == key) with
      | none =>
        refine (settled_colon others).bind ?_
        rintro _ _ ⟨behind, fewer, rfl⟩
        refine (seesTokens_skipValue depth behind).bind ?_
        rintro _ _ ⟨left, fewest, rfl⟩
        exact goesOn (by omega) seen value
      | some field =>
        by_cases again : seen.contains key = true
        · simp only [again, if_true]
          exact (refuses_failUnplaced _).settled
        · simp only [again]
          refine (settled_colon others).bind ?_
          rintro _ _ ⟨behind, fewer, rfl⟩
          refine (sees field (List.mem_of_find?_eq_some found) value depth behind).bind ?_
          rintro value _ ⟨left, fewest, rfl⟩
          exact goesOn (by omega) (key :: seen) value

theorem settled_orderedFields (expected : Option String) (count : Nat)
    (sees : ∀ field ∈ fields, ∀ value, SeesTokens (field.read value)) (tokens : List Token)
    (first : Bool) (value : σ) :
    Settled (orderedFields expected count fields first value) depth (Spelled tokens)
      (Fewer (tokens.length + 1)) := by
  -- The fields bound the elements that are read, so there is no fuel here.
  induction fields generalizing count tokens first value with
  | nil => exact (reads_pure value).settled ⟨tokens, Nat.lt_succ_self _, rfl⟩
  | cons field fields ih =>
    obtain ⟨here, later⟩ := List.forall_mem_cons.mp sees
    refine (settled_moreElements first tokens).bind ?_
    rintro more _ ⟨others, fewer, rfl⟩
    cases more with
    | true =>
      refine (here value depth others).bind ?_
      rintro value _ ⟨left, fewest, rfl⟩
      exact (ih (count + 1) later left false value).fewer_of_le (by omega)
    | false =>
      cases expected with
      | some title => exact (refuses_failUnplaced _).settled
      | none => exact (reads_pure value).settled ⟨others, fewer, rfl⟩

theorem seesTokens_record (title : String) (needAll : Bool) (start : σ)
    (sees : ∀ field ∈ fields, ∀ value, SeesTokens (field.read value)) :
    SeesTokens (record title needAll fields start) := by
  refine SeesTokens.placed (seesTokens_needToken ?_)
  intro depth token tokens
  generalize known : token.byte = b
  split
  · obtain rfl := Token.eq_mark .openList known
    exact agree_brackets (settled_orderedFields _ 0 sees tokens true start) settled_endList
  · obtain rfl := Token.eq_mark .openObject known
    refine settled_brackets (fun limit => namedFields fields limit true [] start) ?_
      settled_endObject
    exact fun n n' enough enough' => agree_namedFields sees enough enough' true [] start
  · exact (refuses_wrongType _).settled

end

/-! ### Values of any kind -/

theorem agree_entries {value : Reader Content} (sees : SeesTokens value) {depth fuel fuel' : Nat}
    {tokens : List Token} (enough : tokens.length < fuel) (enough' : tokens.length < fuel')
    (first : Bool) :
    Agree (entries value fuel first) (entries value fuel' first) depth (Spelled tokens)
      (Fewer (tokens.length + 1)) := by
  induction fuel generalizing fuel' tokens first with
  | zero => omega
  | succ fuel ih =>
    obtain ⟨fuel', rfl⟩ : ∃ n, fuel' = n + 1 := ⟨fuel' - 1, by omega⟩
    refine (settled_moreKeys first tokens).bind ?_
    intro more after known
    cases more with
    | false =>
      obtain ⟨others, fewer, rfl⟩ := known
      exact (reads_pure ()).settled ⟨others, fewer, rfl⟩
    | true =>
      obtain ⟨pieces, others, less, rfl⟩ := known
      refine .literal (fun _ => settled_stringBody pieces) fun key => ?_
      refine (settled_colon others).bind ?_
      rintro _ _ ⟨behind, fewer, rfl⟩
      refine (sees depth behind).bind ?_
      rintro _ _ ⟨left, fewest, rfl⟩
      exact (ih (by omega) (by omega) false).fewer_of_le (by omega)

theorem seesTokens_content (limit : Nat) : SeesTokens (content limit) := by
  induction limit with
  | zero => exact fun depth tokens => (refuses_failNext _).settled
  | succ limit ih =>
    refine seesTokens_needToken ?_
    intro depth token tokens
    -- A single value is read once its token is passed over.
    have last {token : Token} (value : Content) :
        Settled (pure value) depth (Spelled tokens) (Fewer (token :: tokens).length) :=
      (reads_pure value).settled (fewer_cons _ _ _)
    generalize known : token.byte = b
    split
    · obtain rfl := Token.eq_word .null known
      exact .word rfl (last .other)
    · obtain rfl := Token.eq_word .yes known
      exact .word rfl (last .other)
    · obtain rfl := Token.eq_word .no known
      exact .word rfl (last .other)
    · obtain ⟨n, rfl⟩ := Token.eq_number (Or.inl known)
      exact (Agree.number (fun _ => settled_number true n) fun _ => last .other).1
        (Token.negative_of_byte known)
    · obtain ⟨pieces, rfl⟩ := Token.eq_literal known
      exact .literal (fun _ => settled_stringBody pieces) fun entry => last (.text entry)
    · obtain rfl := Token.eq_mark .openList known
      refine settled_brackets (fun n => do
        return Content.list (← elements (content limit) n true #[]).toList) ?_ settled_endList
      intro n n' enough enough'
      exact (agree_elements ih enough enough' true #[]).keeping fun values =>
        Content.list values.toList
    · obtain rfl := Token.eq_mark .openObject known
      refine settled_brackets (fun n => do
        entries (content limit) n true
        return Content.other) ?_ settled_endObject
      intro n n' enough enough'
      exact (agree_entries ih enough enough' true).keeping fun _ => Content.other
    · split
      next digit =>
        rw [← known] at digit
        obtain ⟨n, rfl⟩ := Token.eq_number (Or.inr digit)
        exact (Agree.number (fun _ => settled_number false n) fun _ => last .other).2
          (Token.unsigned_of_digit digit)
      · exact (refuses_failNext _).settled

/-! ### Whole texts -/

theorem remaining_toUTF8 (source : String) : remaining source.toUTF8 0 = utf8 source.toList := by
  have bytes : source.toUTF8 = (utf8 source.toList).toByteArray := by
    rw [utf8, ← List.utf8Encode, String.utf8Encode_toList]
    rfl
  rw [remaining, List.drop_zero, bytes, List.data_toByteArray]

/-- Read a value and then the end of the text. -/
def wholeText {α : Type} (reader : Reader α) : Reader α := do
  let a ← reader
  match ← peekToken with
  | some _ => failNext .trailingText
  | none => return a

theorem parse_eq {α : Type} (reader : Reader α) (source : String) :
    parse reader source = match wholeText reader source.toUTF8 ⟨0, maxDepth⟩ with
      | .ok a _ => .ok a
      | .error fault _ => .error fault :=
  rfl

theorem SeesTokens.wholeText {α : Type} {reader : Reader α} (sees : SeesTokens reader)
    (depth : Nat) (tokens : List Token) :
    Settled (wholeText reader) depth (Spelled tokens) fun _ _ => True := by
  refine (sees depth tokens).bind ?_
  rintro value _ ⟨others, _, rfl⟩
  refine .peekToken (fun _ => (reads_pure value).settled trivial) ?_
  exact fun token others _ => (refuses_failNext _).settled

/-- Texts with the same tokens and blanks between them are read alike. -/
theorem parse_eq_ok_iff {α : Type} {reader : Reader α} (sees : SeesTokens reader)
    {tokens : List Token} (fits : tokens.IsChain Fits) {source source' : String}
    (spaced : Spaced IsBlank IsBlank tokens source.toList)
    (spaced' : Spaced IsBlank IsBlank tokens source'.toList) (value : α) :
    parse reader source = .ok value ↔ parse reader source' = .ok value := by
  have stands {source : String} (spaced : Spaced IsBlank IsBlank tokens source.toList) :
      Stands source.toUTF8 ⟨0, maxDepth⟩ maxDepth (Spelled tokens) :=
    ⟨rfl, fits, source.toList, spaced, remaining_toUTF8 source⟩
  rw [parse_eq, parse_eq]
  have ended := sees.wholeText maxDepth tokens _ _ _ _ (stands spaced) (stands spaced')
  generalize wholeText reader source.toUTF8 _ = r, wholeText reader source'.toUTF8 _ = r' at ended ⊢
  cases ended with
  | failed => exact ⟨nofun, nofun⟩
  | read => exact Iff.rfl

end UnusedMethods.Json
