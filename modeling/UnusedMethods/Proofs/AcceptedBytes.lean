import UnusedMethods.Proofs.LiteralReaders

/-!
# What a reader has passed over

A reader that succeeds has passed over bytes, and these tell what it accepts. One run of a reader is
taken apart here into the runs of what the reader is made of, whatever fails on the way, and the
readers of words and literals are told by the bytes that they pass over.
-/

namespace UnusedMethods.Json

open Text (byteAt)

/-! ### One run of a reader -/

/-- If a reader succeeds before some bytes, what it reads and the bytes that it leaves are as
told. -/
def Consumes {α : Type} (reader : Reader α) (xs : List UInt8) (result : α → List UInt8 → Prop) :
    Prop :=
  ∀ bytes p value q, remaining bytes p.index = xs → reader bytes p = .ok value q →
    result value (remaining bytes q.index)

section

variable {α β : Type} {reader : Reader α} {f : α → Reader β} {xs : List UInt8}
variable {known known' : α → List UInt8 → Prop} {result : β → List UInt8 → Prop}

theorem Consumes.bind (first : Consumes reader xs known)
    (next : ∀ a ys, known a ys → Consumes (f a) ys result) : Consumes (reader >>= f) xs result := by
  intro bytes p value q here read
  rw [bind_apply] at read
  cases step : reader bytes p with
  | error fault between =>
    rw [step] at read
    cases read
  | ok a between =>
    rw [step] at read
    exact next a _ (first bytes p a between here step) bytes between value q rfl read

theorem consumes_pure {a : α} (holds : known a xs) : Consumes (pure a) xs known := by
  intro bytes p value q here read
  cases read
  rwa [here]

theorem Consumes.mono (consumes : Consumes reader xs known)
    (weaker : ∀ a ys, known a ys → known' a ys) : Consumes reader xs known' :=
  fun bytes p value q here read => weaker _ _ (consumes bytes p value q here read)

/-- A reader that fails everywhere leaves nothing to show. -/
theorem consumes_of_refuses (refuses : ∀ depth, Refuses reader depth fun _ => True) :
    Consumes reader xs known := by
  intro bytes p value q _ read
  obtain ⟨fault, q', failed⟩ := refuses p.depth bytes p ⟨rfl, trivial⟩
  rw [failed] at read
  cases read

theorem consumes_failHere (cause : Cause) : Consumes (failHere cause : Reader α) xs known :=
  consumes_of_refuses fun _ => refuses_failHere cause

theorem consumes_failNext (cause : Cause) : Consumes (failNext cause : Reader α) xs known :=
  consumes_of_refuses fun _ => refuses_failNext cause

theorem consumes_failUnplaced (cause : Cause) : Consumes (failUnplaced cause : Reader α) xs known :=
  consumes_of_refuses fun _ => refuses_failUnplaced cause

theorem Consumes.placed (consumes : Consumes reader xs known) :
    Consumes (placed reader) xs known := by
  intro bytes p value q here read
  rw [placed_apply] at read
  cases step : reader bytes p with
  | error fault between =>
    rw [step] at read
    cases read
  | ok a between =>
    rw [step] at read
    cases read
    exact consumes bytes p _ q here step

theorem Consumes.entering (consumes : Consumes reader xs known) :
    Consumes (entering reader) xs known := by
  intro bytes p value q here read
  rw [entering_apply] at read
  split at read
  · exact absurd read (by rintro ⟨⟩)
  · cases step : reader bytes { p with depth := p.depth - 1 } with
    | error fault between =>
      rw [step] at read
      cases read
    | ok a between =>
      rw [step] at read
      cases read
      exact consumes bytes { p with depth := p.depth - 1 } _ between here step

theorem Consumes.closedBy {ending : Reader Unit} (consumes : Consumes reader xs known)
    (ends : ∀ a ys, known a ys → Consumes ending ys fun _ => known' a) :
    Consumes (closedBy ending reader) xs known' := by
  intro bytes p value q here read
  cases step : reader bytes p with
  | error fault between =>
    obtain ⟨q', failed⟩ := closedBy_error ending step
    rw [failed] at read
    cases read
  | ok a between =>
    rw [closedBy_ok ending step] at read
    cases ended : ending bytes between with
    | error fault after =>
      rw [ended] at read
      cases read
    | ok _ after =>
      rw [ended] at read
      cases read
      exact ends value _ (consumes bytes p value between here step) bytes between _ q rfl ended

/-- A reader that goes by the length of the text, which is at least that of the bytes ahead. -/
theorem Consumes.sized {h : Nat → Reader α}
    (consumes : ∀ n, xs.length ≤ n → Consumes (h n) xs known) :
    Consumes (do h (← read).size) xs known := by
  intro bytes p value q here read
  refine consumes bytes.size ?_ bytes p value q here read
  rw [← here, length_remaining]
  omega

theorem Consumes.noting {h : Position → Reader α} (consumes : ∀ p, Consumes (h p) xs known) :
    Consumes (get >>= h) xs known :=
  fun bytes p value q here read => consumes p bytes p value q here read

/-! ### Looking at bytes and passing over them -/

theorem Consumes.peek {f : Option UInt8 → Reader β} (next : Consumes (f xs.head?) xs result) :
    Consumes (peek >>= f) xs result := by
  intro bytes p value q here read
  rw [bind_apply, peek_apply, here] at read
  exact next bytes p value q here read

theorem Consumes.skip {f : Unit → Reader β} (next : Consumes (f ()) xs.tail result) :
    Consumes (skip >>= f) xs result := by
  intro bytes p value q here read
  refine next bytes { p with index := p.index + 1 } value q ?_ read
  rw [remaining_add, here, List.drop_one]

theorem consumes_skip {known : Unit → List UInt8 → Prop} (holds : known () xs.tail) :
    Consumes skip xs known :=
  .skip (f := pure) (consumes_pure holds)

theorem Consumes.next {f : Option UInt8 → Reader β}
    (goesOn : Consumes (f xs.head?) xs.tail result) : Consumes (next >>= f) xs result := by
  rw [Json.next, bind_assoc]
  refine .peek ?_
  cases xs with
  | nil => exact goesOn
  | cons b xs =>
    simp only [List.head?_cons, Option.isSome_some, if_true, bind_assoc, pure_bind]
    exact .skip goesOn

theorem Consumes.needInString {f : UInt8 → Reader β}
    (goesOn : ∀ b ys, xs = b :: ys → Consumes (f b) ys result) :
    Consumes (do let b ← Json.needInString; Json.skip; f b) xs result := by
  rw [Json.needInString, bind_assoc]
  refine .peek ?_
  cases xs with
  | nil => exact (consumes_failHere _).bind fun _ _ => False.elim
  | cons b ys =>
    simp only [List.head?_cons, pure_bind]
    exact .skip (goesOn b ys rfl)

theorem Consumes.peekToken {f : Option UInt8 → Reader β}
    (next : Consumes (f (xs.dropWhile isSpace).head?) (xs.dropWhile isSpace) result) :
    Consumes (peekToken >>= f) xs result := by
  intro bytes p value q here read
  rw [bind_apply] at read
  -- Blanks are passed over for good: the run goes on from behind them.
  have moved : Json.peekToken bytes p = .ok (xs.dropWhile isSpace).head?
      { p with index := scanWhile isSpace bytes p.index } := by
    rw [← here, ← remaining_scanWhile]
    exact peek_apply bytes { p with index := scanWhile isSpace bytes p.index }
  rw [moved] at read
  refine next bytes _ value q ?_ read
  rw [remaining_scanWhile, here]

theorem consumes_word (letters : List UInt8) :
    Consumes (word letters) xs fun _ ys => xs = letters ++ ys := by
  induction letters generalizing xs with
  | nil => exact consumes_pure rfl
  | cons b letters ih =>
    refine .next ?_
    cases xs with
    | nil => exact consumes_failHere _
    | cons c xs =>
      dsimp only [List.head?_cons, List.tail_cons]
      split
      next same =>
        refine ih.mono fun _ ys whole => ?_
        rw [beq_iff_eq.mp same, whole, List.cons_append]
      · exact consumes_failHere _

end

/-! ### Literals -/

/-- The bytes of a literal after its opening quote. -/
inductive LiteralBytes : List UInt8 → Prop
  | quote : LiteralBytes [34]
  | plain {b : UInt8} {bs : List UInt8} (plain : isPlain b = true) (rest : LiteralBytes bs) :
      LiteralBytes (b :: bs)
  | short {b : UInt8} {bs : List UInt8} (known : (shortEscape b).isSome = true)
      (rest : LiteralBytes bs) : LiteralBytes (92 :: b :: bs)
  | unicode {a b c d : UInt8} {bs : List UInt8}
      (hex : ∀ e ∈ [a, b, c, d], (hexValue e).isSome = true) (rest : LiteralBytes bs) :
      LiteralBytes (92 :: 117 :: a :: b :: c :: d :: bs)

theorem LiteralBytes.run {run bs : List UInt8} (plain : ∀ b ∈ run, isPlain b = true)
    (rest : LiteralBytes bs) : LiteralBytes (run ++ bs) := by
  induction run with
  | nil => exact rest
  | cons b run ih =>
    obtain ⟨here, later⟩ := List.forall_mem_cons.mp plain
    exact .plain here (ih later)

section

variable {xs : List UInt8}

theorem consumes_plainRun : Consumes plainRun xs fun _ ys => ys = xs.dropWhile isPlain := by
  intro bytes p value q here read
  cases read
  rw [← here]
  exact remaining_scanWhile isPlain bytes p.index

theorem consumes_hexEscape :
    Consumes hexEscape xs fun _ ys => ∃ a b c d, xs = a :: b :: c :: d :: ys ∧
      ∀ e ∈ [a, b, c, d], (hexValue e).isSome = true := by
  intro bytes p value q here read
  simp only [hexEscape, bind_apply, read_apply, get_apply] at read
  split at read
  · cases read
  next enough =>
    simp only [bind_apply, modify_apply] at read
    have long : 4 ≤ (remaining bytes p.index).length := by
      rw [length_remaining]
      omega
    have passed := map_byteAt long
    have after := remaining_add bytes p.index 4
    rw [here] at long passed after
    obtain ⟨a, b, c, d, ys, rfl⟩ : ∃ a b c d ys, xs = a :: b :: c :: d :: ys := by
      rcases xs with _ | ⟨a, _ | ⟨b, _ | ⟨c, _ | ⟨d, ys⟩⟩⟩⟩
      iterate 4 exact absurd long (by simp)
      exact ⟨a, b, c, d, ys, rfl⟩
    -- The reader takes the digits by their offsets; the bytes are those ahead.
    have digits : (List.range 4).mapM (fun k => hexValue (byteAt bytes (p.index + k))) =
        [a, b, c, d].mapM hexValue := by
      have mapped := congrArg (List.mapM hexValue) passed
      rw [List.mapM_map] at mapped
      exact mapped
    cases known : (List.range 4).mapM (fun k => hexValue (byteAt bytes (p.index + k))) with
    | none =>
      rw [known] at read
      cases read
    | some values =>
      rw [known] at read
      cases read
      refine ⟨a, b, c, d, ?_, ?_⟩
      · rw [after]
        rfl
      · rw [digits] at known
        simp only [List.mapM_cons, Option.bind_eq_bind, Option.bind_eq_some_iff] at known
        obtain ⟨_, first, _, ⟨_, second, _, ⟨_, third, _, ⟨_, fourth, _⟩, _⟩, _⟩, _⟩ := known
        simp [first, second, third, fourth]

/-- What a unicode escape passes over is one escape or two. -/
theorem consumes_unicodeEscape :
    Consumes unicodeEscape xs fun _ ys => ∃ bs, xs = bs ++ ys ∧
      ∀ more, LiteralBytes more → LiteralBytes (92 :: 117 :: (bs ++ more)) := by
  -- The code unit decides: a second half alone fails, a first half needs another escape.
  refine consumes_hexEscape.bind ?_
  rintro n _ ⟨a, b, c, d, rfl, hex⟩
  split
  · exact consumes_failHere _
  split
  · exact consumes_pure ⟨[a, b, c, d], rfl, fun more rest => .unicode hex rest⟩
  refine .needInString ?_
  rintro backslash ys rfl
  split
  · exact (consumes_failHere _).bind fun _ _ => False.elim
  next isBackslash =>
    refine .needInString ?_
    rintro u zs rfl
    split
    · exact (consumes_failHere _).bind fun _ _ => False.elim
    next isLetter =>
      refine consumes_hexEscape.bind ?_
      rintro low _ ⟨a', b', c', d', rfl, hex'⟩
      split
      · exact consumes_failHere _
      · obtain rfl : backslash = 92 := by simpa using isBackslash
        obtain rfl : u = 117 := by simpa using isLetter
        refine consumes_pure ⟨[a, b, c, d, 92, 117, a', b', c', d'], rfl, fun more rest => ?_⟩
        exact .unicode hex (.unicode hex' rest)

theorem all_takeWhile (test : UInt8 → Bool) (xs : List UInt8) :
    ∀ b ∈ xs.takeWhile test, test b = true :=
  fun b member => List.all_eq_true.mp List.all_takeWhile b member

/-- What is taken up to an escape or the end of a literal. -/
theorem LiteralBytes.of_dropWhile {rest bs : List UInt8} (literal : LiteralBytes bs)
    (left : xs.dropWhile isPlain = bs ++ rest) : ∃ bs, LiteralBytes bs ∧ xs = bs ++ rest := by
  refine ⟨xs.takeWhile isPlain ++ bs, .run (all_takeWhile isPlain xs) literal, ?_⟩
  rw [List.append_assoc, ← left, List.takeWhile_append_dropWhile]

theorem consumes_stringRest (fuel : Nat) (done : String) :
    Consumes (stringRest fuel done) xs fun _ ys => ∃ bs, LiteralBytes bs ∧ xs = bs ++ ys := by
  induction fuel generalizing xs done with
  | zero => exact consumes_failHere _
  | succ fuel ih =>
    rw [stringRest_succ]
    refine consumes_plainRun.bind ?_
    rintro run _ rfl
    refine .peek ?_
    cases left : xs.dropWhile isPlain with
    | nil => exact consumes_failHere _
    | cons b ys =>
      refine .skip ?_
      dsimp only [List.tail_cons]
      split
      next quote =>
        obtain rfl : b = 34 := by simpa using quote
        exact consumes_pure (LiteralBytes.quote.of_dropWhile left)
      split
      · exact consumes_failHere _
      next backslash =>
        obtain rfl : b = 92 := by simpa using backslash
        refine .needInString ?_
        rintro e zs rfl
        split
        next letter =>
          obtain rfl : e = 117 := by simpa using letter
          refine consumes_unicodeEscape.bind ?_
          rintro c _ ⟨escape, rfl, escapes⟩
          refine (ih _).mono ?_
          rintro _ rest ⟨bs, literal, rfl⟩
          exact (escapes bs literal).of_dropWhile (by simp [left])
        · split
          next c known =>
            refine (ih _).mono ?_
            rintro _ rest ⟨bs, literal, rfl⟩
            exact (LiteralBytes.short (by simp [known]) literal).of_dropWhile left
          · exact consumes_failHere _

-- A literal that is skipped may have half of a pair in it, and its bytes are those of a literal all
-- the same.
theorem consumes_skipStringRest (fuel : Nat) :
    Consumes (skipStringRest fuel) xs fun _ ys => ∃ bs, LiteralBytes bs ∧ xs = bs ++ ys := by
  induction fuel generalizing xs with
  | zero => exact consumes_failHere _
  | succ fuel ih =>
    rw [skipStringRest_succ]
    refine consumes_plainRun.bind ?_
    rintro run _ rfl
    refine .peek ?_
    cases left : xs.dropWhile isPlain with
    | nil => exact consumes_failHere _
    | cons b ys =>
      dsimp only [List.head?_cons]
      split
      next quote =>
        obtain rfl : b = 34 := by simpa using quote
        exact consumes_skip (LiteralBytes.quote.of_dropWhile left)
      split
      · exact consumes_failHere _
      next backslash =>
        obtain rfl : b = 92 := by simpa using backslash
        refine .skip (.needInString ?_)
        rintro e zs rest
        obtain rfl : ys = e :: zs := rest
        split
        next letter =>
          obtain rfl : e = 117 := by simpa using letter
          refine consumes_hexEscape.bind ?_
          rintro c _ ⟨a, b, c, d, rfl, hex⟩
          refine ih.mono ?_
          rintro _ rest ⟨bs, literal, rfl⟩
          exact (LiteralBytes.unicode hex literal).of_dropWhile left
        split
        next known =>
          refine ih.mono ?_
          rintro _ rest ⟨bs, literal, rfl⟩
          exact (LiteralBytes.short known literal).of_dropWhile left
        · exact consumes_failHere _

end

end UnusedMethods.Json
