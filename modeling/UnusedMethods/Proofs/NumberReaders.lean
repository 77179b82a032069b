import UnusedMethods.Proofs.LiteralReaders

/-!
# Readers of numbers

A number is read to its end if what follows does not carry on a number: no digit, no point and no
letter of an exponent. All parts of a number but its first digit may be missing, so the readers look
at the byte behind each part.
-/

namespace UnusedMethods.Json

open Text (byteAt)

variable {depth : Nat} {rest : Ahead}

/-! ### Digits -/

theorem isDigit_byteOf {c : Char} (digit : c.isDigit) : isDigit (byteOf c) = true := by
  have range := toNat_of_isDigit digit
  have value := toNat_byteOf (c := c) (by omega)
  simp only [isDigit, Bool.and_eq_true, decide_eq_true_eq, UInt8.le_iff_toNat_le, value]
  exact range

theorem byteOf_ne_zero {c : Char} (digit : c.isDigit) (other : c ≠ '0') : byteOf c ≠ 48 := by
  intro same
  have range := toNat_of_isDigit digit
  have value := toNat_byteOf (c := c) (by omega)
  rw [same] at value
  exact other (Char.toNat_inj.mp value.symm)

theorem reads_digits {run : List UInt8} (digit : ∀ b ∈ run, isDigit b = true)
    (stops : Stops isDigit rest) :
    Reads digits depth (Then run rest) (run.map fun b => b.toNat - 48) rest := by
  intro bytes p here
  obtain ⟨taken, left⟩ := takeWhile_then digit stops here.2
  refine ⟨{ p with index := scanWhile isDigit bytes p.index }, ?_, here.1, ?_⟩
  · obtain ⟨_, ys, whole, _⟩ := here
    have inside : run.length ≤ (remaining bytes p.index).length := by
      rw [whole, List.length_append]
      omega
    have passed := map_byteAt inside
    rw [whole, List.take_left] at passed
    have values : digits bytes p = .ok
        ((List.range (scanWhile isDigit bytes p.index - p.index)).map
          fun k => (byteAt bytes (p.index + k)).toNat - 48)
        { p with index := scanWhile isDigit bytes p.index } := rfl
    have mapped := congrArg (List.map fun b => b.toNat - 48) passed
    rw [List.map_map] at mapped
    rw [values, scanWhile_eq, taken, Nat.add_sub_cancel_left, ← mapped]
    rfl
  · rwa [remaining_scanWhile]

theorem reads_skipDigits {run : List UInt8} {needed : Bool} (digit : ∀ b ∈ run, isDigit b = true)
    (some_ : needed = true → run ≠ []) (stops : Stops isDigit rest) :
    Reads (skipDigits needed) depth (Then run rest) () rest := by
  intro bytes p here
  obtain ⟨taken, left⟩ := takeWhile_then digit stops here.2
  refine ⟨{ p with index := scanWhile isDigit bytes p.index }, ?_, here.1, ?_⟩
  · have found : ¬ (needed && p.index == scanWhile isDigit bytes p.index) = true := by
      rw [scanWhile_eq, taken, Bool.and_eq_true, beq_iff_eq]
      rintro ⟨must, same⟩
      exact some_ must (List.eq_nil_of_length_eq_zero (by omega))
    simp only [skipDigits, bind_apply, read_apply, get_apply, modify_apply, if_neg found]
    rfl
  · rwa [remaining_scanWhile]

/-- What readers of numbers ask of the byte behind digits: whether it is a point, and whether it is
the letter of an exponent. It is no digit. -/
structure Looks (point letter : Bool) (b : Option UInt8) : Prop where
  point : (b == some 46) = point
  letter : (b == some 101 || b == some 69) = letter
  noDigit : (b.map isDigit).getD false = false

/-- A number does not go on into the bytes ahead. -/
def Ends (ahead : Ahead) : Prop :=
  ∀ xs, ahead xs → Looks false false xs.head?

theorem stops_of_looks {point letter : Bool}
    (looks : ∀ xs, rest xs → Looks point letter xs.head?) : Stops isDigit rest := by
  intro xs here b head
  have noDigit := (looks xs here).noDigit
  rw [Option.mem_def.mp head] at noDigit
  exact noDigit

theorem settled_real (negative : Bool) (m : Nat) (exponent : Int) :
    Settled (real negative m exponent) depth rest (Leaves rest) := by
  unfold real
  split
  · exact (reads_pure _).settled rfl
  · exact (refuses_failHere _).settled

/-! ### Exponents -/

theorem utf8_digits (ds : Digits) : utf8 ds.text = ds.text.map byteOf := by
  refine utf8_ascii fun c member => ?_
  have range := toNat_of_isDigit (ds.isDigit_of_mem member)
  omega

theorem isDigit_of_mem_map {cs : List Char} (digit : ∀ c ∈ cs, c.isDigit) {b : UInt8}
    (member : b ∈ cs.map byteOf) : isDigit b = true := by
  obtain ⟨c, inside, rfl⟩ := List.mem_map.mp member
  exact isDigit_byteOf (digit c inside)

/-- An exponent after its letter: a sign that is there or not, and digits. -/
theorem utf8_exponent (e : Exponent) :
    (byteOf e.letter = 101 ∨ byteOf e.letter = 69) ∧
    (∀ c ∈ e.sign, byteOf c = 43 ∨ byteOf c = 45) ∧
    utf8 e.text = byteOf e.letter ::
      (e.sign.toList.map byteOf ++ byteOf e.digits.first :: e.digits.others.map byteOf) := by
  have letter : ∀ c ∈ ['e', 'E'], c.toNat < 128 ∧ (byteOf c = 101 ∨ byteOf c = 69) :=
    forall_mem_of_all (by decide)
  have sign : ∀ c ∈ ['+', '-'], c.toNat < 128 ∧ (byteOf c = 43 ∨ byteOf c = 45) :=
    forall_mem_of_all (by decide)
  refine ⟨(letter _ e.valid.1).2, fun c given => (sign c (e.valid.2 c given)).2, ?_⟩
  rw [Exponent.text, utf8_cons_ascii (letter _ e.valid.1).1, utf8_append, utf8_digits,
    utf8_ascii fun c member => (sign c (e.valid.2 c (Option.mem_toList.mp member))).1]
  rfl

/-- The letter and the sign of an exponent are passed over; what comes then knows the sign. -/
theorem settled_sign {α : Type} {next : Option UInt8 → Reader α} {result : α → Ahead → Prop}
    (e : Exponent) (agree : ∀ sign, Settled (next sign) depth
      (Then (byteOf e.digits.first :: e.digits.others.map byteOf) rest) result) :
    Settled (do
        skip
        let sign ← peek
        if sign == some 43 || sign == some 45 then skip
        next sign) depth (Then (utf8 e.text) rest) result := by
  obtain ⟨_, signs, bytes⟩ := utf8_exponent e
  rw [bytes]
  refine .after reads_skip_then ?_
  cases given : e.sign with
  | none =>
    have first := isDigit_byteOf e.digits.valid.1
    -- The reader takes the first digit for what may be a sign, and it is none.
    have unsigned : ¬ (some (byteOf e.digits.first) == some 43 ||
        some (byteOf e.digits.first) == some 45) = true := by
      simp only [Bool.or_eq_true, beq_iff_eq, Option.some.injEq]
      rintro (same | same) <;> exact absurd first (by rw [same]; decide)
    refine .after reads_peek_then ?_
    rw [if_neg unsigned]
    exact agree _
  | some c =>
    refine .after reads_peek_then ?_
    rw [if_pos (by simpa using signs c given)]
    exact .after reads_skip_then (agree _)

theorem settled_exponentPart (negative : Bool) (m : Nat) (exponent : Int) (e : Exponent)
    (ends : Ends rest) :
    Settled (exponentPart negative m exponent) depth
      (Then (utf8 e.text) rest) (Leaves rest) := by
  have first := isDigit_byteOf e.digits.valid.1
  have digit (b : UInt8) := isDigit_of_mem_map e.digits.valid.2 (b := b)
  refine settled_sign e fun sign => .after reads_next_then ?_
  simp only [first, Bool.not_true, Bool.false_eq_true, if_false]
  -- The place of an exponent that is too large differs, but in both texts it is a failure.
  refine .noting fun p p' _ _ => .after (reads_digits digit (stops_of_looks ends)) ?_
  split
  · exact settled_real negative m _
  split
  · exact .refuses (fun _ _ _ => ⟨_, _, rfl⟩) (fun _ _ _ => ⟨_, _, rfl⟩)
  · exact settled_real negative 0 0

theorem settled_skipExponent (e : Exponent) (ends : Ends rest) :
    Settled skipExponent depth (Then (utf8 e.text) rest) (Leaves rest) := by
  have first := isDigit_byteOf e.digits.valid.1
  have digit (b : UInt8) := isDigit_of_mem_map e.digits.valid.2 (b := b)
  refine settled_sign e fun sign => .after reads_next_then ?_
  simp only [first, if_true]
  exact Reads.settled (reads_skipDigits digit (by nofun) (stops_of_looks ends)) rfl

/-! ### Whole numbers -/

/-- The bytes of an exponent that may be missing. -/
def exponentBytes (e : Option Exponent) : List UInt8 :=
  utf8 (e.elim [] Exponent.text)

theorem exponentBytes_none : exponentBytes none = [] :=
  rfl

/-- The bytes of a fraction that may be missing. -/
def fractionBytes (fraction : Option Digits) : List UInt8 :=
  utf8 (fraction.elim [] ('.' :: ·.text))

theorem utf8_unsigned (n : Numeral) :
    utf8 n.unsigned = byteOf n.whole.first ::
      (n.whole.others.map byteOf ++ (fractionBytes n.fraction ++ exponentBytes n.exponent)) := by
  rw [Numeral.unsigned, utf8_append, utf8_append, utf8_digits]
  rfl

theorem fractionBytes_some (ds : Digits) : fractionBytes (some ds) = 46 :: ds.text.map byteOf := by
  rw [fractionBytes, Option.elim, utf8_cons_ascii (by decide), utf8_digits]
  rfl

theorem looks_exponent (e : Option Exponent) (ends : Ends rest) (xs : List UInt8)
    (here : Then (exponentBytes e) rest xs) : Looks false e.isSome xs.head? := by
  cases e with
  | none =>
    rw [exponentBytes_none, then_nil] at here
    exact ends xs here
  | some e =>
    obtain ⟨letter, _, bytes⟩ := utf8_exponent e
    obtain ⟨ys, rfl, _⟩ := here
    rw [exponentBytes, Option.elim, bytes, List.cons_append, List.head?_cons]
    rcases letter with letter | letter <;> rw [letter] <;> exact ⟨rfl, rfl, rfl⟩

theorem looks_fraction (fraction : Option Digits) (e : Option Exponent) (ends : Ends rest)
    (xs : List UInt8) (here : Then (fractionBytes fraction ++ exponentBytes e) rest xs) :
    Looks fraction.isSome (fraction.isNone && e.isSome) xs.head? := by
  cases fraction with
  | none => exact looks_exponent e ends xs here
  | some ds =>
    obtain ⟨ys, rfl, _⟩ := here
    rw [fractionBytes_some]
    exact ⟨rfl, rfl, rfl⟩

theorem settled_fractionPart (negative : Bool) (m : Nat) (exponent : Int) (ds : Digits)
    (e : Option Exponent) (ends : Ends rest) :
    Settled (fractionPart negative m exponent) depth
      (Then (fractionBytes (some ds) ++ exponentBytes e) rest) (Leaves rest) := by
  have digit (b : UInt8) := isDigit_of_mem_map (fun _ => ds.isDigit_of_mem) (b := b)
  rw [fractionBytes_some, List.cons_append]
  refine .after reads_skip_then ?_
  rw [then_append]
  refine .after (reads_digits digit (stops_of_looks (looks_exponent e ends))) ?_
  -- The value does not matter: both texts give the same digits.
  generalize significand _ m = read
  refine .look (Looks false e.isSome) (looks_exponent e ends) ?_
  intro c c' looks looks'
  rw [looks.letter, looks'.letter]
  cases e with
  | none =>
    rw [exponentBytes_none, then_nil]
    exact settled_real negative _ _
  | some e => exact settled_exponentPart negative _ _ e ends

/-- A first digit that is a zero has no digit behind it. -/
theorem noDigit_of_zero (n : Numeral) (ends : Ends rest) (xs : List UInt8)
    (here : Then (n.whole.others.map byteOf ++ (fractionBytes n.fraction ++
      exponentBytes n.exponent)) rest xs) :
    (byteOf n.whole.first == 48 && (xs.head?.map isDigit).getD false) = false := by
  by_cases zero : n.whole.first = '0'
  · rw [n.valid zero] at here
    rw [(looks_fraction n.fraction n.exponent ends xs here).noDigit, Bool.and_false]
  · have other := byteOf_ne_zero n.whole.valid.1 zero
    rw [beq_eq_false_iff_ne.mpr other, Bool.false_and]

/-- Read a number after the digits before its point. -/
def numberRest (negative : Bool) (read : Nat × Nat) : Reader Number := do
  let c ← peek
  if c == some 46 then fractionPart negative read.1 read.2
  else if c == some 101 || c == some 69 then exponentPart negative read.1 read.2
  else if read.2 != 0 then real negative read.1 read.2
  else if negative && (read.1 == 0 || Nat.pow 2 63 < read.1) then real true read.1 0
  else return .whole (if negative then -(read.1 : Int) else read.1)

theorem number_eq (negative : Bool) :
    number negative = (do
      match ← next with
      | none => failHere .endInValue
      | some b =>
        if !isDigit b then failHere .badNumber
        else
          if b == 48 && ((← peek).map isDigit).getD false then failNext .badNumber
          let ds ← if b == 48 then pure [] else digits
          numberRest negative (significand ds (b.toNat - 48))) :=
  rfl

theorem settled_numberRest (negative : Bool) (read : Nat × Nat) (fraction : Option Digits)
    (e : Option Exponent) (ends : Ends rest) :
    Settled (numberRest negative read) depth
      (Then (fractionBytes fraction ++ exponentBytes e) rest) (Leaves rest) := by
  refine .look (Looks fraction.isSome (fraction.isNone && e.isSome))
    (looks_fraction fraction e ends) ?_
  intro c c' looks looks'
  rw [looks.point, looks.letter, looks'.point, looks'.letter]
  cases fraction with
  | some ds => exact settled_fractionPart negative _ _ ds e ends
  | none =>
    cases e with
    | some e => exact settled_exponentPart negative _ _ e ends
    | none =>
      show Settled _ depth (Then [] rest) _
      rw [then_nil]
      simp only [Option.isSome_none, Bool.false_eq_true, if_false, Bool.and_false]
      split
      · exact settled_real negative _ _
      split
      · exact settled_real true _ _
      · exact (reads_pure _).settled rfl

theorem settled_number (negative : Bool) (n : Numeral) (ends : Ends rest) :
    Settled (number negative) depth (Then (utf8 n.unsigned) rest) (Leaves rest) := by
  have first := isDigit_byteOf n.whole.valid.1
  have digit (b : UInt8) := isDigit_of_mem_map n.whole.valid.2 (b := b)
  rw [utf8_unsigned, number_eq]
  refine .after reads_next_then ?_
  simp only [first, Bool.not_true, Bool.false_eq_true, if_false]
  refine .look (fun c => (byteOf n.whole.first == 48 && (c.map isDigit).getD false) = false)
    (noDigit_of_zero n ends) ?_
  intro c c' noDigit noDigit'
  rw [noDigit, noDigit', if_neg Bool.false_ne_true]
  by_cases zero : n.whole.first = '0'
  · rw [zero, n.valid zero]
    exact settled_numberRest negative _ n.fraction n.exponent ends
  · have other := byteOf_ne_zero n.whole.valid.1 zero
    rw [if_neg (by simpa using other), then_append]
    refine .after (reads_digits digit ?_) (settled_numberRest negative _ n.fraction n.exponent ends)
    exact stops_of_looks (looks_fraction n.fraction n.exponent ends)

/-! ### Numbers that are skipped -/

/-- Skip an exponent that may be missing. -/
def skipNumberEnd : Reader Unit := do
  let c ← peek
  if c == some 101 || c == some 69 then skipExponent

/-- Skip a number after the digits before its point. -/
def skipNumberRest : Reader Unit := do
  if (← peek) == some 46 then
    skip
    skipDigits true
  skipNumberEnd

theorem skipNumber_eq :
    skipNumber = (do
      match ← next with
      | none => failHere .badNumber
      | some b =>
        if !isDigit b then failHere .badNumber
        if b == 48 then
          if ((← peek).map isDigit).getD false then failNext .badNumber
        else skipDigits false
        skipNumberRest) :=
  rfl

theorem settled_skipNumberEnd (e : Option Exponent) (ends : Ends rest) :
    Settled skipNumberEnd depth (Then (exponentBytes e) rest) (Leaves rest) := by
  refine .look (Looks false e.isSome) (looks_exponent e ends) ?_
  intro c c' looks looks'
  rw [looks.letter, looks'.letter]
  cases e with
  | none =>
    rw [exponentBytes_none, then_nil]
    exact (reads_pure ()).settled rfl
  | some e => exact settled_skipExponent e ends

theorem settled_skipNumberRest (fraction : Option Digits) (e : Option Exponent) (ends : Ends rest) :
    Settled skipNumberRest depth
      (Then (fractionBytes fraction ++ exponentBytes e) rest) (Leaves rest) := by
  refine .look (Looks fraction.isSome (fraction.isNone && e.isSome))
    (looks_fraction fraction e ends) ?_
  intro c c' looks looks'
  rw [looks.point, looks'.point]
  cases fraction with
  | none => exact settled_skipNumberEnd e ends
  | some ds =>
    have digit (b : UInt8) := isDigit_of_mem_map (fun _ => ds.isDigit_of_mem) (b := b)
    rw [fractionBytes_some, List.cons_append]
    refine .after reads_skip_then ?_
    rw [then_append]
    refine .after (reads_skipDigits digit (fun _ => by simp [Digits.text]) ?_)
      (settled_skipNumberEnd e ends)
    exact stops_of_looks (looks_exponent e ends)

theorem settled_skipNumber (n : Numeral) (ends : Ends rest) :
    Settled skipNumber depth (Then (utf8 n.unsigned) rest) (Leaves rest) := by
  have first := isDigit_byteOf n.whole.valid.1
  have digit (b : UInt8) := isDigit_of_mem_map n.whole.valid.2 (b := b)
  have looks := looks_fraction n.fraction n.exponent ends
  rw [utf8_unsigned, skipNumber_eq]
  refine .after reads_next_then ?_
  simp only [first, Bool.not_true, Bool.false_eq_true, if_false]
  by_cases zero : n.whole.first = '0'
  · rw [zero, n.valid zero]
    refine .look _ looks ?_
    intro c c' looks looks'
    rw [looks.noDigit, looks'.noDigit]
    exact settled_skipNumberRest n.fraction n.exponent ends
  · have other := byteOf_ne_zero n.whole.valid.1 zero
    rw [if_neg (by simpa using other), then_append]
    refine .after (reads_skipDigits digit (by nofun) ?_)
      (settled_skipNumberRest n.fraction n.exponent ends)
    exact stops_of_looks looks

end UnusedMethods.Json
