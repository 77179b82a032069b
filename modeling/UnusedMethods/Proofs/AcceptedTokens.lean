import Mathlib.Data.Option.Basic
import UnusedMethods.Proofs.AcceptedBytes
import UnusedMethods.Proofs.NumberReaders
import UnusedMethods.Proofs.TextBytes

/-!
# What readers of tokens accept

The bytes that a reader of a number has passed over are those of a number. Where the bytes ahead are
those of a text, the bytes of a token stand for the characters of a token, although a character may
have several bytes.
-/

namespace UnusedMethods.Json

/-! ### Numbers -/

section

variable {xs : List UInt8}

/-- The character of a byte that is one. -/
def charOf (b : UInt8) : Char :=
  Char.ofNat b.toNat

theorem toNat_charOf {b : UInt8} (ascii : b.toNat < 128) : (charOf b).toNat = b.toNat := by
  have valid : b.toNat.isValidChar := Or.inl (by omega)
  rw [charOf, Char.ofNat, dif_pos valid]
  rfl

theorem byteOf_charOf {b : UInt8} (ascii : b.toNat < 128) : byteOf (charOf b) = b := by
  rw [byteOf, toNat_charOf ascii]
  exact UInt8.ofNat_toNat

theorem isDigit_charOf {b : UInt8} (digit : isDigit b = true) :
    b.toNat < 128 ∧ (charOf b).isDigit = true := by
  simp only [isDigit, Bool.and_eq_true, decide_eq_true_eq, UInt8.le_iff_toNat_le] at digit
  have range : 48 ≤ b.toNat ∧ b.toNat ≤ 57 := digit
  have value := toNat_charOf (b := b) (by omega)
  refine ⟨by omega, ?_⟩
  simp only [Char.isDigit, Bool.and_eq_true, decide_eq_true_eq, UInt32.le_iff_toNat_le]
  have value' : (charOf b).val.toNat = b.toNat := value
  rw [value']
  exact range

theorem exists_digits {b : UInt8} {run : List UInt8} (first : isDigit b = true)
    (others : ∀ e ∈ run, isDigit e = true) :
    ∃ ds : Digits, ds.first = charOf b ∧ ds.others = run.map charOf ∧
      ds.text.map byteOf = b :: run := by
  refine ⟨⟨charOf b, run.map charOf, (isDigit_charOf first).2, ?_⟩, rfl, rfl, ?_⟩
  · intro c member
    obtain ⟨e, listed, rfl⟩ := List.mem_map.mp member
    exact (isDigit_charOf (others e listed)).2
  · rw [Digits.text, List.map_cons, byteOf_charOf (isDigit_charOf first).1, List.map_map]
    congr 1
    refine (List.map_congr_left fun e listed => ?_).trans (List.map_id run)
    exact byteOf_charOf (isDigit_charOf (others e listed)).1

theorem consumes_digits :
    Consumes digits xs fun ds ys => ∃ run, xs = run ++ ys ∧ (∀ b ∈ run, isDigit b = true) ∧
      ds.length = run.length := by
  intro bytes p value q here read
  cases read
  refine ⟨xs.takeWhile isDigit, ?_, all_takeWhile isDigit xs, ?_⟩
  · rw [remaining_scanWhile, here, List.takeWhile_append_dropWhile]
  · rw [List.length_map, List.length_range, scanWhile_eq, here, Nat.add_sub_cancel_left]

theorem consumes_skipDigits (needed : Bool) :
    Consumes (skipDigits needed) xs fun _ ys => ∃ run, xs = run ++ ys ∧
      (∀ b ∈ run, isDigit b = true) ∧ (needed = true → run ≠ []) := by
  intro bytes p value q here read
  simp only [skipDigits, bind_apply, read_apply, get_apply, modify_apply] at read
  split at read
  · cases read
  next found =>
    cases read
    refine ⟨xs.takeWhile isDigit, ?_, all_takeWhile isDigit xs, ?_⟩
    · rw [remaining_scanWhile, here, List.takeWhile_append_dropWhile]
    · rintro rfl none
      rw [scanWhile_eq, here, none] at found
      simp at found

theorem consumes_real (negative : Bool) (m : Nat) (exponent : Int) :
    Consumes (real negative m exponent) xs fun _ ys => ys = xs := by
  unfold real
  split
  · exact consumes_pure rfl
  · exact consumes_failHere _

/-- The bytes of an exponent. -/
theorem exists_exponent {letter b : UInt8} {sign : Option UInt8} {run : List UInt8}
    (letters : letter = 101 ∨ letter = 69) (signs : ∀ c ∈ sign, c = 43 ∨ c = 45)
    (first : isDigit b = true) (others : ∀ e ∈ run, isDigit e = true) :
    ∃ e : Exponent, utf8 e.text = letter :: (sign.toList ++ b :: run) := by
  obtain ⟨ds, _, _, text⟩ := exists_digits first others
  have valid : charOf letter ∈ ['e', 'E'] ∧ ∀ c ∈ sign.map charOf, c ∈ ['+', '-'] := by
    refine ⟨?_, ?_⟩
    · rcases letters with rfl | rfl
      · decide
      · decide
    · intro c member
      obtain ⟨s, given, rfl⟩ := Option.mem_map.mp member
      rcases signs s given with rfl | rfl
      · decide
      · decide
  refine ⟨⟨charOf letter, sign.map charOf, ds, valid⟩, ?_⟩
  rw [(utf8_exponent _).2.2, ← List.map_cons, ← Digits.text, text]
  have asciiLetter : letter.toNat < 128 := by
    rcases letters with rfl | rfl
    · decide
    · decide
  have signBytes : (sign.map charOf).toList.map byteOf = sign.toList := by
    cases sign with
    | none => rfl
    | some s =>
      rcases signs s rfl with rfl | rfl
      · rfl
      · rfl
  rw [byteOf_charOf asciiLetter, signBytes]

/-- The letter and the sign of an exponent are passed over; what comes then knows the sign. -/
theorem Consumes.sign {α : Type} {next : Option UInt8 → Reader α}
    {result : α → List UInt8 → Prop} {letter : UInt8}
    (goesOn : ∀ seen (sign : Option UInt8) ys, xs = sign.toList ++ ys →
      (∀ c ∈ sign, c = 43 ∨ c = 45) → Consumes (next seen) ys result) :
    Consumes (do
        Json.skip
        let sign ← Json.peek
        if sign == some 43 || sign == some 45 then Json.skip
        next sign) (letter :: xs) result := by
  refine .skip (.peek ?_)
  dsimp only [List.tail_cons]
  split
  next signed =>
    cases xs with
    | nil => cases signed
    | cons c ys =>
      refine .skip (goesOn _ (some c) ys rfl ?_)
      rintro _ ⟨rfl⟩
      simpa using signed
  · exact goesOn _ none xs rfl nofun

theorem consumes_exponentPart (negative : Bool) (m : Nat) (exponent : Int) {letter : UInt8}
    (letters : letter = 101 ∨ letter = 69) :
    Consumes (exponentPart negative m exponent) (letter :: xs) fun _ ys =>
      ∃ e : Exponent, letter :: xs = utf8 e.text ++ ys := by
  refine .sign ?_
  rintro seen sign ys rfl signs
  refine .next ?_
  cases ys with
  | nil => exact consumes_failHere _
  | cons b ys =>
    dsimp only [List.head?_cons, List.tail_cons]
    split
    · exact consumes_failHere _
    next digit =>
      refine .noting fun p => consumes_digits.bind ?_
      rintro ds zs ⟨run, rfl, others, _⟩
      obtain ⟨e, spelled⟩ := exists_exponent letters signs (by simpa using digit) others
      -- The value may overflow, but no more bytes are passed over for that.
      have read (m : Nat) (exponent : Int) :
          Consumes (real negative m exponent) zs fun _ ys =>
            ∃ e : Exponent, letter :: (sign.toList ++ b :: (run ++ zs)) = utf8 e.text ++ ys := by
        refine (consumes_real negative m exponent).mono ?_
        rintro _ _ rfl
        exact ⟨e, by simp [spelled]⟩
      split
      · exact read m _
      split
      · exact consumes_of_refuses fun _ => refuses_bind_right fun _ _ => refuses_failHere _
      · exact read 0 0

theorem consumes_skipExponent {letter : UInt8} (letters : letter = 101 ∨ letter = 69) :
    Consumes skipExponent (letter :: xs) fun _ ys =>
      ∃ e : Exponent, letter :: xs = utf8 e.text ++ ys := by
  refine .sign ?_
  rintro seen sign ys rfl signs
  refine .next ?_
  cases ys with
  | nil => exact consumes_failHere _
  | cons b ys =>
    dsimp only [List.head?_cons, List.tail_cons]
    split
    next digit =>
      refine (consumes_skipDigits false).mono ?_
      rintro _ zs ⟨run, rfl, others, _⟩
      obtain ⟨e, spelled⟩ := exists_exponent letters signs digit others
      exact ⟨e, by simp [spelled]⟩
    · exact consumes_failHere _

/-- The first of the bytes ahead, where a reader has compared it. -/
theorem exists_cons_of_head? {b : UInt8} (first : (xs.head? == some b) = true) :
    ∃ ys, xs = b :: ys :=
  List.head?_eq_some_iff.mp (beq_iff_eq.mp first)

theorem exists_letter (first : (xs.head? == some 101 || xs.head? == some 69) = true) :
    ∃ letter ys, (letter = 101 ∨ letter = 69) ∧ xs = letter :: ys := by
  rcases Bool.or_eq_true_iff.mp first with first | first
  · obtain ⟨ys, rfl⟩ := exists_cons_of_head? first
    exact ⟨101, ys, Or.inl rfl, rfl⟩
  · obtain ⟨ys, rfl⟩ := exists_cons_of_head? first
    exact ⟨69, ys, Or.inr rfl, rfl⟩

/-- A fraction and an exponent, which may be missing, stand before the other bytes. -/
def EndsNumber (xs ys : List UInt8) : Prop :=
  ∃ fraction exponent, xs = fractionBytes fraction ++ (exponentBytes exponent ++ ys)

theorem endsNumber_refl : EndsNumber xs xs :=
  ⟨none, none, rfl⟩

theorem endsNumber_exponent {ys : List UInt8} (read : ∃ e : Exponent, xs = utf8 e.text ++ ys) :
    EndsNumber xs ys := by
  obtain ⟨e, rfl⟩ := read
  exact ⟨none, some e, rfl⟩

theorem consumes_fractionPart (negative : Bool) (m : Nat) (exponent : Int) :
    Consumes (fractionPart negative m exponent) (46 :: xs) fun _ => EndsNumber (46 :: xs) := by
  refine .skip (consumes_digits.bind ?_)
  rintro ds ys ⟨run, rest, digit, count⟩
  obtain rfl : xs = run ++ ys := rest
  split
  · refine .peek ?_
    split
    · exact consumes_failNext _
    · exact consumes_failNext _
  next some_ =>
    obtain ⟨b, run, rfl⟩ : ∃ b others, run = b :: others := by
      refine List.exists_cons_of_ne_nil ?_
      rintro rfl
      exact some_ (by simpa using count)
    obtain ⟨first, others⟩ := List.forall_mem_cons.mp digit
    obtain ⟨fraction, _, _, text⟩ := exists_digits first others
    have bytes : fractionBytes (some fraction) = 46 :: b :: run := by
      rw [fractionBytes_some, text]
    generalize significand ds m = read
    refine .peek ?_
    split
    next letter =>
      obtain ⟨letter, zs, letters, rfl⟩ := exists_letter letter
      refine (consumes_exponentPart negative _ _ letters).mono ?_
      rintro _ ys ⟨e, spelled⟩
      exact ⟨some fraction, some e, by rw [bytes, spelled]; rfl⟩
    · refine (consumes_real negative _ _).mono ?_
      rintro _ _ rfl
      exact ⟨some fraction, none, by rw [bytes]; rfl⟩

theorem consumes_numberRest (negative : Bool) (read : Nat × Nat) :
    Consumes (numberRest negative read) xs fun _ => EndsNumber xs := by
  -- Neither a point nor a letter: the digits before were all there is.
  have finished (negative : Bool) (m : Nat) (exponent : Int) :
      Consumes (real negative m exponent) xs fun _ => EndsNumber xs := by
    refine (consumes_real negative m exponent).mono ?_
    rintro _ _ rfl
    exact endsNumber_refl
  refine .peek ?_
  split
  next point =>
    obtain ⟨ys, rfl⟩ := exists_cons_of_head? point
    exact consumes_fractionPart negative _ _
  split
  next letter =>
    obtain ⟨letter, ys, letters, rfl⟩ := exists_letter letter
    exact (consumes_exponentPart negative _ _ letters).mono fun _ _ => endsNumber_exponent
  split
  · exact finished negative _ _
  split
  · exact finished true _ _
  · exact consumes_pure endsNumber_refl

/-- A number of either sign from its digits before the point and what stands behind them. -/
theorem exists_numeral (negative : Bool) {b : UInt8} {run ys zs : List UInt8}
    (first : isDigit b = true) (others : ∀ e ∈ run, isDigit e = true)
    (zero : b = 48 → run = []) (ends : EndsNumber ys zs) :
    ∃ n : Numeral, n.negative = negative ∧ b :: (run ++ ys) = utf8 n.unsigned ++ zs := by
  obtain ⟨fraction, exponent, rfl⟩ := ends
  obtain ⟨whole, firstDigit, otherDigits, text⟩ := exists_digits first others
  have valid : whole.first = '0' → whole.others = [] := by
    intro same
    rw [firstDigit] at same
    have value := byteOf_charOf (isDigit_charOf first).1
    rw [same] at value
    rw [otherDigits, zero value.symm]
    rfl
  refine ⟨⟨negative, whole, fraction, exponent, valid⟩, rfl, ?_⟩
  obtain ⟨head, tail⟩ := List.cons_eq_cons.mp text
  simp [utf8_unsigned, head, tail]

/-- The first digit of a number is a zero with no digit behind it, or it is not a zero. -/
theorem consumes_number (negative : Bool) :
    Consumes (number negative) xs fun _ ys =>
      ∃ n : Numeral, n.negative = negative ∧ xs = utf8 n.unsigned ++ ys := by
  rw [number_eq]
  refine .next ?_
  cases xs with
  | nil => exact consumes_failHere _
  | cons b xs =>
    dsimp only [List.head?_cons, List.tail_cons]
    split
    · exact consumes_failHere _
    next digit =>
      have first : isDigit b = true := by simpa using digit
      refine .peek ?_
      split
      · exact (consumes_failNext _).bind fun _ _ => False.elim
      -- The look behind a zero has told already that no digit follows it.
      by_cases zero : b = 48
      · rw [if_pos (by simpa using zero), pure_bind]
        refine (consumes_numberRest negative _).mono fun _ ys ends => ?_
        exact exists_numeral negative first (List.forall_mem_nil _) (fun _ => rfl) ends
      · rw [if_neg (by simpa using zero)]
        refine consumes_digits.bind ?_
        rintro ds ys ⟨run, rfl, others, _⟩
        refine (consumes_numberRest negative _).mono fun _ zs ends => ?_
        exact exists_numeral negative first others (absurd · zero) ends

theorem consumes_skipNumberEnd :
    Consumes skipNumberEnd xs fun _ ys => ∃ e, xs = exponentBytes e ++ ys := by
  refine .peek ?_
  split
  next letter =>
    obtain ⟨letter, ys, letters, rfl⟩ := exists_letter letter
    refine (consumes_skipExponent letters).mono ?_
    rintro _ ys ⟨e, spelled⟩
    exact ⟨some e, spelled⟩
  · exact consumes_pure ⟨none, rfl⟩

theorem consumes_skipNumberRest : Consumes skipNumberRest xs fun _ => EndsNumber xs := by
  refine .peek ?_
  split
  next point =>
    obtain ⟨ys, rfl⟩ := exists_cons_of_head? point
    refine .skip ((consumes_skipDigits true).bind ?_)
    rintro _ zs ⟨run, rest, digit, needed⟩
    obtain rfl : ys = run ++ zs := rest
    obtain ⟨b, run, rfl⟩ := List.exists_cons_of_ne_nil (needed rfl)
    obtain ⟨first, others⟩ := List.forall_mem_cons.mp digit
    obtain ⟨fraction, _, _, text⟩ := exists_digits first others
    refine consumes_skipNumberEnd.mono ?_
    rintro _ ys ⟨e, rfl⟩
    exact ⟨some fraction, e, by rw [fractionBytes_some, text]; rfl⟩
  · refine consumes_skipNumberEnd.mono ?_
    rintro _ ys ⟨e, spelled⟩
    exact ⟨none, e, spelled⟩

theorem consumes_skipNumber (negative : Bool) :
    Consumes skipNumber xs fun _ ys =>
      ∃ n : Numeral, n.negative = negative ∧ xs = utf8 n.unsigned ++ ys := by
  rw [skipNumber_eq]
  refine .next ?_
  cases xs with
  | nil => exact consumes_failHere _
  | cons b xs =>
    dsimp only [List.head?_cons, List.tail_cons]
    split
    · exact (consumes_failHere _).bind fun _ _ => False.elim
    next digit =>
      have first : isDigit b = true := by simpa using digit
      by_cases zero : b = 48
      · rw [if_pos (by simpa using zero)]
        refine .peek ?_
        split
        · exact (consumes_failNext _).bind fun _ _ => False.elim
        · refine consumes_skipNumberRest.mono fun _ ys ends => ?_
          exact exists_numeral negative first (List.forall_mem_nil _) (fun _ => rfl) ends
      · rw [if_neg (by simpa using zero)]
        refine (consumes_skipDigits false).bind ?_
        rintro _ ys ⟨run, rfl, others, _⟩
        refine consumes_skipNumberRest.mono fun _ zs ends => ?_
        exact exists_numeral negative first others (absurd · zero) ends

end

/-! ### Characters of bytes -/

theorem charOf_byteOf {c : Char} (ascii : c.toNat < 128) : charOf (byteOf c) = c := by
  have value := toNat_byteOf ascii
  refine Char.toNat_inj.mp ?_
  rw [toNat_charOf (by omega), value]

section

variable {text : List Char} {xs ys : List UInt8}

/-- A byte that is a character stands for this character. -/
theorem utf8_eq_cons {b : UInt8} (ascii : b.toNat < 128) (same : utf8 text = b :: xs) :
    ∃ rest, text = charOf b :: rest ∧ xs = utf8 rest := by
  cases text with
  | nil => cases same
  | cons c text =>
    by_cases single : c.toNat < 128
    · rw [utf8_cons_ascii single] at same
      obtain ⟨rfl, rfl⟩ := List.cons_eq_cons.mp same
      exact ⟨text, by rw [charOf_byteOf single], rfl⟩
    · obtain ⟨first, more, bytes⟩ :=
        List.exists_cons_of_ne_nil (String.utf8EncodeChar_ne_nil (c := c))
      rw [utf8, List.flatMap_cons, bytes] at same
      obtain ⟨rfl, _⟩ := List.cons_eq_cons.mp same
      have high := Text.high_of_mem (c := c) (by omega) (bytes ▸ List.mem_cons_self)
      omega

theorem utf8_eq_append {cs : List Char} (ascii : ∀ c ∈ cs, c.toNat < 128)
    (same : utf8 text = utf8 cs ++ ys) : ∃ rest, text = cs ++ rest ∧ ys = utf8 rest := by
  induction cs generalizing text with
  | nil => exact ⟨text, rfl, same.symm⟩
  | cons c cs ih =>
    obtain ⟨here, later⟩ := List.forall_mem_cons.mp ascii
    rw [utf8_cons_ascii here, List.cons_append] at same
    obtain ⟨others, rfl, left⟩ := utf8_eq_cons (by rw [toNat_byteOf here]; exact here) same
    obtain ⟨rest, rfl, after⟩ := ih later left.symm
    exact ⟨rest, by rw [charOf_byteOf here]; rfl, after⟩

theorem plain_charOf {b : UInt8} (ascii : b.toNat < 128) (plain : isPlain b = true) :
    charOf b ≠ '"' ∧ charOf b ≠ '\\' ∧ ' ' ≤ charOf b := by
  have value := toNat_charOf ascii
  obtain ⟨notQuote, notBackslash, printed⟩ := (isPlain_iff b).mp plain
  refine ⟨?_, ?_, ?_⟩
  · intro same
    rw [same] at value
    exact notQuote value.symm
  · intro same
    rw [same] at value
    exact notBackslash value.symm
  · refine Char.le_def.mpr (UInt32.le_iff_toNat_le.mpr ?_)
    have value' : (charOf b).val.toNat = b.toNat := value
    rw [value']
    exact printed

theorem short_charOf {b : UInt8} (known : (shortEscape b).isSome = true) :
    b.toNat < 128 ∧ charOf b ∈ ['"', '\\', '/', 'b', 'f', 'n', 'r', 't'] := by
  have each : ∀ b ∈ [34, 92, 47, 98, 102, 110, 114, 116],
      b.toNat < 128 ∧ charOf b ∈ ['"', '\\', '/', 'b', 'f', 'n', 'r', 't'] :=
    forall_mem_of_all (by decide)
  refine each b ?_
  simp only [List.mem_cons, List.not_mem_nil, or_false]
  unfold shortEscape at known
  grind

theorem hex_charOf {b : UInt8} (known : (hexValue b).isSome = true) :
    b.toNat < 128 ∧ isHexDigit (charOf b) = true := by
  have range : (48 ≤ b.toNat ∧ b.toNat ≤ 57) ∨ (97 ≤ b.toNat ∧ b.toNat ≤ 102) ∨
      (65 ≤ b.toNat ∧ b.toNat ≤ 70) := by
    simp only [hexValue, isDigit, Bool.and_eq_true, decide_eq_true_eq,
      UInt8.le_iff_toNat_le] at known
    grind
  have value : (charOf b).val.toNat = b.toNat := toNat_charOf (by omega)
  refine ⟨by omega, ?_⟩
  simp only [isHexDigit, Char.isDigit, Bool.or_eq_true, Bool.and_eq_true, decide_eq_true_eq,
    UInt32.le_iff_toNat_le, Char.le_def, or_assoc, value]
  exact range

/-- The bytes of a character of more than one are not apart in a literal. -/
theorem LiteralBytes.of_high {high bs zs : List UInt8} (wide : ∀ b ∈ high, 128 ≤ b.toNat)
    (literal : LiteralBytes bs) (same : high ++ zs = bs ++ ys) :
    ∃ left, LiteralBytes left ∧ zs = left ++ ys := by
  induction high generalizing bs with
  | nil => exact ⟨bs, literal, same⟩
  | cons b high ih =>
    obtain ⟨here, later⟩ := List.forall_mem_cons.mp wide
    cases literal with
    | plain _ rest => exact ih later rest (List.cons_eq_cons.mp same).2
    | quote | short | unicode =>
      obtain ⟨rfl, _⟩ := List.cons_eq_cons.mp same
      exact absurd here (by decide)

/-- The bytes of a literal that stand in a text are those of pieces. -/
theorem utf8_eq_literal {bs : List UInt8} (literal : LiteralBytes bs)
    (same : utf8 text = bs ++ ys) :
    ∃ pieces rest, text = Token.literalRest pieces ++ rest ∧ ys = utf8 rest := by
  -- A character may have several bytes and a piece several characters, so the text is what shrinks.
  induction n : text.length using Nat.strong_induction_on generalizing text bs with
  | _ n ih =>
    subst n
    have goesOn (piece : Piece) {rest : List Char} {bs : List UInt8}
        (whole : text = piece.text ++ rest) (literal : LiteralBytes bs)
        (same : utf8 rest = bs ++ ys) (shorter : rest.length < text.length) :
        ∃ pieces rest, text = Token.literalRest pieces ++ rest ∧ ys = utf8 rest := by
      obtain ⟨pieces, left, rfl, after⟩ := ih _ shorter literal same rfl
      refine ⟨piece :: pieces, left, ?_, after⟩
      rw [whole, Token.literalRest_cons, List.append_assoc]
    cases literal with
    | quote =>
      obtain ⟨rest, rfl, after⟩ := utf8_eq_cons (by decide) same
      exact ⟨[], rest, rfl, after⟩
    | @plain b bs plain literal =>
      by_cases ascii : b.toNat < 128
      · obtain ⟨rest, rfl, after⟩ := utf8_eq_cons ascii same
        exact goesOn (.plain _ (plain_charOf ascii plain)) rfl literal after.symm
          (Nat.lt_succ_self _)
      · cases text with
        | nil => cases same
        | cons c text =>
          -- The byte is the first of several, and all of them belong to one plain piece.
          have wide : 128 ≤ c.toNat := by
            by_contra narrow
            rw [utf8_cons_ascii (by omega)] at same
            obtain ⟨rfl, _⟩ := List.cons_eq_cons.mp same
            rw [toNat_byteOf (by omega)] at ascii
            omega
          rw [utf8, List.flatMap_cons] at same
          obtain ⟨left, literal, after⟩ :=
            (LiteralBytes.plain plain literal).of_high (fun _ => Text.high_of_mem wide) same
          have valid : c ≠ '"' ∧ c ≠ '\\' ∧ ' ' ≤ c := by
            refine ⟨?_, ?_, ?_⟩
            · rintro rfl
              exact absurd wide (by decide)
            · rintro rfl
              exact absurd wide (by decide)
            · refine Char.le_def.mpr (UInt32.le_iff_toNat_le.mpr ?_)
              exact Nat.le_trans (by decide) wide
          exact goesOn (.plain c valid) rfl literal after (Nat.lt_succ_self _)
    | @short b bs known literal =>
      obtain ⟨ascii, valid⟩ := short_charOf known
      obtain ⟨_, rfl, escape⟩ := utf8_eq_cons (by decide) same
      obtain ⟨rest, rfl, after⟩ := utf8_eq_cons ascii escape.symm
      refine goesOn (.short _ valid) rfl literal after.symm ?_
      simp only [List.length_cons]
      omega
    | @unicode a b c d bs hex literal =>
      simp only [List.forall_mem_cons] at hex
      obtain ⟨asciiA, hexA⟩ := hex_charOf hex.1
      obtain ⟨asciiB, hexB⟩ := hex_charOf hex.2.1
      obtain ⟨asciiC, hexC⟩ := hex_charOf hex.2.2.1
      obtain ⟨asciiD, hexD⟩ := hex_charOf hex.2.2.2.1
      obtain ⟨_, rfl, escape⟩ := utf8_eq_cons (by decide) same
      obtain ⟨_, rfl, first⟩ := utf8_eq_cons (by decide) escape.symm
      obtain ⟨_, rfl, second⟩ := utf8_eq_cons asciiA first.symm
      obtain ⟨_, rfl, third⟩ := utf8_eq_cons asciiB second.symm
      obtain ⟨_, rfl, fourth⟩ := utf8_eq_cons asciiC third.symm
      obtain ⟨rest, rfl, after⟩ := utf8_eq_cons asciiD fourth.symm
      refine goesOn (.unicode _ _ _ _ ⟨hexA, hexB, hexC, hexD⟩) rfl literal after.symm ?_
      simp only [List.length_cons]
      omega

end

end UnusedMethods.Json
