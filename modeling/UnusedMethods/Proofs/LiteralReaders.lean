import UnusedMethods.Proofs.JsonGrammar
import UnusedMethods.Proofs.ReaderLogic

/-!
# Readers of literals

A reader that has come into a literal reads it to its end, whatever follows, and what it makes of it
does not depend on what follows. The readers of literals go by runs of bytes that stand for
themselves, and they may have more steps than they need.
-/

namespace UnusedMethods.Json

open Text (byteAt)

variable {depth : Nat} {front : List UInt8} {b : UInt8} {rest : Ahead}

/-! ### Bytes of characters -/

/-- The bytes of a text. -/
def utf8 (text : List Char) : List UInt8 :=
  text.flatMap String.utf8EncodeChar

theorem utf8_append (text others : List Char) : utf8 (text ++ others) = utf8 text ++ utf8 others :=
  List.flatMap_append

/-- The byte of a character that has one. -/
def byteOf (c : Char) : UInt8 :=
  c.toNat.toUInt8

theorem toNat_byteOf {c : Char} (ascii : c.toNat < 128) : (byteOf c).toNat = c.toNat :=
  Nat.mod_eq_of_lt (by omega)

theorem utf8_cons_ascii {c : Char} (ascii : c.toNat < 128) (text : List Char) :
    utf8 (c :: text) = byteOf c :: utf8 text := by
  have single : String.utf8EncodeChar c = [byteOf c] := if_pos (Nat.le_of_lt_succ ascii)
  rw [utf8, List.flatMap_cons, single]
  rfl

theorem utf8_ascii {text : List Char} (ascii : ∀ c ∈ text, c.toNat < 128) :
    utf8 text = text.map byteOf := by
  induction text with
  | nil => rfl
  | cons c text ih =>
    obtain ⟨here, later⟩ := List.forall_mem_cons.mp ascii
    rw [utf8_cons_ascii here, ih later]
    rfl

theorem isPlain_iff (b : UInt8) :
    isPlain b = true ↔ b.toNat ≠ 34 ∧ b.toNat ≠ 92 ∧ 32 ≤ b.toNat := by
  simp only [isPlain, Bool.and_eq_true, bne_iff_ne, decide_eq_true_eq, UInt8.le_iff_toNat_le, ne_eq,
    ← UInt8.toNat_inj, and_assoc]
  rfl

/-- The bytes of a character that stands for itself in a literal. -/
theorem isPlain_of_mem {c : Char} (valid : c ≠ '"' ∧ c ≠ '\\' ∧ ' ' ≤ c) {b : UInt8}
    (member : b ∈ String.utf8EncodeChar c) : isPlain b = true := by
  have notQuote : c.val.toNat ≠ 34 := fun same => valid.1 (Char.toNat_inj.mp same)
  have notBackslash : c.val.toNat ≠ 92 := fun same => valid.2.1 (Char.toNat_inj.mp same)
  have printed : 32 ≤ c.val.toNat := UInt32.le_iff_toNat_le.mp valid.2.2
  rw [isPlain_iff]
  -- A character of more than one byte has only bytes above those of characters of one.
  unfold String.utf8EncodeChar at member
  grind [UInt8.toNat_ofNat']

theorem exists_hexValue {c : Char} (hex : isHexDigit c) :
    c.toNat < 128 ∧ ∃ value, hexValue (byteOf c) = some value := by
  have range : (48 ≤ c.toNat ∧ c.toNat ≤ 57) ∨ (97 ≤ c.toNat ∧ c.toNat ≤ 102) ∨
      (65 ≤ c.toNat ∧ c.toNat ≤ 70) := by
    simp only [isHexDigit, Char.isDigit, Bool.or_eq_true, Bool.and_eq_true, decide_eq_true_eq,
      UInt32.le_iff_toNat_le, Char.le_def, or_assoc] at hex
    exact hex
  have value := toNat_byteOf (c := c) (by omega)
  refine ⟨by omega, ?_⟩
  simp only [hexValue, isDigit, Bool.and_eq_true, decide_eq_true_eq, UInt8.le_iff_toNat_le, value,
    UInt8.reduceToNat]
  rcases range with range | range | range
  · exact ⟨_, if_pos range⟩
  · exact ⟨_, by rw [if_neg (by omega), if_pos range]⟩
  · exact ⟨_, by rw [if_neg (by omega), if_neg (by omega), if_pos range]⟩

/-- A letter of an escape of two characters. -/
theorem exists_shortEscape {c : Char} (valid : c ∈ ['"', '\\', '/', 'b', 'f', 'n', 'r', 't']) :
    c.toNat < 128 ∧ byteOf c ≠ 117 ∧ ∃ escaped, shortEscape (byteOf c) = some escaped := by
  have each : ∀ c ∈ ['"', '\\', '/', 'b', 'f', 'n', 'r', 't'],
      c.toNat < 128 ∧ byteOf c ≠ 117 ∧ (shortEscape (byteOf c)).isSome :=
    forall_mem_of_all (by decide)
  obtain ⟨ascii, other, known⟩ := each c valid
  exact ⟨ascii, other, Option.isSome_iff_exists.mp known⟩

/-! ### Runs -/

/-- The text of some bytes. -/
def textOf (bytes : List UInt8) : String :=
  (String.fromUTF8? ⟨bytes.toArray⟩).getD ""

/-- Read the bytes that stand for themselves. -/
def plainRun : Reader String := do
  let bytes ← read
  let i := (← get).index
  let j := scanWhile isPlain bytes i
  modify fun p => { p with index := j }
  return sliceText bytes i j

theorem stringRest_succ (fuel : Nat) (done : String) :
    stringRest (fuel + 1) done = (do
      let run ← plainRun
      match ← peek with
      | none => failHere .endInString
      | some b =>
        skip
        if b == 34 then return done ++ run
        else if b != 92 then failHere .controlCharacter
        else
          let e ← needInString
          skip
          if e == 117 then stringRest fuel ((done ++ run).push (← unicodeEscape))
          else match shortEscape e with
            | some c => stringRest fuel ((done ++ run).push c)
            | none => failHere .badEscape) := by
  rw [stringRest]
  rfl

theorem sliceText_scanWhile (test : UInt8 → Bool) (bytes : ByteArray) (i : Nat) :
    sliceText bytes i (scanWhile test bytes i) = textOf ((remaining bytes i).takeWhile test) := by
  have slice : bytes.extract i (scanWhile test bytes i) =
      ⟨((remaining bytes i).takeWhile test).toArray⟩ := by
    refine ByteArray.ext (Array.ext' ?_)
    rw [ByteArray.data_extract, Array.toList_extract, List.extract, scanWhile_eq,
      Nat.add_sub_cancel_left]
    exact (List.prefix_iff_eq_take.mp (List.takeWhile_prefix test)).symm
  rw [sliceText, slice]
  rfl

theorem reads_plainRun {run : List UInt8} (plain : ∀ b ∈ run, isPlain b = true)
    (stops : isPlain b = false) :
    Reads plainRun depth (Then (run ++ b :: front) rest) (textOf run) (Then (b :: front) rest) := by
  intro bytes p here
  rw [then_append] at here
  obtain ⟨taken, left⟩ := takeWhile_then plain (stops_then stops) here.2
  refine ⟨{ p with index := scanWhile isPlain bytes p.index }, ?_, here.1, ?_⟩
  · rw [← taken, ← sliceText_scanWhile]
    rfl
  · rwa [remaining_scanWhile]

/-! ### Escapes -/

/-- Four hexadecimal digits. -/
def hexNumber (digits : List Nat) : Nat :=
  digits.foldl (fun n digit => n * 16 + digit) 0

theorem reads_hexEscape {digits : List UInt8} {values : List Nat} (four : digits.length = 4)
    (known : digits.mapM hexValue = some values) :
    Reads hexEscape depth (Then digits rest) (hexNumber values) rest := by
  intro bytes p here
  obtain ⟨stood, ys, whole, there⟩ := here
  have length : 4 ≤ (remaining bytes p.index).length := by
    rw [whole, List.length_append]
    omega
  -- The four digits stand before the text's end, so the reader's bound lets them through.
  have enough : ¬ bytes.size < p.index + 4 := by
    rw [length_remaining] at length
    omega
  have same : (List.range 4).mapM (fun k => hexValue (byteAt bytes (p.index + k))) =
      some values := by
    rw [← known]
    have bytes_eq := map_byteAt length
    rw [whole, List.take_left' four] at bytes_eq
    rw [← bytes_eq, List.mapM_map]
    rfl
  refine ⟨{ p with index := p.index + 4 }, ?_, stood, ?_⟩
  · simp only [hexEscape, bind_apply, read_apply, get_apply, modify_apply, if_neg enough, same]
    rfl
  · rw [remaining_add, whole, ← four, List.drop_left]
    exact there

/-- The bytes of a literal after its opening quote. -/
def literalBytes (pieces : List Piece) : List UInt8 :=
  utf8 (Token.literalRest pieces)

theorem literalBytes_cons (piece : Piece) (pieces : List Piece) :
    literalBytes (piece :: pieces) = utf8 piece.text ++ literalBytes pieces := by
  rw [literalBytes, Token.literalRest_cons, utf8_append]
  rfl

theorem literalBytes_plain {c : Char} (valid : c ≠ '"' ∧ c ≠ '\\' ∧ ' ' ≤ c)
    (pieces : List Piece) :
    literalBytes (.plain c valid :: pieces) = String.utf8EncodeChar c ++ literalBytes pieces := by
  rw [literalBytes_cons, Piece.text, utf8, List.flatMap_singleton]

theorem literalBytes_short {c : Char} (valid : c ∈ ['"', '\\', '/', 'b', 'f', 'n', 'r', 't'])
    (pieces : List Piece) :
    literalBytes (.short c valid :: pieces) = 92 :: byteOf c :: literalBytes pieces := by
  rw [literalBytes_cons, Piece.text, utf8_cons_ascii (by decide),
    utf8_cons_ascii (exists_shortEscape valid).1]
  rfl

theorem literalBytes_unicode {a b c d : Char}
    (valid : isHexDigit a ∧ isHexDigit b ∧ isHexDigit c ∧ isHexDigit d) (pieces : List Piece) :
    literalBytes (.unicode a b c d valid :: pieces) =
      92 :: 117 :: ([byteOf a, byteOf b, byteOf c, byteOf d] ++ literalBytes pieces) := by
  rw [literalBytes_cons, Piece.text, utf8_cons_ascii (by decide), utf8_cons_ascii (by decide),
    utf8_cons_ascii (exists_hexValue valid.1).1, utf8_cons_ascii (exists_hexValue valid.2.1).1,
    utf8_cons_ascii (exists_hexValue valid.2.2.1).1,
    utf8_cons_ascii (exists_hexValue valid.2.2.2).1]
  rfl

theorem exists_hexValues {a b c d : Char}
    (valid : isHexDigit a ∧ isHexDigit b ∧ isHexDigit c ∧ isHexDigit d) :
    ∃ values, [byteOf a, byteOf b, byteOf c, byteOf d].mapM hexValue = some values := by
  obtain ⟨_, first⟩ := (exists_hexValue valid.1).2
  obtain ⟨_, second⟩ := (exists_hexValue valid.2.1).2
  obtain ⟨_, third⟩ := (exists_hexValue valid.2.2.1).2
  obtain ⟨_, fourth⟩ := (exists_hexValue valid.2.2.2).2
  simp only [List.mapM_cons, List.mapM_nil, first, second, third, fourth]
  exact ⟨_, rfl⟩

/-- After the letter of a unicode escape: the escape is refused, or it is read alone or together
with the one behind it. -/
theorem settled_unicodeEscape {a b c d : Char}
    (valid : isHexDigit a ∧ isHexDigit b ∧ isHexDigit c ∧ isHexDigit d) (pieces : List Piece) :
    Settled unicodeEscape depth
      (Then ([byteOf a, byteOf b, byteOf c, byteOf d] ++ literalBytes pieces) rest)
      fun _ after => ∃ later, later.length ≤ pieces.length ∧
        after = Then (literalBytes later) rest := by
  obtain ⟨values, known⟩ := exists_hexValues valid
  rw [then_append]
  refine .after (reads_hexEscape rfl known) ?_
  split
  · exact (refuses_failHere _).settled
  split
  · exact (reads_pure _).settled ⟨pieces, Nat.le_refl _, rfl⟩
  -- A first half needs an escape of the same form behind it.
  cases pieces with
  | nil =>
    refine .after reads_needInString (.after reads_skip_then ?_)
    exact (refuses_failHere _).bind.settled
  | cons piece pieces =>
    cases piece with
    | plain c valid =>
      obtain ⟨first, more, bytes⟩ :=
        List.exists_cons_of_ne_nil (String.utf8EncodeChar_ne_nil (c := c))
      have other : first ≠ 92 := by
        rintro rfl
        have plain := isPlain_of_mem valid (b := 92) (bytes ▸ List.mem_cons_self)
        cases plain
      rw [literalBytes_plain, bytes, List.cons_append]
      refine .after reads_needInString (.after reads_skip_then ?_)
      rw [if_pos (by simpa using other)]
      exact (refuses_failHere _).bind.settled
    | short c valid =>
      rw [literalBytes_short]
      refine .after reads_needInString (.after reads_skip_then ?_)
      refine .after reads_needInString (.after reads_skip_then ?_)
      rw [if_pos (by simpa using (exists_shortEscape valid).2.1)]
      exact (refuses_failHere _).bind.settled
    | unicode a b c d valid =>
      rw [literalBytes_unicode]
      refine .after reads_needInString (.after reads_skip_then ?_)
      refine .after reads_needInString (.after reads_skip_then ?_)
      obtain ⟨values, known⟩ := exists_hexValues valid
      rw [then_append]
      refine .after (reads_hexEscape rfl known) ?_
      split
      · exact (refuses_failHere _).settled
      · exact (reads_pure _).settled ⟨pieces, Nat.le_succ _, rfl⟩

/-! ### Whole literals -/

/-- A literal is a run of bytes that stand for themselves, and then its end or an escape. -/
theorem split_literalBytes (pieces : List Piece) :
    ∃ run later, literalBytes pieces = run ++ literalBytes later ∧
      (∀ b ∈ run, isPlain b = true) ∧ later.length ≤ pieces.length ∧
      ∀ c valid more, later ≠ .plain c valid :: more := by
  induction pieces with
  | nil => exact ⟨[], [], rfl, by simp, Nat.le_refl _, by simp⟩
  | cons piece pieces ih =>
    cases piece with
    | plain c valid =>
      obtain ⟨run, later, bytes, plain, fewer, escape⟩ := ih
      refine ⟨String.utf8EncodeChar c ++ run, later, ?_, ?_, Nat.le_succ_of_le fewer, escape⟩
      · rw [literalBytes_plain, bytes, List.append_assoc]
      · exact List.forall_mem_append.mpr ⟨fun _ => isPlain_of_mem valid, plain⟩
    | short c valid => exact ⟨[], _, rfl, by simp, Nat.le_refl _, by simp⟩
    | unicode a b c d valid => exact ⟨[], _, rfl, by simp, Nat.le_refl _, by simp⟩

/-- Readers that start with such a run, and come to the end of the literal or to an escape. -/
theorem Agree.plainRun {α : Type} {f g : String → Reader α} {result : α → Ahead → Prop}
    {pieces : List Piece}
    (atEnd : ∀ run, Agree (f run) (g run) depth (Then [34] rest) result)
    (atShort : ∀ run c valid later, later.length < pieces.length →
      Agree (f run) (g run) depth (Then (literalBytes (.short c valid :: later)) rest) result)
    (atUnicode : ∀ run a b c d valid later, later.length < pieces.length →
      Agree (f run) (g run) depth (Then (literalBytes (.unicode a b c d valid :: later)) rest)
        result) :
    Agree (Json.plainRun >>= f) (Json.plainRun >>= g) depth (Then (literalBytes pieces) rest)
      result := by
  obtain ⟨run, later, bytes, plain, fewer, escape⟩ := split_literalBytes pieces
  rw [bytes]
  -- The run ends at the closing quote or at the backslash of the next escape.
  cases later with
  | nil => exact .after (reads_plainRun plain (b := 34) rfl) (atEnd _)
  | cons piece later =>
    cases piece with
    | plain c valid => exact absurd rfl (escape c valid later)
    | short c valid =>
      have next := atShort (textOf run) c valid later fewer
      rw [literalBytes_short] at next ⊢
      exact .after (reads_plainRun plain (b := 92) rfl) next
    | unicode a b c d valid =>
      have next := atUnicode (textOf run) a b c d valid later fewer
      rw [literalBytes_unicode] at next ⊢
      exact .after (reads_plainRun plain (b := 92) rfl) next

theorem agree_stringRest {fuel fuel' : Nat} {pieces : List Piece} (enough : pieces.length < fuel)
    (enough' : pieces.length < fuel') (done : String) :
    Agree (stringRest fuel done) (stringRest fuel' done) depth (Then (literalBytes pieces) rest)
      (Leaves rest) := by
  -- Each step goes over one escape at least, so the pieces that are left bound the steps to come.
  induction fuel generalizing fuel' pieces done with
  | zero => omega
  | succ fuel ih =>
    obtain ⟨fuel', rfl⟩ : ∃ n, fuel' = n + 1 := ⟨fuel' - 1, by omega⟩
    rw [stringRest_succ, stringRest_succ]
    refine .plainRun (fun run => ?_) (fun run c valid later fewer => ?_)
      (fun run a b c d valid later fewer => ?_)
    · refine .after reads_peek_then (.after reads_skip_then ?_)
      exact (reads_pure _).settled (then_nil rest)
    · obtain ⟨_, other, escaped, known⟩ := exists_shortEscape valid
      rw [literalBytes_short]
      refine .after reads_peek_then (.after reads_skip_then ?_)
      refine .after reads_needInString (.after reads_skip_then ?_)
      simp only [beq_iff_eq, other, if_false, known]
      exact ih (by omega) (by omega) _
    · rw [literalBytes_unicode]
      refine .after reads_peek_then (.after reads_skip_then ?_)
      refine .after reads_needInString (.after reads_skip_then ?_)
      refine (settled_unicodeEscape valid later).bind ?_
      rintro escaped _ ⟨further, fewest, rfl⟩
      exact ih (by omega) (by omega) _

theorem skipStringRest_succ (fuel : Nat) :
    skipStringRest (fuel + 1) = (do
      let _ ← plainRun
      match ← peek with
      | none => failHere .endInString
      | some b =>
        if b == 34 then skip
        else if b != 92 then failHere .controlCharacter
        else
          skip
          let e ← needInString
          skip
          if e == 117 then
            let _ ← hexEscape
            skipStringRest fuel
          else if (shortEscape e).isSome then skipStringRest fuel
          else failHere .badEscape) := by
  rw [skipStringRest]
  rfl

theorem agree_skipStringRest {fuel fuel' : Nat} {pieces : List Piece}
    (enough : pieces.length < fuel) (enough' : pieces.length < fuel') :
    Agree (skipStringRest fuel) (skipStringRest fuel') depth (Then (literalBytes pieces) rest)
      (Leaves rest) := by
  induction fuel generalizing fuel' pieces with
  | zero => omega
  | succ fuel ih =>
    obtain ⟨fuel', rfl⟩ : ∃ n, fuel' = n + 1 := ⟨fuel' - 1, by omega⟩
    rw [skipStringRest_succ, skipStringRest_succ]
    refine .plainRun (fun run => ?_) (fun run c valid later fewer => ?_)
      (fun run a b c d valid later fewer => ?_)
    · exact .after reads_peek_then (reads_skip_then.settled (then_nil rest))
    · obtain ⟨_, other, escaped, known⟩ := exists_shortEscape valid
      rw [literalBytes_short]
      refine .after reads_peek_then (.after reads_skip_then ?_)
      refine .after reads_needInString (.after reads_skip_then ?_)
      simp only [beq_iff_eq, other, if_false, known, Option.isSome_some, if_true]
      exact ih (by omega) (by omega)
    · obtain ⟨values, known⟩ := exists_hexValues valid
      rw [literalBytes_unicode]
      refine .after reads_peek_then (.after reads_skip_then ?_)
      refine .after reads_needInString (.after reads_skip_then ?_)
      rw [then_append]
      exact .after (reads_hexEscape rfl known) (ih (by omega) (by omega))

theorem length_lt_literalBytes (pieces : List Piece) :
    pieces.length < (literalBytes pieces).length := by
  induction pieces with
  | nil => exact Nat.one_pos
  | cons piece pieces ih =>
    -- No piece is spelled with no byte at all.
    have some_ : 0 < (utf8 piece.text).length := by
      cases piece with
      | plain c valid =>
        rw [Piece.text, utf8, List.flatMap_singleton]
        exact List.length_pos_of_ne_nil (String.utf8EncodeChar_ne_nil (c := c))
      | short c valid =>
        rw [Piece.text, utf8_cons_ascii (by decide)]
        exact Nat.succ_pos _
      | unicode a b c d valid =>
        rw [Piece.text, utf8_cons_ascii (by decide)]
        exact Nat.succ_pos _
    rw [literalBytes_cons, List.length_append, List.length_cons]
    omega

theorem long_literal (pieces : List Piece) (xs : List UInt8)
    (here : Then (literalBytes pieces) rest xs) : pieces.length ≤ xs.length := by
  obtain ⟨ys, rfl, _⟩ := here
  have longer := length_lt_literalBytes pieces
  rw [List.length_append]
  omega

theorem settled_stringBody (pieces : List Piece) :
    Settled stringBody depth (Then (literalBytes pieces) rest) (Leaves rest) := by
  refine .sized (h := fun n => stringRest (n + 1) "") (long_literal pieces) ?_
  intro n n' enough enough'
  exact agree_stringRest (by omega) (by omega) ""

theorem settled_skipString (pieces : List Piece) :
    Settled skipString depth (Then (literalBytes pieces) rest) (Leaves rest) := by
  refine .sized (h := fun n => skipStringRest (n + 1)) (long_literal pieces) ?_
  intro n n' enough enough'
  exact agree_skipStringRest (by omega) (by omega)

end UnusedMethods.Json
