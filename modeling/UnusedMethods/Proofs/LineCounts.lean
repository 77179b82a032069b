import Mathlib.Data.List.DropRight
import UnusedMethods.Proofs.Overloads
import UnusedMethods.Proofs.TextBytes
import UnusedMethods.Reading

/-!
# Lines count newlines

The starts in a line table are zero and the places after newlines, in increasing order. The search
for an offset keeps a range such that the starts before it do not exceed the offset and those after
it do. When the range is empty, its place is the number of starts up to the offset, which is one
more than the number of newlines before it. The start before this place is where the line of the
offset begins, so a column counts the characters since the last newline.
-/

namespace UnusedMethods.Text

/-- The number of newline bytes before a place. -/
def newlinesBefore (bytes : ByteArray) (place : Nat) : Nat :=
  (bytes.toList.take place).count newline

namespace LineTable

/-! ### The starts of lines -/

/-- The starts of the lines after the newlines among some bytes, the first of which is at place
`i`. -/
def startsAfter (i : Nat) : List UInt8 → List Nat
  | [] => []
  | b :: rest =>
    if b == newline then (i + 1) :: startsAfter (i + 1) rest else startsAfter (i + 1) rest

theorem toList_scan (bytes : ByteArray) (i : Nat) (found : Array Nat) :
    (scan bytes i found).toList = found.toList ++ startsAfter i (bytes.toList.drop i) := by
  fun_induction scan bytes i found with
  | case1 i found inside ends ih =>
    rw [ih, drop_toList inside, startsAfter, if_pos ends]
    simp
  | case2 i found inside goesOn ih =>
    rw [ih, drop_toList inside, startsAfter, if_neg goesOn]
  | case3 i found outside =>
    rw [List.drop_eq_nil_of_le (by rw [length_toList]; omega)]
    simp [startsAfter]

theorem starts_ofBytes (bytes : ByteArray) :
    (ofBytes bytes).starts.toList = 0 :: startsAfter 0 bytes.toList :=
  toList_scan bytes 0 #[0]

theorem mem_startsAfter (i s : Nat) (bytes : List UInt8) :
    s ∈ startsAfter i bytes ↔ ∃ k, bytes[k]? = some newline ∧ s = i + k + 1 := by
  induction bytes generalizing i with
  | nil => simp [startsAfter]
  | cons b rest ih =>
    have split : (∃ k, (b :: rest)[k]? = some newline ∧ s = i + k + 1) ↔
        (b = newline ∧ s = i + 1) ∨ ∃ k, rest[k]? = some newline ∧ s = i + 1 + k + 1 := by
      constructor
      · rintro ⟨_ | k, at_, same⟩
        · exact Or.inl ⟨Option.some.inj at_, same⟩
        · exact Or.inr ⟨k, at_, by omega⟩
      · rintro (⟨rfl, same⟩ | ⟨k, at_, same⟩)
        · exact ⟨0, rfl, same⟩
        · exact ⟨k + 1, at_, by omega⟩
    rw [split, startsAfter, ← ih (i + 1)]
    by_cases ends : b = newline <;> simp [ends]

theorem startsAfter_pairwise (i : Nat) (bytes : List UInt8) :
    (startsAfter i bytes).Pairwise (· < ·) := by
  induction bytes generalizing i with
  | nil => exact .nil
  | cons b rest ih =>
    rw [startsAfter]
    split
    · refine List.pairwise_cons.mpr ⟨fun s member => ?_, ih (i + 1)⟩
      obtain ⟨k, _, rfl⟩ := (mem_startsAfter ..).mp member
      omega
    · exact ih (i + 1)

theorem countP_startsAfter (i offset : Nat) (bytes : List UInt8) :
    (startsAfter i bytes).countP (· ≤ offset) = (bytes.take (offset - i)).count newline := by
  induction bytes generalizing i with
  | nil => simp [startsAfter]
  | cons b rest ih =>
    have later := ih (i + 1)
    rw [startsAfter]
    by_cases reached : i + 1 ≤ offset
    · -- The first byte is taken, and if it is a newline then the start after it counts.
      rw [show offset - i = offset - (i + 1) + 1 by omega, List.take_succ_cons, List.count_cons,
        ← later]
      by_cases ends : b = newline <;> simp [ends, reached]
    · -- Nothing is taken, and all starts from here on lie beyond the offset.
      rw [show offset - i = 0 by omega, List.take_zero]
      rw [show offset - (i + 1) = 0 by omega, List.take_zero] at later
      by_cases ends : b = newline
      · rw [if_pos (by simpa using ends), List.countP_cons_of_neg (by simpa using reached)]
        exact later
      · rw [if_neg (by simpa using ends)]
        exact later

theorem mem_starts (bytes : ByteArray) (s : Nat) : s ∈ (ofBytes bytes).starts.toList ↔
    s = 0 ∨ ∃ k, bytes.toList[k]? = some newline ∧ s = k + 1 := by
  simp [starts_ofBytes, mem_startsAfter]

theorem starts_pairwise (bytes : ByteArray) : (ofBytes bytes).starts.toList.Pairwise (· < ·) := by
  rw [starts_ofBytes]
  refine List.pairwise_cons.mpr ⟨fun s member => ?_, startsAfter_pairwise 0 _⟩
  obtain ⟨k, _, rfl⟩ := (mem_startsAfter ..).mp member
  omega

theorem countP_starts (bytes : ByteArray) (offset : Nat) :
    (ofBytes bytes).starts.toList.countP (· ≤ offset) = 1 + newlinesBefore bytes offset := by
  rw [starts_ofBytes, List.countP_cons, countP_startsAfter, Nat.add_comm]
  simp [newlinesBefore]

/-! ### The search for an offset -/

/-- The starts before a range do not exceed an offset, and those after it do. -/
structure Narrows (starts : Array Nat) (offset lo hi : Nat) : Prop where
  ordered : lo ≤ hi
  inside : hi ≤ starts.size
  below : ∀ j (within : j < starts.size), j < lo → starts[j] ≤ offset
  above : ∀ j (within : j < starts.size), hi ≤ j → offset < starts[j]

section

variable {starts : Array Nat} {offset lo hi : Nat}

theorem le_of_pairwise (increasing : starts.toList.Pairwise (· < ·)) {i j : Nat} (ordered : i ≤ j)
    (within : j < starts.size) : starts[i] ≤ starts[j] := by
  rcases Nat.lt_or_eq_of_le ordered with before | rfl
  · exact Nat.le_of_lt (List.pairwise_iff_getElem.mp increasing i j (by simp; omega)
      (by simpa using within) before)
  · exact Nat.le_refl _

/-- The search ends with an empty range. -/
theorem narrows_search (increasing : starts.toList.Pairwise (· < ·))
    (narrows : Narrows starts offset lo hi) :
    Narrows starts offset (search starts offset lo hi) (search starts offset lo hi) := by
  have inside := narrows.inside
  fun_induction search starts offset lo hi with
  -- The starts increase, so what holds at the middle holds of all before it or of all after it.
  | case1 lo hi open_ mid reached ih =>
    have within : mid < starts.size := by omega
    simp only [Array.getD_eq_getD_getElem?, Array.getElem?_eq_getElem within,
      Option.getD_some] at reached
    refine ih ⟨by omega, inside, fun j known before => ?_, narrows.above⟩ inside
    exact Nat.le_trans (le_of_pairwise increasing (Nat.le_of_lt_succ before) within) reached
  | case2 lo hi open_ mid beyond ih =>
    have within : mid < starts.size := by omega
    simp only [Array.getD_eq_getD_getElem?, Array.getElem?_eq_getElem within,
      Option.getD_some, Nat.not_le] at beyond
    refine ih ⟨by omega, by omega, narrows.below, fun j known after => ?_⟩ (by omega)
    exact Nat.lt_of_lt_of_le beyond (le_of_pairwise increasing after known)
  | case3 lo hi closed =>
    obtain rfl : lo = hi := Nat.le_antisymm narrows.ordered (Nat.le_of_not_lt closed)
    exact narrows

/-- An empty range lies after the starts up to the offset. -/
theorem Narrows.countP_eq (narrows : Narrows starts offset lo lo) :
    starts.toList.countP (· ≤ offset) = lo := by
  have size : (starts.toList.take lo).length = lo := by
    rw [List.length_take, Array.length_toList]
    exact Nat.min_eq_left narrows.inside
  have up : (starts.toList.take lo).countP (· ≤ offset) = lo := by
    rw [List.countP_eq_length.mpr, size]
    intro s member
    obtain ⟨j, within, rfl⟩ := List.mem_take_iff_getElem.mp member
    rw [Array.length_toList] at within
    simpa using narrows.below j (by omega) (by omega)
  have beyond : (starts.toList.drop lo).countP (· ≤ offset) = 0 := by
    rw [List.countP_eq_zero]
    intro s member
    obtain ⟨j, within, rfl⟩ := List.mem_drop_iff_getElem.mp member
    rw [Array.length_toList] at within
    simpa using narrows.above (lo + j) (by omega) (by omega)
  rw [← List.take_append_drop lo starts.toList, List.countP_append, up, beyond, Nat.add_zero]

end

theorem narrows_line (bytes : ByteArray) (offset : Nat) :
    Narrows (ofBytes bytes).starts offset ((ofBytes bytes).line offset)
      ((ofBytes bytes).line offset) := by
  have whole : Narrows (ofBytes bytes).starts offset 0 (ofBytes bytes).starts.size :=
    ⟨Nat.zero_le _, Nat.le_refl _, fun _ _ none_ => absurd none_ (Nat.not_lt_zero _),
      fun _ within out => absurd within (Nat.not_lt.mpr out)⟩
  have found := narrows_search (starts_pairwise bytes) whole
  -- The first start is zero, so the search finds a place after it.
  have first := found.countP_eq
  rw [countP_starts] at first
  rw [line, ← first, Nat.max_eq_right (Nat.le_add_right ..), first]
  exact found

/-- The line of an offset is one more than the number of newlines before it. -/
theorem line_eq (bytes : ByteArray) (offset : Nat) :
    (ofBytes bytes).line offset = 1 + newlinesBefore bytes offset := by
  rw [← countP_starts, (narrows_line bytes offset).countP_eq]

theorem line_le_size (bytes : ByteArray) (offset : Nat) :
    (ofBytes bytes).line offset ≤ (ofBytes bytes).starts.size :=
  (narrows_line bytes offset).inside

/-! ### Columns -/

/-- The line of an offset starts at the last start up to it. -/
theorem start_eq (bytes : ByteArray) {offset s : Nat} (start : s ∈ (ofBytes bytes).starts.toList)
    (before : s ≤ offset) (last : ∀ k, s ≤ k → k < offset → bytes.toList[k]? ≠ some newline) :
    (ofBytes bytes).starts.getD ((ofBytes bytes).line offset - 1) 0 = s := by
  have narrows := narrows_line bytes offset
  have positive : 0 < (ofBytes bytes).line offset := by
    rw [line_eq]
    omega
  have within : (ofBytes bytes).line offset - 1 < (ofBytes bytes).starts.size :=
    Nat.lt_of_lt_of_le (Nat.sub_lt positive Nat.one_pos) (line_le_size bytes offset)
  rw [Array.getD_eq_getD_getElem?, Array.getElem?_eq_getElem within, Option.getD_some]
  apply Nat.le_antisymm
  · -- A later start up to the offset would be that after a newline.
    have reached := narrows.below _ within (Nat.sub_lt positive Nat.one_pos)
    have listed := (mem_starts bytes _).mp (Array.getElem_mem_toList within)
    rcases listed with zero | ⟨k, at_, place⟩
    · omega
    · by_contra later
      exact last k (by omega) (by omega) at_
  · obtain ⟨j, known, rfl⟩ := Array.getElem_of_mem (Array.mem_def.mpr start)
    -- A start up to the offset is not after the place that the search finds.
    have place : j < (ofBytes bytes).line offset := by
      by_contra out
      exact absurd before (Nat.not_le.mpr (narrows.above j known (Nat.le_of_not_lt out)))
    exact le_of_pairwise (starts_pairwise bytes) (Nat.le_sub_one_of_lt place) within

theorem countChars_eq (bytes : ByteArray) {i stop : Nat} (count : Nat) (inside : stop ≤ bytes.size) :
    countChars bytes i stop count =
      count + ((bytes.toList.take stop).drop i).countP fun b => !isContinuation b := by
  have byte {i : Nat} (before : i < stop) :
      (bytes.toList.take stop).drop i =
        byteAt bytes i :: (bytes.toList.take stop).drop (i + 1) := by
    have within : i < bytes.size := Nat.lt_of_lt_of_le before inside
    rw [List.drop_take, drop_toList within, byteAt, dif_pos within, List.drop_take,
      show stop - i = stop - (i + 1) + 1 by omega, List.take_succ_cons]
  fun_induction countChars bytes i stop count with
  | case1 i count before ih =>
    simp only [dite_eq_ite] at ih
    rw [ih, byte before, List.countP_cons]
    cases isContinuation (byteAt bytes i) with
    | true => simp
    | false => simp [Nat.add_assoc, Nat.add_comm]
  | case2 i count done =>
    rw [List.drop_eq_nil_of_le (by rw [List.length_take]; omega)]
    rfl

theorem lineColumn_fst (table : LineTable) (bytes : ByteArray) (offset : Nat) :
    (table.lineColumn bytes offset).1 = table.line offset := by
  simp only [lineColumn]
  split <;> rfl

theorem isBoundary_append {bytes : ByteArray} {front : List UInt8} {text : List Char}
    (whole : bytes.toList = front ++ text.flatMap String.utf8EncodeChar) :
    isBoundary bytes front.length = true := by
  have size : bytes.size = front.length + (text.flatMap String.utf8EncodeChar).length := by
    rw [← length_toList, whole, List.length_append]
  cases text with
  | nil => simp [isBoundary, size]
  | cons c rest =>
    -- What follows begins with the first byte of a character.
    obtain ⟨first, more, encoded, begins, _⟩ := exists_first c
    rw [List.flatMap_cons, encoded, List.cons_append] at whole size
    rw [List.length_cons] at size
    have inside : front.length < bytes.size := by omega
    have ahead := drop_toList inside
    rw [whole, List.drop_left' rfl] at ahead
    rw [isBoundary, byteAt, dif_pos inside, ← (List.cons.inj ahead).1, begins]
    simp [inside]

/-- Characters are some whole lines and a last one, which has no newline. -/
theorem exists_lastLine (front : List Char) : ∃ lines last, front = lines ++ last ∧
    front.rtakeWhile (· != '\n') = last ∧ '\n' ∉ last ∧
    (lines = [] ∨ ∃ start, lines = start ++ ['\n']) := by
  refine ⟨front.rdropWhile (· != '\n'), _, List.rdropWhile_append_rtakeWhile.symm, rfl, ?_, ?_⟩
  · intro member
    exact absurd (List.mem_rtakeWhile_imp member) (by simp)
  · rcases (front.rdropWhile (· != '\n')).eq_nil_or_concat' with none_ | ⟨start, c, ends⟩
    · exact Or.inl none_
    · have last : c = '\n' := by
        simpa [ends] using List.rdropWhile_last_not (· != '\n') front (by simp [ends])
      exact Or.inr ⟨start, last ▸ ends⟩

theorem start_mem {bytes : ByteArray} {lines : List Char} {rest : List UInt8}
    (whole : bytes.toList = lines.flatMap String.utf8EncodeChar ++ rest)
    (ends : lines = [] ∨ ∃ start, lines = start ++ ['\n']) :
    (lines.flatMap String.utf8EncodeChar).length ∈ (ofBytes bytes).starts.toList := by
  rw [mem_starts]
  rcases ends with rfl | ⟨start, rfl⟩
  · exact Or.inl rfl
  · refine Or.inr ⟨(start.flatMap String.utf8EncodeChar).length, ?_, ?_⟩
    · simp [whole, utf8EncodeChar_newline]
    · simp [utf8EncodeChar_newline]

/-- The line and the column that come after some characters. -/
def after (front : List Char) : Nat × Nat :=
  (1 + front.count '\n', 1 + (front.rtakeWhile (· != '\n')).length)

/-- The offset at which some characters have passed is on the line and in the column after them. -/
theorem lineColumn_eq_after {bytes : ByteArray} {front back : List Char}
    (whole : bytes.toList =
      front.flatMap String.utf8EncodeChar ++ back.flatMap String.utf8EncodeChar) :
    (ofBytes bytes).lineColumn bytes (front.flatMap String.utf8EncodeChar).length =
      after front := by
  have line : (ofBytes bytes).line (front.flatMap String.utf8EncodeChar).length =
      1 + front.count '\n' := by
    rw [line_eq, newlinesBefore, whole, List.take_left' rfl, count_newline]
  have inside : (front.flatMap String.utf8EncodeChar).length ≤ bytes.size := by
    rw [← length_toList, whole, List.length_append]
    exact Nat.le_add_right ..
  obtain ⟨lines, last, split, taken, noNewline, ends⟩ := exists_lastLine front
  have size : (front.flatMap String.utf8EncodeChar).length =
      (lines.flatMap String.utf8EncodeChar).length +
        (last.flatMap String.utf8EncodeChar).length := by
    rw [split, List.flatMap_append, List.length_append]
  have start : (ofBytes bytes).starts.getD
      ((ofBytes bytes).line (front.flatMap String.utf8EncodeChar).length - 1) 0 =
        (lines.flatMap String.utf8EncodeChar).length := by
    have after_ : bytes.toList = lines.flatMap String.utf8EncodeChar ++
        (last.flatMap String.utf8EncodeChar ++ back.flatMap String.utf8EncodeChar) := by
      rw [whole, split, List.flatMap_append, List.append_assoc]
    refine start_eq bytes (start_mem after_ ends) (by omega) ?_
    intro k from_ before at_
    -- Such a byte would be one of the last line.
    rw [after_, List.getElem?_append_right from_, List.getElem?_append_left (by omega)] at at_
    obtain ⟨c, member, byte⟩ := List.mem_flatMap.mp (List.mem_of_getElem? at_)
    exact noNewline ((newline_mem_encode c).mp byte ▸ member)
  -- What is counted from there are the first bytes of the characters of the last line.
  have chars : countChars bytes (lines.flatMap String.utf8EncodeChar).length
      (front.flatMap String.utf8EncodeChar).length 0 = last.length := by
    rw [countChars_eq bytes 0 inside, whole, List.take_left' rfl, split, List.flatMap_append,
      List.drop_left' rfl, countP_first, Nat.zero_add]
  simp only [lineColumn, Nat.min_eq_left inside, isBoundary_append whole, if_true, start, chars]
  rw [line, after, taken, Nat.add_comm last.length]

/-- More characters lead to a later line, or to a later column of the same line. -/
theorem after_lt (front : List Char) {more : List Char} (some_ : more ≠ []) :
    Prod.Lex (· < ·) (· < ·) (after front) (after (front ++ more)) := by
  rw [Prod.lex_def]
  simp only [after, List.count_append]
  by_cases ends : '\n' ∈ more
  · have counted := List.count_pos_iff.mpr ends
    left
    omega
  · have none_ := List.count_eq_zero.mpr ends
    have goesOn : (front ++ more).rtakeWhile (· != '\n') =
        front.rtakeWhile (· != '\n') ++ more := by
      rw [List.rtakeWhile, List.reverse_append, List.takeWhile_append_of_pos, List.reverse_append,
        List.reverse_reverse, List.rtakeWhile]
      intro c member
      have other : c ≠ '\n' := fun same => ends (same ▸ List.mem_reverse.mp member)
      simpa using other
    have longer := List.length_pos_of_ne_nil some_
    right
    rw [none_, goesOn, List.length_append]
    omega

section

open String.Pos.Raw (IsValid)

variable {text : String} {o p : Nat}

/-- A place between characters has some of them before it. -/
theorem exists_front (valid : IsValid text ⟨o⟩) : ∃ before after_, text = before ++ after_ ∧
    before.utf8ByteSize = o ∧
    (ofBytes text.toUTF8).lineColumn text.toUTF8 o = after before.toList := by
  obtain ⟨before, after_, split, place⟩ := String.Pos.Raw.isValid_iff_exists_append.mp valid
  have size : before.utf8ByteSize = o := (congrArg String.Pos.Raw.byteIdx place).symm
  refine ⟨before, after_, split, size, ?_⟩
  have whole : text.toUTF8.toList = before.toList.flatMap String.utf8EncodeChar ++
      after_.toList.flatMap String.utf8EncodeChar := by
    rw [toList_toUTF8, split, String.toList_append, List.flatMap_append]
  rw [← size, utf8ByteSize_eq, lineColumn_eq_after whole]

/-- Places between characters are ordered as their lines and columns are. -/
theorem lineColumn_lt (valid : IsValid text ⟨o⟩) (valid' : IsValid text ⟨p⟩) (before : o < p) :
    Prod.Lex (· < ·) (· < ·) ((ofBytes text.toUTF8).lineColumn text.toUTF8 o)
      ((ofBytes text.toUTF8).lineColumn text.toUTF8 p) := by
  obtain ⟨front, back, split, rfl, place⟩ := exists_front valid
  obtain ⟨front', back', split', rfl, place'⟩ := exists_front valid'
  have both : front.toList ++ back.toList = front'.toList ++ back'.toList := by
    rw [← String.toList_append, ← String.toList_append, ← split, split']
  rw [utf8ByteSize_eq, utf8ByteSize_eq] at before
  rw [place, place']
  rcases List.append_eq_append_iff.mp both with ⟨more, longer, _⟩ | ⟨more, longer, _⟩
  · rw [longer]
    refine after_lt front.toList fun none_ => ?_
    simp [longer, none_] at before
  · -- The earlier place would have more characters before it than the later one.
    rw [longer, List.flatMap_append, List.length_append] at before
    omega

/-- Different places between characters are on different lines or in different columns. -/
theorem lineColumn_inj (valid : IsValid text ⟨o⟩) (valid' : IsValid text ⟨p⟩)
    (same : (ofBytes text.toUTF8).lineColumn text.toUTF8 o =
      (ofBytes text.toUTF8).lineColumn text.toUTF8 p) : o = p := by
  have irrefl (x : Nat × Nat) : ¬ Prod.Lex (· < ·) (· < ·) x x := by
    simp [Prod.lex_def]
  rcases Nat.lt_trichotomy o p with before | equal | after_
  · exact absurd (same ▸ lineColumn_lt valid valid' before) (irrefl _)
  · exact equal
  · exact absurd (same ▸ lineColumn_lt valid' valid after_) (irrefl _)

end

end LineTable

end UnusedMethods.Text

namespace UnusedMethods

open Script Text

/-! ### Lines in outlines -/

/-- The methods of a file are on the lines of their places. -/
theorem Script.line_of_mem_methods {path : Path} {lines : LineTable} {program : Node}
    {cls : ClassDecl} (listed : cls ∈ (outline path lines program).classes) {m : Method}
    (member : m ∈ cls.methods) : m.line = lines.line m.offset := by
  obtain ⟨node, _, rfl⟩ := List.mem_map.mp listed
  obtain ⟨part, _, _, declares⟩ := mem_declared_of_mem_methods member
  cases declares
  rfl

/-- The references of a file are on the lines of their places. -/
theorem Script.line_of_mem_refs {path : Path} {lines : LineTable} {program : Node} {r : MemberRef}
    (member : r ∈ (outline path lines program).refs) : r.line = lines.line r.offset := by
  obtain ⟨occurrence, _, mentioned⟩ := List.mem_filterMap.mp member
  obtain ⟨mention, _, rfl⟩ := Option.map_eq_some_iff.mp mentioned
  rfl

/-- For every text: the line of any offset is one more than the number of newlines before it, and
its start is in the table. Between characters, the column is one more than the number of characters
since the last newline, so lines and columns are ordered as their places are, and no two places share
them. The methods and the references of a text that is read are on these lines. -/
theorem lineTable_exact (text : String) :
    (∀ o, (LineTable.ofBytes text.toUTF8).line o = 1 + newlinesBefore text.toUTF8 o) ∧
    (∀ o, (LineTable.ofBytes text.toUTF8).line o - 1 <
      (LineTable.ofBytes text.toUTF8).starts.size) ∧
    (∀ o, String.Pos.Raw.IsValid text ⟨o⟩ → ∃ before after,
      text = before ++ after ∧ before.utf8ByteSize = o ∧
      (LineTable.ofBytes text.toUTF8).lineColumn text.toUTF8 o =
        ((LineTable.ofBytes text.toUTF8).line o,
          1 + (before.toList.rtakeWhile (· != '\n')).length)) ∧
    (∀ o p, String.Pos.Raw.IsValid text ⟨o⟩ → String.Pos.Raw.IsValid text ⟨p⟩ →
      (o < p → Prod.Lex (· < ·) (· < ·)
        ((LineTable.ofBytes text.toUTF8).lineColumn text.toUTF8 o)
        ((LineTable.ofBytes text.toUTF8).lineColumn text.toUTF8 p)) ∧
      ((LineTable.ofBytes text.toUTF8).lineColumn text.toUTF8 o =
        (LineTable.ofBytes text.toUTF8).lineColumn text.toUTF8 p → o = p)) ∧
    ∀ path file, readSource path text = .ok file →
      (∀ cls ∈ file.classes, ∀ m ∈ cls.methods,
        m.line = 1 + newlinesBefore text.toUTF8 m.offset) ∧
      ∀ r ∈ file.refs, r.line = 1 + newlinesBefore text.toUTF8 r.offset := by
  refine ⟨LineTable.line_eq _, fun o => ?_, fun o valid => ?_, fun o p valid valid' => ?_, ?_⟩
  · have some_ := LineTable.line_eq text.toUTF8 o
    have inside := LineTable.line_le_size text.toUTF8 o
    omega
  · obtain ⟨before, after_, split, size, place⟩ := LineTable.exists_front valid
    exact ⟨before, after_, split, size,
      Prod.ext (LineTable.lineColumn_fst ..) (by rw [place, LineTable.after])⟩
  · exact ⟨LineTable.lineColumn_lt valid valid', LineTable.lineColumn_inj valid valid'⟩
  · intro path file returned
    obtain ⟨dialect, program, _, _, rfl⟩ := readSource_eq_ok returned
    constructor
    · intro cls listed m member
      rw [line_of_mem_methods listed member, LineTable.line_eq]
    · intro r member
      rw [line_of_mem_refs member, LineTable.line_eq]

/-- A text with a character of two bytes before a class and a call. -/
def accentedText : String :=
  "// é\nclass A\x7brun()\x7b\x7d\x7d\nnew A().go"

/-- The outline of the text. -/
def accentedFile : SourceFile where
  path := "/p/src/f.ts"
  classes := [⟨some "A", none, 2, [⟨"run", .pub, false, .method, 2, 14⟩]⟩]
  refs := [⟨"go", .access, 3, 31⟩]
  imports := []
  requests := []
  exported := none
  isTarget := false

open LineTable in
theorem lineTable_exact_accented :
    readSource "/p/src/f.ts" accentedText = .ok accentedFile ∧
      String.Pos.Raw.IsValid accentedText ⟨5⟩ ∧ String.Pos.Raw.IsValid accentedText ⟨14⟩ ∧
      (ofBytes accentedText.toUTF8).lineColumn accentedText.toUTF8 5 = (1, 5) ∧
      (ofBytes accentedText.toUTF8).lineColumn accentedText.toUTF8 14 = (2, 9) ∧
      Prod.Lex (· < ·) (· < ·) ((ofBytes accentedText.toUTF8).lineColumn accentedText.toUTF8 5)
        ((ofBytes accentedText.toUTF8).lineColumn accentedText.toUTF8 14) ∧
      (∀ cls ∈ accentedFile.classes, ∀ m ∈ cls.methods,
        m.line = 1 + newlinesBefore accentedText.toUTF8 m.offset) ∧
      ∀ r ∈ accentedFile.refs, r.line = 1 + newlinesBefore accentedText.toUTF8 r.offset := by
  have returned : readSource "/p/src/f.ts" accentedText = .ok accentedFile := by decide +kernel
  have first : String.Pos.Raw.IsValid accentedText ⟨5⟩ := by decide +kernel
  have second : String.Pos.Raw.IsValid accentedText ⟨14⟩ := by decide +kernel
  obtain ⟨_, _, _, ordered, outlined⟩ := lineTable_exact accentedText
  exact ⟨returned, first, second, by decide +kernel, by decide +kernel,
    (ordered 5 14 first second).1 (by decide), outlined _ _ returned⟩

end UnusedMethods
