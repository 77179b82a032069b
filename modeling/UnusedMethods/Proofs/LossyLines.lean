import UnusedMethods.Loading
import UnusedMethods.Proofs.LineCounts
import UnusedMethods.Proofs.LossyDecoding

/-!
# Lossy decoding keeps lines

A newline byte neither continues a character nor is part of one that is broken, and it is the only
part that stands for a newline. So bytes before a newline are decoded as if they stood alone, and
lines of bytes become lines of text. A place in the text has as many newlines before it as the
corresponding place in the bytes, and the lines that a file or a failure shows are counted in the
bytes as well as in the text.
-/

namespace UnusedMethods.Text

section

variable {part rest : List UInt8} {c : Char}

/-! ### Newlines -/

theorem toNat_ofNat {v : Nat} (valid : v.isValidChar) : (Char.ofNat v).toNat = v := by
  rw [Char.ofNat, dif_pos valid]
  rfl

theorem ofNat_ne_newline {v : Nat} (wide : 128 ≤ v) : Char.ofNat v ≠ '\n' := by
  intro same
  by_cases valid : v.isValidChar
  · have value : v = 10 := (toNat_ofNat valid).symm.trans (congrArg Char.toNat same)
    omega
  · -- What is no character becomes the null character, which is no newline either.
    rw [Char.ofNat, dif_neg valid] at same
    cases same

theorem high_of_range {a b lo hi : UInt8} (range : secondRange a = some (lo, hi))
    (inside : within lo hi b = true) : 128 ≤ a.toNat ∧ 128 ≤ b.toNat := by
  have bounds := range_of_secondRange range
  rw [within_iff] at inside
  omega

theorem high_of_within {b : UInt8} (inside : within 0x80 0xBF b = true) : 128 ≤ b.toNat :=
  ((within_iff ..).mp inside).1

theorem Begins.high {lo hi : UInt8} (begins : Begins part lo hi) : ∀ b ∈ part, 128 ≤ b.toNat := by
  cases begins with
  | first range =>
    have bounds := range_of_secondRange range
    simp only [List.mem_singleton, forall_eq]
    omega
  | second range inside => simpa using high_of_range range inside
  | third range inside _ inside' =>
    simpa [and_assoc] using And.intro (high_of_range range inside) (high_of_within inside')

/-- A newline byte stands for a newline, and all else for other characters. -/
theorem StandFor.newline_cases (stands : StandFor part rest c) :
    (c = '\n' ∧ part = [newline]) ∨ (c ≠ '\n' ∧ newline ∉ part) := by
  have apart {bytes : List UInt8} (high : ∀ b ∈ bytes, 128 ≤ b.toNat) : newline ∉ bytes :=
    fun member => absurd (high newline member) (by decide)
  cases stands with
  | @ascii a _ small =>
    have value : (Char.ofNat a.toNat).toNat = a.toNat := by
      rw [small_iff] at small
      exact toNat_ofNat (Or.inl (by omega))
    by_cases same : a = newline
    · subst same
      exact Or.inl ⟨rfl, rfl⟩
    · refine Or.inr ⟨fun char => same ?_, by simpa using Ne.symm same⟩
      rw [char] at value
      exact UInt8.toNat_inj.mp value.symm
  -- Characters of several bytes are beyond the first 128, since none says what fewer bytes would.
  | @two a b _ _ _ range inside width =>
    have bounds := range_of_secondRange range
    have high := high_of_range range inside
    have size := width_cases range
    refine Or.inr ⟨ofNat_ne_newline ?_, apart (by simpa using high)⟩
    rw [toNat_and_31]
    omega
  | @three a b _ _ _ _ range inside inside' width =>
    have bounds := range_of_secondRange range
    have high := And.intro (high_of_range range inside) (high_of_within inside')
    have size := width_cases range
    rw [within_iff] at inside
    refine Or.inr ⟨ofNat_ne_newline ?_, apart (by simpa [and_assoc] using high)⟩
    rw [toNat_and_15, payload_eq b]
    omega
  | @four a b _ _ _ _ _ range inside inside' inside'' width =>
    have bounds := range_of_secondRange range
    have high := And.intro (high_of_range range inside)
      (And.intro (high_of_within inside') (high_of_within inside''))
    have size := width_cases range
    rw [within_iff] at inside
    refine Or.inr ⟨ofNat_ne_newline ?_, apart (by simpa [and_assoc] using high)⟩
    rw [toNat_and_7, payload_eq b]
    omega
  | stray _ wide none_ =>
    refine Or.inr ⟨by decide, apart ?_⟩
    rw [small_iff] at wide
    simpa using wide
  | broken begins _ => exact Or.inr ⟨by decide, apart begins.high⟩

/-- No character goes on with a newline. -/
theorem Begins.not_within_newline {lo hi : UInt8} (begins : Begins part lo hi) :
    within lo hi newline = false := by
  cases begins with
  | first range =>
    have bounds := range_of_secondRange range
    rw [← Bool.not_eq_true, within_iff, show newline.toNat = 10 from rfl]
    omega
  | second | third => rfl

theorem StandFor.append_newline (stands : StandFor part rest c) (others : List UInt8) :
    StandFor part (rest ++ newline :: others) c := by
  refine stands.of_head fun b first => ?_
  cases rest with
  | nil =>
    obtain rfl : newline = b := Option.some.inj first
    exact Or.inr Begins.not_within_newline
  | cons r rest => exact Or.inl first

end

/-! ### Lines -/

/-- A newline cuts the bytes in two that are decoded by themselves. -/
theorem characters_append_newline (front back : List UInt8) :
    characters (front ++ newline :: back) = characters front ++ '\n' :: characters back := by
  have alone (rest : List UInt8) : StandFor [newline] rest '\n' := .ascii rest (by decide)
  induction front using parts_induction with
  | nil => simpa [characters] using characters_append (alone back)
  | part part rest c stands ih =>
    rw [List.append_assoc, characters_append (stands.append_newline back), ih,
      characters_append stands, List.cons_append]

theorem count_characters (bytes : List UInt8) :
    (characters bytes).count '\n' = bytes.count newline := by
  induction bytes using parts_induction with
  | nil => simp [characters]
  | part part rest c stands ih =>
    rw [characters_append stands, List.count_append, List.count_cons, ih, Nat.add_comm]
    rcases stands.newline_cases with ⟨rfl, rfl⟩ | ⟨other, apart⟩
    · rfl
    · simp [other, List.count_eq_zero.mpr apart]

/-- The lines of the decoded text are the decoded lines. -/
theorem splitOn_characters (bytes : List UInt8) :
    (characters bytes).splitOn '\n' = (bytes.splitOn newline).map characters := by
  have alone {line : List UInt8} (none_ : newline ∉ line) : '\n' ∉ characters line := by
    rwa [← List.count_eq_zero, count_characters, List.count_eq_zero]
  -- The induction is on lines, which need not be whole parts: the first newline ends one.
  induction size : bytes.length using Nat.strongRecOn generalizing bytes with
  | ind n ih =>
    by_cases some_ : newline ∈ bytes
    · obtain ⟨line, rest, rfl, none_⟩ := List.eq_append_cons_of_mem some_
      have shorter : rest.length < n := by
        rw [← size, List.length_append, List.length_cons]
        omega
      rw [characters_append_newline, List.splitOn_append_cons_self_of_not_mem (alone none_),
        List.splitOn_append_cons_self_of_not_mem none_, ih _ shorter rest rfl, List.map_cons]
    · rw [List.splitOn_eq_singleton (alone some_), List.splitOn_eq_singleton some_,
        List.map_singleton]

/-! ### Places -/

/-- A place in the bytes corresponds to one in their text: the bytes before it are decoded by
themselves, and the place in the text is inside the first character of those after it, or at the
end. -/
structure Corresponds (bytes : ByteArray) (raw place : Nat) : Prop where
  inside : raw ≤ bytes.size
  cuts : decodeLossy bytes =
    decodeLossy (bytes.extract 0 raw) ++ decodeLossy (bytes.extract raw bytes.size)
  reached : (decodeLossy (bytes.extract 0 raw)).utf8ByteSize ≤ place
  covers : ∀ c ∈ (decodeLossy (bytes.extract raw bytes.size)).toList.head?,
    place < (decodeLossy (bytes.extract 0 raw)).utf8ByteSize + c.utf8Size

/-- A place in the text of bytes is on a line, which is that of the corresponding place in the
bytes. -/
def CountsLines (bytes : ByteArray) (place line : Nat) : Prop :=
  (∃ raw, Corresponds bytes raw place) ∧
    ∀ raw, Corresponds bytes raw place → line = 1 + newlinesBefore bytes raw

/-- Bytes can be cut where the character at a place begins. A part may be cut off from those after
it, since it still stands for its character before others. -/
theorem exists_cut (bytes : List UInt8) (place : Nat) : ∃ front back, bytes = front ++ back ∧
    characters bytes = characters front ++ characters back ∧
    ((characters front).flatMap String.utf8EncodeChar).length ≤ place ∧
    ∀ c ∈ (characters back).head?,
      place < ((characters front).flatMap String.utf8EncodeChar).length + c.utf8Size := by
  induction bytes using parts_induction generalizing place with
  | nil => exact ⟨[], [], rfl, by simp [characters]⟩
  | part part rest c stands ih =>
    by_cases here : place < c.utf8Size
    · refine ⟨[], part ++ rest, rfl, by simp [characters], by simp [characters], ?_⟩
      rw [characters_append stands]
      simpa [characters] using here
    · obtain ⟨front, back, rfl, split, reached, covers⟩ := ih (place - c.utf8Size)
      have stands' : StandFor part front c := stands.of_prefix (List.prefix_append ..)
      refine ⟨part ++ front, back, (List.append_assoc ..).symm, ?_, ?_, ?_⟩
      · rw [characters_append stands, characters_append stands', split, List.cons_append]
      all_goals
        rw [characters_append stands', List.flatMap_cons, List.length_append,
          String.length_utf8EncodeChar]
      · omega
      · intro d first
        have covered := covers d first
        omega

theorem toList_extract (bytes : ByteArray) (start stop : Nat) :
    (bytes.extract start stop).toList = (bytes.toList.drop start).take (stop - start) := by
  rw [toList_eq_data, toList_eq_data, ByteArray.data_extract, Array.toList_extract,
    List.extract_eq_take_drop]

theorem utf8ByteSize_decodeLossy (bytes : ByteArray) : (decodeLossy bytes).utf8ByteSize =
    ((characters bytes.toList).flatMap String.utf8EncodeChar).length := by
  rw [utf8ByteSize_eq, toList_decodeLossy]

theorem exists_corresponds (bytes : ByteArray) (place : Nat) :
    ∃ raw, Corresponds bytes raw place := by
  obtain ⟨front, back, whole, split, reached, covers⟩ := exists_cut bytes.toList place
  have size : bytes.size = front.length + back.length := by
    rw [← length_toList, whole, List.length_append]
  have before : (bytes.extract 0 front.length).toList = front := by
    rw [toList_extract, whole, List.drop_zero, Nat.sub_zero, List.take_left' rfl]
  have behind : (bytes.extract front.length bytes.size).toList = back := by
    rw [toList_extract, whole, List.drop_left' rfl, List.take_of_length_le (by omega)]
  refine ⟨front.length, by omega, ?_, ?_, ?_⟩
  · rw [← String.toList_inj, String.toList_append, toList_decodeLossy, toList_decodeLossy,
      toList_decodeLossy, before, behind, split]
  · rwa [utf8ByteSize_decodeLossy, before]
  · rwa [utf8ByteSize_decodeLossy, before, toList_decodeLossy, behind]

/-- No newline is among the bytes of a character that are followed by more of them. -/
theorem count_take_encode {c : Char} {k : Nat} (within_ : k < c.utf8Size) :
    ((String.utf8EncodeChar c).take k).count newline = 0 := by
  rw [List.count_eq_zero]
  intro member
  obtain rfl := (newline_mem_encode c).mp (List.mem_of_mem_take member)
  -- A newline is one byte, so nothing comes before its end.
  obtain rfl : k = 0 := Nat.lt_one_iff.mp within_
  cases member

/-- Corresponding places have as many newlines before them. -/
theorem Corresponds.newlinesBefore_eq {bytes : ByteArray} {raw place : Nat}
    (same : Corresponds bytes raw place) :
    newlinesBefore (decodeLossy bytes).toUTF8 place = newlinesBefore bytes raw := by
  obtain ⟨inside, cuts, reached, covers⟩ := same
  have before : (bytes.extract 0 raw).toList = bytes.toList.take raw := by
    rw [toList_extract, List.drop_zero, Nat.sub_zero]
  rw [utf8ByteSize_decodeLossy, before] at reached covers
  -- Before the place are the characters of the bytes before it, and a part of the next one.
  rw [newlinesBefore, newlinesBefore, cuts, toList_toUTF8, String.toList_append,
    List.flatMap_append, List.take_append, List.count_append, toList_decodeLossy, before,
    List.take_of_length_le reached, count_newline, count_characters]
  cases ahead : (decodeLossy (bytes.extract raw bytes.size)).toList with
  | nil => simp
  | cons c rest =>
    have short := covers c (by rw [ahead]; rfl)
    have inner : place - ((characters (bytes.toList.take raw)).flatMap
        String.utf8EncodeChar).length < c.utf8Size := by omega
    rw [List.flatMap_cons, List.take_append_of_le_length, count_take_encode inner, Nat.add_zero]
    rw [String.length_utf8EncodeChar]
    exact Nat.le_of_lt inner

/-- The line table of the text counts the newlines of the bytes. -/
theorem countsLines_line (bytes : ByteArray) (place : Nat) :
    CountsLines bytes place ((LineTable.ofBytes (decodeLossy bytes).toUTF8).line place) := by
  refine ⟨exists_corresponds bytes place, fun raw same => ?_⟩
  rw [LineTable.line_eq, same.newlinesBefore_eq]

end UnusedMethods.Text

namespace UnusedMethods

open Script Text

/-! ### Lines of files -/

/-- A text is refused for a fault: it cannot be parsed, or its tree breaks a rule. -/
inductive Script.Refuses (dialect : Dialect) (text : String) : Diagnostic → Prop
  | unparsed {fault : Diagnostic} (stopped : parseProgram dialect text = .error fault) :
      Refuses dialect text fault
  | early {fault : Diagnostic} {program : Node} (parsed : parseProgram dialect text = .ok program)
      (broken : earlyError? dialect text program = some fault) : Refuses dialect text fault

/-- A failure with a place is about a fault of the text there. -/
theorem Script.Refuses.of_readSource {path path' : Path} {text reason : String}
    {place : Nat × Nat}
    (failed : readSource path text = .error (.badSource path' reason (some place))) :
    path' = path ∧ ∃ dialect fault, Dialect.ofPath? path = some dialect ∧
      Refuses dialect text fault ∧ reason = fault.complaint.message ∧
      place = (LineTable.ofBytes text.toUTF8).lineColumn text.toUTF8 fault.place := by
  unfold readSource at failed
  split at failed
  · cases failed
  next dialect known =>
    simp only at failed
    split at failed
    next fault stopped =>
      cases failed
      exact ⟨rfl, dialect, fault, known, .unparsed stopped, rfl, rfl⟩
    next program parsed =>
      split at failed
      next fault broken =>
        cases failed
        exact ⟨rfl, dialect, fault, known, .early parsed broken, rfl, rfl⟩
      · cases failed

/-- For all bytes: the lines of the decoded text are the lines of the bytes, decoded. The classes,
the methods and the references of a file that holds the bytes, and the fault for which it is
refused, are on the lines of the corresponding places in the bytes. -/
theorem decodeLossy_keeps_lines (path : Path) (bytes : ByteArray) :
    (decodeLossy bytes).toList.splitOn '\n' =
      (bytes.toList.splitOn newline).map (fun line => (decodeLossy line.toByteArray).toList) ∧
    (∀ file, SourceFile.ofBytes path bytes = .ok file → ∃ dialect program,
      Dialect.ofPath? path = some dialect ∧
      parseProgram dialect (decodeLossy bytes) = .ok program ∧
      List.Forall₂ (fun node cls => CountsLines bytes node.start cls.line)
        (program.children.filterMap topClass?) file.classes ∧
      (∀ cls ∈ file.classes, ∀ m ∈ cls.methods, CountsLines bytes m.offset m.line) ∧
      ∀ r ∈ file.refs, CountsLines bytes r.offset r.line) ∧
    ∀ path' reason line column,
      SourceFile.ofBytes path bytes = .error (.badSource path' reason (some (line, column))) →
      path' = path ∧ ∃ dialect fault, Dialect.ofPath? path = some dialect ∧
        Refuses dialect (decodeLossy bytes) fault ∧ reason = fault.complaint.message ∧
        CountsLines bytes fault.place line := by
  refine ⟨?_, fun file returned => ?_, fun path' reason line column failed => ?_⟩
  · simp only [toList_decodeLossy, toList_toByteArray]
    exact splitOn_characters bytes.toList
  · obtain ⟨dialect, program, known, parsed, rfl⟩ :=
      readSource_eq_ok (SourceFile.readSource_of_ofBytes returned)
    refine ⟨dialect, program, known, parsed, ?_, fun cls listed m member => ?_,
      fun r member => ?_⟩
    · rw [outline, List.forall₂_map_right_iff, List.forall₂_same]
      exact fun node _ => countsLines_line bytes node.start
    · rw [line_of_mem_methods listed member]
      exact countsLines_line bytes m.offset
    · rw [line_of_mem_refs member]
      exact countsLines_line bytes r.offset
  · unfold SourceFile.ofBytes at failed
    split at failed
    · cases failed
    obtain ⟨same, dialect, fault, known, refused, worded, place⟩ := Refuses.of_readSource failed
    refine ⟨same, dialect, fault, known, refused, worded, ?_⟩
    rw [show line = _ from congrArg Prod.fst place, LineTable.lineColumn_fst]
    exact countsLines_line bytes fault.place

/-- A class with a method and a call, where characters are cut off before a newline, inside the
method's key and before another newline. -/
def cutBytes : ByteArray :=
  ⟨#[0x2F, 0x2F, 0xC3, 0x0A, 0x63, 0x6C, 0x61, 0x73, 0x73, 0x20, 0x41, 0x7B, 0x27, 0xE2, 0x82,
    0x27, 0x28, 0x29, 0x7B, 0x7D, 0x7D, 0x2F, 0x2F, 0xF0, 0x9F, 0x92, 0x0A, 0x6E, 0x65, 0x77, 0x20,
    0x41, 0x28, 0x29, 0x2E, 0x67, 0x6F]⟩

/-- The outline of the text. -/
def cutFile : SourceFile where
  path := "/p/src/f.ts"
  classes := [⟨some "A", none, 2, [⟨"\uFFFD", .pub, false, .method, 2, 14⟩]⟩]
  refs := [⟨"go", .access, 3, 38⟩]
  imports := []
  requests := []
  exported := none
  isTarget := false

/-- A class without a body, after a character that is cut off before a newline. -/
def unfinishedBytes : ByteArray :=
  ⟨#[0x2F, 0x2F, 0xC3, 0x0A, 0x63, 0x6C, 0x61, 0x73, 0x73, 0x20, 0x41]⟩

theorem decodeLossy_keeps_lines_cut :
    SourceFile.ofBytes "/p/src/f.ts" cutBytes = .ok cutFile ∧
      SourceFile.ofBytes "/p/src/f.ts" unfinishedBytes =
        .error (.badSource "/p/src/f.ts" "Expected `\x7b` but found `EOF`" (some (2, 8))) ∧
      newlinesBefore unfinishedBytes 11 = 1 ∧
      (∀ cls ∈ cutFile.classes, ∀ m ∈ cls.methods, CountsLines cutBytes m.offset m.line) ∧
      (∀ r ∈ cutFile.refs, CountsLines cutBytes r.offset r.line) ∧
      ∃ dialect fault, Refuses dialect (decodeLossy unfinishedBytes) fault ∧
        CountsLines unfinishedBytes fault.place 2 := by
  have returned : SourceFile.ofBytes "/p/src/f.ts" cutBytes = .ok cutFile := by decide +kernel
  have failed : SourceFile.ofBytes "/p/src/f.ts" unfinishedBytes =
      .error (.badSource "/p/src/f.ts" "Expected `\x7b` but found `EOF`" (some (2, 8))) := by
    decide +kernel
  obtain ⟨_, _, _, _, _, methods, refs⟩ :=
    (decodeLossy_keeps_lines "/p/src/f.ts" cutBytes).2.1 cutFile returned
  obtain ⟨_, dialect, fault, _, refused, _, counts⟩ :=
    (decodeLossy_keeps_lines "/p/src/f.ts" unfinishedBytes).2.2 _ _ _ _ failed
  exact ⟨returned, failed, by decide +kernel, methods, refs, dialect, fault, refused, counts⟩

end UnusedMethods
