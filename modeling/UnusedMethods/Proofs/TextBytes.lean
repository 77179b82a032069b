import Mathlib.Algebra.BigOperators.Group.List.Basic
import UnusedMethods.Text.Lines

/-!
# Bytes of texts

The bytes of a text are those of its characters, one after the other. Every character has one byte
that begins it and otherwise bytes that continue it. A newline is a byte of its own, and no other
character has this byte.
-/

namespace UnusedMethods.Text

theorem toList_eq_data (bytes : ByteArray) : bytes.toList = bytes.data.toList := by
  have loop (i : Nat) (done : List UInt8) :
      ByteArray.toList.loop bytes i done = done.reverse ++ bytes.data.toList.drop i := by
    fun_induction ByteArray.toList.loop bytes i done with
    | case1 i done inside ih =>
      have within : i < bytes.data.toList.length := by simpa using inside
      rw [ih, List.drop_eq_getElem_cons within]
      simp [ByteArray.get!, getElem!_pos, inside]
    | case2 i done outside =>
      rw [List.drop_eq_nil_of_le]
      · simp
      · simpa using outside
  exact loop 0 []

theorem length_toList (bytes : ByteArray) : bytes.toList.length = bytes.size := by
  rw [toList_eq_data]
  rfl

theorem drop_toList {bytes : ByteArray} {i : Nat} (inside : i < bytes.size) :
    bytes.toList.drop i = bytes[i] :: bytes.toList.drop (i + 1) := by
  rw [toList_eq_data]
  exact List.drop_eq_getElem_cons inside

theorem toList_toByteArray (bytes : List UInt8) : bytes.toByteArray.toList = bytes := by
  rw [toList_eq_data, List.data_toByteArray]

theorem toList_toUTF8 (text : String) :
    text.toUTF8.toList = text.toList.flatMap String.utf8EncodeChar := by
  rw [toList_eq_data, String.toUTF8, ← String.utf8Encode_toList, List.utf8Encode,
    List.data_toByteArray]

theorem utf8ByteSize_eq (text : String) :
    text.utf8ByteSize = (text.toList.flatMap String.utf8EncodeChar).length := by
  rw [← toList_toUTF8, length_toList, String.toUTF8, String.size_toByteArray]

/-! ### Bytes of a character -/

/-- A character of more than one byte has no byte of a character of one. -/
theorem high_of_mem {c : Char} (wide : 128 ≤ c.toNat) {b : UInt8}
    (member : b ∈ String.utf8EncodeChar c) : 128 ≤ b.toNat := by
  have value : 128 ≤ c.val.toNat := wide
  unfold String.utf8EncodeChar at member
  grind [UInt8.toNat_ofNat']

theorem isContinuation_iff (b : UInt8) : isContinuation b = true ↔ b.toNat / 64 = 2 := by
  have all : ∀ n < 256, isContinuation (UInt8.ofNat n) = (n / 64 == 2) := by decide +kernel
  have same := all b.toNat b.toNat_lt
  rw [UInt8.ofNat_toNat] at same
  rw [same, beq_iff_eq]

/-- A character has a first byte, and all its other bytes continue it. -/
theorem exists_first (c : Char) : ∃ first more, String.utf8EncodeChar c = first :: more ∧
    isContinuation first = false ∧ ∀ b ∈ more, isContinuation b = true := by
  have top : c.val.toNat < 1114112 := by
    have valid := c.valid
    unfold UInt32.isValidChar Nat.isValidChar at valid
    omega
  simp only [← Bool.not_eq_true, isContinuation_iff]
  fun_cases String.utf8EncodeChar c
  · refine ⟨_, [], rfl, ?_, by simp⟩
    simp only [UInt8.toNat_ofNat']
    omega
  all_goals
    refine ⟨_, _, rfl, ?_, ?_⟩
    · simp only [UInt8.toNat_ofNat']
      omega
    · simp only [List.mem_cons, List.not_mem_nil, or_false, forall_eq_or_imp, forall_eq,
        UInt8.toNat_ofNat']
      omega

/-- Bytes of which one begins a character: as many as there are characters. -/
theorem countP_first (text : List Char) :
    (text.flatMap String.utf8EncodeChar).countP (fun b => !isContinuation b) = text.length := by
  have single (c : Char) : (String.utf8EncodeChar c).countP (fun b => !isContinuation b) = 1 := by
    obtain ⟨first, more, bytes, begins, continue_⟩ := exists_first c
    have none_ : more.countP (fun b => !isContinuation b) = 0 :=
      List.countP_eq_zero.mpr fun b member => by simp [continue_ b member]
    simp [bytes, begins, none_]
  simp [List.countP_flatMap, Function.comp_def, single]

theorem utf8EncodeChar_newline : String.utf8EncodeChar '\n' = [newline] := rfl

theorem newline_mem_encode (c : Char) : newline ∈ String.utf8EncodeChar c ↔ c = '\n' := by
  constructor
  · intro member
    by_cases wide : 128 ≤ c.toNat
    · have high := high_of_mem wide member
      exact absurd high (by decide)
    · have single : String.utf8EncodeChar c = [UInt8.ofNat c.val.toNat] :=
        if_pos (Nat.le_of_lt_succ (Nat.lt_of_not_le wide))
      rw [single, List.mem_singleton] at member
      have value := congrArg UInt8.toNat member
      rw [UInt8.toNat_ofNat', Nat.mod_eq_of_lt (by
        have small : c.val.toNat < 128 := Nat.lt_of_not_le wide
        omega)] at value
      exact Char.toNat_inj.mp value.symm
  · rintro rfl
    exact List.mem_cons_self

/-- Newline bytes are the newlines of a text. -/
theorem count_newline (text : List Char) :
    (text.flatMap String.utf8EncodeChar).count newline = text.count '\n' := by
  induction text with
  | nil => rfl
  | cons c text ih =>
    rw [List.flatMap_cons, List.count_append, ih, List.count_cons, Nat.add_comm]
    by_cases same : c = '\n'
    · subst same
      rfl
    · have none_ := List.count_eq_zero.mpr (mt (newline_mem_encode c).mp same)
      simp [none_, same]

end UnusedMethods.Text
