import UnusedMethods.Proofs.TextBytes
import UnusedMethods.Text.Lossy

/-!
# Characters of bytes

Any bytes are cut into parts that stand for one character each: the bytes of a character, or some
that begin a character and stop, or one that begins none. Whether bytes are such a part depends on
them and on the next byte only. The parts of a text's bytes are its characters, so valid text is
decoded as all other bytes are.
-/

namespace UnusedMethods.Text

/-! ### The bytes of one character -/

/-- The first bytes of a character that is not complete, and the range of the byte that would
continue it. -/
inductive Begins : List UInt8 → UInt8 → UInt8 → Prop
  | first {a lo hi : UInt8} (range : secondRange a = some (lo, hi)) : Begins [a] lo hi
  | second {a b lo hi : UInt8} (range : secondRange a = some (lo, hi))
      (inside : within lo hi b = true) (wide : widthOf a ≠ 2) : Begins [a, b] 0x80 0xBF
  | third {a b c lo hi : UInt8} (range : secondRange a = some (lo, hi))
      (inside : within lo hi b = true) (wide : widthOf a ≠ 2) (inside' : within 0x80 0xBF c = true)
      (wider : widthOf a ≠ 3) : Begins [a, b, c] 0x80 0xBF

/-- Bytes stand for one character in front of others: they are the bytes of the character, or
they are no character and stand for the replacement, because the byte after them does not continue
them. -/
inductive StandFor : List UInt8 → List UInt8 → Char → Prop
  | ascii {a : UInt8} (rest : List UInt8) (small : a < 0x80) : StandFor [a] rest (.ofNat a.toNat)
  | two {a b lo hi : UInt8} (rest : List UInt8) (range : secondRange a = some (lo, hi))
      (inside : within lo hi b = true) (width : widthOf a = 2) :
      StandFor [a, b] rest (.ofNat ((a &&& 0x1F).toNat * 64 + payload b))
  | three {a b c lo hi : UInt8} (rest : List UInt8) (range : secondRange a = some (lo, hi))
      (inside : within lo hi b = true) (inside' : within 0x80 0xBF c = true)
      (width : widthOf a = 3) :
      StandFor [a, b, c] rest
        (.ofNat (((a &&& 0x0F).toNat * 64 + payload b) * 64 + payload c))
  | four {a b c d lo hi : UInt8} (rest : List UInt8) (range : secondRange a = some (lo, hi))
      (inside : within lo hi b = true) (inside' : within 0x80 0xBF c = true)
      (inside'' : within 0x80 0xBF d = true) (width : widthOf a = 4) :
      StandFor [a, b, c, d] rest
        (.ofNat ((((a &&& 0x07).toNat * 64 + payload b) * 64 + payload c) * 64 + payload d))
  | stray {a : UInt8} (rest : List UInt8) (wide : ¬ a < 0x80) (none_ : secondRange a = none) :
      StandFor [a] rest replacement
  | broken {part rest : List UInt8} {lo hi : UInt8} (begins : Begins part lo hi)
      (stops : ∀ b ∈ rest.head?, within lo hi b = false) : StandFor part rest replacement

theorem secondRange_eq (a : UInt8) :
    secondRange a =
      if 194 ≤ a.toNat ∧ a.toNat ≤ 223 then some (0x80, 0xBF)
      else if a.toNat = 224 then some (0xA0, 0xBF)
      else if a.toNat = 237 then some (0x80, 0x9F)
      else if 225 ≤ a.toNat ∧ a.toNat ≤ 239 then some (0x80, 0xBF)
      else if a.toNat = 240 then some (0x90, 0xBF)
      else if 241 ≤ a.toNat ∧ a.toNat ≤ 243 then some (0x80, 0xBF)
      else if a.toNat = 244 then some (0x80, 0x8F)
      else none := by
  simp [secondRange, within, UInt8.le_iff_toNat_le, ← UInt8.toNat_inj]

theorem small_iff (a : UInt8) : a < 0x80 ↔ a.toNat < 128 :=
  UInt8.lt_iff_toNat_lt

theorem widthOf_eq (a : UInt8) :
    widthOf a = if a.toNat < 128 then 1 else if a.toNat < 224 then 2
      else if a.toNat < 240 then 3 else 4 := by
  simp [widthOf, UInt8.lt_iff_toNat_lt]

theorem within_iff (lo hi b : UInt8) :
    within lo hi b = true ↔ lo.toNat ≤ b.toNat ∧ b.toNat ≤ hi.toNat := by
  simp [within, UInt8.le_iff_toNat_le]

theorem payload_eq (b : UInt8) : payload b = b.toNat % 64 := by
  rw [payload, UInt8.toNat_and]
  exact Nat.and_two_pow_sub_one_eq_mod b.toNat 6

theorem toNat_and_31 (a : UInt8) : (a &&& 0x1F).toNat = a.toNat % 32 :=
  Nat.and_two_pow_sub_one_eq_mod a.toNat 5

theorem toNat_and_15 (a : UInt8) : (a &&& 0x0F).toNat = a.toNat % 16 :=
  Nat.and_two_pow_sub_one_eq_mod a.toNat 4

theorem toNat_and_7 (a : UInt8) : (a &&& 0x07).toNat = a.toNat % 8 :=
  Nat.and_two_pow_sub_one_eq_mod a.toNat 3

/-- A first byte and the range of the second. The range leaves out what a shorter character would
say. -/
theorem range_of_secondRange {a lo hi : UInt8} (range : secondRange a = some (lo, hi)) :
    194 ≤ a.toNat ∧ a.toNat < 245 ∧ 128 ≤ lo.toNat ∧ hi.toNat < 192 ∧
      (a.toNat = 224 → 160 ≤ lo.toNat) ∧ (a.toNat = 240 → 144 ≤ lo.toNat) := by
  rw [secondRange_eq] at range
  split_ifs at range
  all_goals
    obtain ⟨rfl, rfl⟩ := Prod.mk.inj (Option.some.inj range)
    simp only [UInt8.reduceToNat]
    omega

/-- A first byte tells how many bytes there are. -/
theorem width_cases {a lo hi : UInt8} (range : secondRange a = some (lo, hi)) :
    (widthOf a = 2 ∧ a.toNat < 224) ∨ (widthOf a = 3 ∧ 224 ≤ a.toNat ∧ a.toNat < 240) ∨
      (widthOf a = 4 ∧ 240 ≤ a.toNat) := by
  have bounds := range_of_secondRange range
  rw [widthOf_eq]
  split_ifs <;> omega

theorem decodeFirst_of_standFor {part rest : List UInt8} {c : Char}
    (stands : StandFor part rest c) : decodeFirst (part ++ rest) = (c, part.length) := by
  have wide {a lo hi : UInt8} (range : secondRange a = some (lo, hi)) : ¬ a < 0x80 := by
    have bounds := range_of_secondRange range
    rw [small_iff]
    omega
  cases stands with
  | ascii rest small => simp [decodeFirst, small]
  | two rest range inside width => simp [decodeFirst, wide range, range, inside, width]
  | three rest range inside inside' width =>
    simp [decodeFirst, wide range, range, inside, inside', width]
  | four rest range inside inside' inside'' width =>
    simp [decodeFirst, wide range, range, inside, inside', inside'', width]
  | stray rest wide none_ => simp [decodeFirst, wide, none_]
  | broken begins stops =>
    -- The decoder looks at the byte that stops the part, or finds that there is none.
    cases begins with
    | first range =>
      cases rest with
      | nil => simp [decodeFirst, wide range, range]
      | cons b rest => simp [decodeFirst, wide range, range, stops b rfl]
    | second range inside wide_ =>
      cases rest with
      | nil => simp [decodeFirst, wide range, range, inside, wide_]
      | cons b rest => simp [decodeFirst, wide range, range, inside, wide_, stops b rfl]
    | third range inside wide_ inside' wider =>
      cases rest with
      | nil => simp [decodeFirst, wide range, range, inside, wide_, inside', wider]
      | cons b rest =>
        simp [decodeFirst, wide range, range, inside, wide_, inside', wider, stops b rfl]

theorem stops_or_continues (lo hi : UInt8) (rest : List UInt8) :
    (∀ b ∈ rest.head?, within lo hi b = false) ∨
      ∃ b others, rest = b :: others ∧ within lo hi b = true := by
  cases rest with
  | nil => exact Or.inl (by simp)
  | cons b others =>
    cases inside : within lo hi b with
    | false => exact Or.inl (by simp [inside])
    | true => exact Or.inr ⟨b, others, rfl, inside⟩

/-- Bytes begin with some that stand for a character. -/
theorem exists_standFor {bytes : List UInt8} (some_ : bytes ≠ []) :
    ∃ part rest c, bytes = part ++ rest ∧ StandFor part rest c := by
  obtain ⟨a, rest, rfl⟩ := List.exists_cons_of_ne_nil some_
  by_cases small : a < 0x80
  · exact ⟨[a], rest, _, rfl, .ascii rest small⟩
  cases range : secondRange a with
  | none => exact ⟨[a], rest, _, rfl, .stray rest small range⟩
  | some bounds =>
    obtain ⟨lo, hi⟩ := bounds
    -- Each further byte continues the character, or the bytes before it are a broken part.
    rcases stops_or_continues lo hi rest with stops | ⟨b, rest, rfl, inside⟩
    · exact ⟨[a], rest, _, rfl, .broken (.first range) stops⟩
    by_cases two : widthOf a = 2
    · exact ⟨[a, b], rest, _, rfl, .two rest range inside two⟩
    rcases stops_or_continues 0x80 0xBF rest with stops | ⟨c, rest, rfl, inside'⟩
    · exact ⟨[a, b], rest, _, rfl, .broken (.second range inside two) stops⟩
    by_cases three : widthOf a = 3
    · exact ⟨[a, b, c], rest, _, rfl, .three rest range inside inside' three⟩
    rcases stops_or_continues 0x80 0xBF rest with stops | ⟨d, rest, rfl, inside''⟩
    · exact ⟨[a, b, c], rest, _, rfl, .broken (.third range inside two inside' three) stops⟩
    -- A character of several bytes that has neither two nor three has four.
    have four : widthOf a = 4 := by
      have cases_ := width_cases range
      omega
    exact ⟨[a, b, c, d], rest, _, rfl, .four rest range inside inside' inside'' four⟩

section

variable {part rest : List UInt8} {c : Char}

theorem StandFor.ne_nil (stands : StandFor part rest c) : part ≠ [] := by
  cases stands with
  | broken begins => cases begins <;> simp
  | _ => simp

/-- What stands for a character does so in front of other bytes, too, if these begin as those after
it do, or with a byte that does not continue it. -/
theorem StandFor.of_head (stands : StandFor part rest c) {others : List UInt8}
    (ahead : ∀ b ∈ others.head?,
      b ∈ rest.head? ∨ ∀ {lo hi}, Begins part lo hi → within lo hi b = false) :
    StandFor part others c := by
  cases stands with
  | ascii _ small => exact .ascii others small
  | two _ range inside width => exact .two others range inside width
  | three _ range inside inside' width => exact .three others range inside inside' width
  | four _ range inside inside' inside'' width =>
    exact .four others range inside inside' inside'' width
  | stray _ wide none_ => exact .stray others wide none_
  | broken begins stops =>
    refine .broken begins fun b first => ?_
    rcases ahead b first with same | stops'
    · exact stops b same
    · exact stops' begins

theorem StandFor.of_prefix (stands : StandFor part rest c) {others : List UInt8}
    (shorter : others <+: rest) : StandFor part others c := by
  obtain ⟨more, rfl⟩ := shorter
  refine stands.of_head fun b first => Or.inl ?_
  rw [List.head?_append, Option.mem_def.mp first]
  rfl

end

/-! ### Characters of bytes -/

/-- The characters that bytes stand for, one part after the other. -/
def characters : List UInt8 → List Char
  | [] => []
  | a :: rest =>
    (decodeFirst (a :: rest)).1 :: characters (rest.drop ((decodeFirst (a :: rest)).2 - 1))
termination_by bytes => bytes.length
decreasing_by exact Nat.lt_succ_of_le (List.length_drop ▸ Nat.sub_le ..)

theorem characters_append {part rest : List UInt8} {c : Char} (stands : StandFor part rest c) :
    characters (part ++ rest) = c :: characters rest := by
  have decoded := decodeFirst_of_standFor stands
  obtain ⟨a, more, rfl⟩ := List.exists_cons_of_ne_nil stands.ne_nil
  rw [List.cons_append] at decoded ⊢
  rw [characters, decoded]
  simp

theorem toList_decodeOnto (text : String) (bytes : List UInt8) :
    (decodeOnto text bytes).toList = text.toList ++ characters bytes := by
  fun_induction decodeOnto text bytes with
  | case1 text => simp [characters]
  | case2 text a rest c n decoded ih => simp [ih, characters, decoded]

/-- An induction over the parts that stand for characters. -/
theorem parts_induction {motive : List UInt8 → Prop} (nil : motive [])
    (part : ∀ part rest c, StandFor part rest c → motive rest → motive (part ++ rest)) :
    ∀ bytes, motive bytes := by
  intro bytes
  induction size : bytes.length using Nat.strongRecOn generalizing bytes with
  | ind n ih =>
    by_cases none_ : bytes = []
    · exact none_ ▸ nil
    obtain ⟨first, rest, c, rfl, stands⟩ := exists_standFor none_
    have shorter := List.length_pos_of_ne_nil stands.ne_nil
    rw [List.length_append] at size
    exact part first rest c stands (ih rest.length (by omega) rest rfl)

/-- Two bytes begin a character, unless they say what a shorter one would, or a surrogate, or what
is beyond all characters. -/
theorem exists_range {a b : UInt8} (first : 194 ≤ a.toNat ∧ a.toNat ≤ 244)
    (second : 128 ≤ b.toNat ∧ b.toNat ≤ 191)
    (ends : (a.toNat = 224 → 160 ≤ b.toNat) ∧ (a.toNat = 237 → b.toNat ≤ 159) ∧
      (a.toNat = 240 → 144 ≤ b.toNat) ∧ (a.toNat = 244 → b.toNat ≤ 143)) :
    ∃ lo hi, secondRange a = some (lo, hi) ∧ within lo hi b = true := by
  rw [secondRange_eq]
  split_ifs
  case neg => omega
  all_goals
    refine ⟨_, _, rfl, (within_iff ..).mpr ?_⟩
    simp only [UInt8.reduceToNat]
    omega

/-- The bytes of a character stand for it. -/
theorem standFor_encode (c : Char) (rest : List UInt8) :
    StandFor (String.utf8EncodeChar c) rest c := by
  have valid : c.val.toNat < 55296 ∨ 57343 < c.val.toNat ∧ c.val.toNat < 1114112 := c.valid
  have back {v : Nat} (same : v = c.val.toNat) : Char.ofNat v = c := by
    rw [same]
    exact Char.ofNat_toNat c
  have byte {n : Nat} (small : n < 256) : (UInt8.ofNat n).toNat = n := by
    rw [UInt8.toNat_ofNat', Nat.mod_eq_of_lt small]
  have later (n : Nat) : (UInt8.ofNat (n % 64 + 128)).toNat = n % 64 + 128 := byte (by omega)
  have continues (n : Nat) : within 0x80 0xBF (UInt8.ofNat (n % 64 + 128)) = true := by
    rw [within_iff, later]
    simp only [UInt8.reduceToNat]
    omega
  -- What the bytes say is put together from six bits each, so it is the character again.
  fun_cases String.utf8EncodeChar c with
  | case1 v small =>
    have first : (UInt8.ofNat v).toNat = v := byte (by omega)
    have stands := StandFor.ascii rest ((small_iff (UInt8.ofNat v)).mpr (by omega))
    rwa [back first] at stands
  | case2 v _ _ =>
    have first : (UInt8.ofNat (v / 64 % 32 + 192)).toNat = v / 64 % 32 + 192 := byte (by omega)
    have second := later v
    obtain ⟨lo, hi, range, inside⟩ := exists_range (a := UInt8.ofNat (v / 64 % 32 + 192))
      (b := UInt8.ofNat (v % 64 + 128)) (by omega) (by omega) (by omega)
    have width : widthOf (UInt8.ofNat (v / 64 % 32 + 192)) = 2 := by
      rw [widthOf_eq, first]
      split_ifs <;> omega
    have stands := StandFor.two rest range inside width
    rw [toNat_and_31, payload_eq, first, second] at stands
    rwa [back (by omega)] at stands
  | case3 v _ _ _ =>
    have first : (UInt8.ofNat (v / 4096 % 16 + 224)).toNat = v / 4096 % 16 + 224 :=
      byte (by omega)
    have second := later (v / 64)
    obtain ⟨lo, hi, range, inside⟩ := exists_range (a := UInt8.ofNat (v / 4096 % 16 + 224))
      (b := UInt8.ofNat (v / 64 % 64 + 128)) (by omega) (by omega) (by omega)
    have width : widthOf (UInt8.ofNat (v / 4096 % 16 + 224)) = 3 := by
      rw [widthOf_eq, first]
      split_ifs <;> omega
    have stands := StandFor.three rest range inside (continues v) width
    rw [toNat_and_15, payload_eq, payload_eq, first, second, later] at stands
    rwa [back (by omega)] at stands
  | case4 v _ _ _ =>
    have first : (UInt8.ofNat (v / 262144 % 8 + 240)).toNat = v / 262144 % 8 + 240 :=
      byte (by omega)
    have second := later (v / 4096)
    obtain ⟨lo, hi, range, inside⟩ := exists_range (a := UInt8.ofNat (v / 262144 % 8 + 240))
      (b := UInt8.ofNat (v / 4096 % 64 + 128)) (by omega) (by omega) (by omega)
    have width : widthOf (UInt8.ofNat (v / 262144 % 8 + 240)) = 4 := by
      rw [widthOf_eq, first]
      split_ifs <;> omega
    have stands := StandFor.four rest range inside (continues (v / 64)) (continues v) width
    rw [toNat_and_7, payload_eq, payload_eq, payload_eq, first, second, later, later] at stands
    rwa [back (by omega)] at stands

theorem characters_encode (text : List Char) :
    characters (text.flatMap String.utf8EncodeChar) = text := by
  induction text with
  | nil => simp [characters]
  | cons c text ih => rw [List.flatMap_cons, characters_append (standFor_encode c _), ih]

/-- Valid text is decoded as any other bytes are. -/
theorem toList_decodeLossy (bytes : ByteArray) :
    (decodeLossy bytes).toList = characters bytes.toList := by
  rw [decodeLossy]
  split
  next valid =>
    obtain ⟨text, rfl⟩ : ∃ text : String, bytes = text.toUTF8 := ⟨.fromUTF8 bytes valid, rfl⟩
    rw [toList_toUTF8, characters_encode]
    rfl
  · simpa using toList_decodeOnto "" bytes.toList

end UnusedMethods.Text
