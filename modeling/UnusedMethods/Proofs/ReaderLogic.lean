import UnusedMethods.Json.Decode

/-!
# Where readers stand and what they do there

A reader stands before some bytes, and all that is said of its position is what these bytes are
like. From all positions of a kind a reader may read the same value and come to positions of another
kind, or it may fail. Two readers agree from positions of a kind if from any two of them both fail,
or both read the same value. This is how readers are compared whose texts are different, but alike
in all that matters: what the readers are made of is taken one after the other.
-/

namespace UnusedMethods.Json

open Text (byteAt)

/-! ### The bytes ahead -/

/-- The bytes from a position on. -/
def remaining (bytes : ByteArray) (i : Nat) : List UInt8 :=
  bytes.data.toList.drop i

theorem length_remaining (bytes : ByteArray) (i : Nat) :
    (remaining bytes i).length = bytes.size - i := by
  rw [remaining, List.length_drop]
  rfl

theorem remaining_add (bytes : ByteArray) (i k : Nat) :
    remaining bytes (i + k) = (remaining bytes i).drop k := by
  rw [remaining, remaining, List.drop_drop]

theorem remaining_eq_cons {bytes : ByteArray} {i : Nat} (inside : i < bytes.size) :
    remaining bytes i = bytes[i] :: remaining bytes (i + 1) :=
  List.drop_eq_getElem_cons inside

theorem remaining_eq_nil {bytes : ByteArray} {i : Nat} (outside : ¬ i < bytes.size) :
    remaining bytes i = [] :=
  List.drop_eq_nil_of_le (Nat.le_of_not_lt outside)

theorem head?_remaining (bytes : ByteArray) (i : Nat) :
    (remaining bytes i).head? = if i < bytes.size then some (byteAt bytes i) else none := by
  by_cases inside : i < bytes.size
  · rw [remaining_eq_cons inside, if_pos inside, byteAt, dif_pos inside]
    rfl
  · rw [remaining_eq_nil inside, if_neg inside]
    rfl

theorem map_byteAt {bytes : ByteArray} {i n : Nat} (inside : n ≤ (remaining bytes i).length) :
    (List.range n).map (fun k => byteAt bytes (i + k)) = (remaining bytes i).take n := by
  refine List.ext_getElem ?_ ?_
  · rw [List.length_map, List.length_range, List.length_take]
    omega
  · intro k left _
    rw [List.length_map, List.length_range] at left
    rw [length_remaining] at inside
    have within : i + k < bytes.size := by omega
    simp only [List.getElem_map, List.getElem_range, List.getElem_take, remaining,
      List.getElem_drop, byteAt, dif_pos within]
    rfl

theorem scanWhile_eq (test : UInt8 → Bool) (bytes : ByteArray) (i : Nat) :
    scanWhile test bytes i = i + ((remaining bytes i).takeWhile test).length := by
  fun_induction scanWhile test bytes i with
  | case1 i inside passes ih =>
    rw [ih, remaining_eq_cons inside, List.takeWhile_cons_of_pos passes, List.length_cons]
    omega
  | case2 i inside stops =>
    rw [remaining_eq_cons inside, List.takeWhile_cons_of_neg stops]
    rfl
  | case3 i outside =>
    rw [remaining_eq_nil outside]
    rfl

theorem remaining_scanWhile (test : UInt8 → Bool) (bytes : ByteArray) (i : Nat) :
    remaining bytes (scanWhile test bytes i) = (remaining bytes i).dropWhile test := by
  rw [scanWhile_eq, remaining_add]
  have whole := List.takeWhile_append_dropWhile (p := test) (l := remaining bytes i)
  calc
    _ = ((remaining bytes i).takeWhile test ++ (remaining bytes i).dropWhile test).drop
        ((remaining bytes i).takeWhile test).length := by rw [whole]
    _ = (remaining bytes i).dropWhile test := List.drop_left

/-! ### What readers do -/

/-- What the bytes ahead are like. -/
abbrev Ahead := List UInt8 → Prop

/-- A position where so many values may still be entered, with such bytes ahead. -/
def Stands (bytes : ByteArray) (p : Position) (depth : Nat) (ahead : Ahead) : Prop :=
  p.depth = depth ∧ ahead (remaining bytes p.index)

/-- From all positions of a kind a reader reads a value and comes to positions of another kind. -/
def Reads {α : Type} (reader : Reader α) (depth : Nat) (ahead : Ahead) (value : α)
    (ahead' : Ahead) : Prop :=
  ∀ bytes p, Stands bytes p depth ahead →
    ∃ q, reader bytes p = .ok value q ∧ Stands bytes q depth ahead'

/-- From all positions of a kind a reader fails. -/
def Refuses {α : Type} (reader : Reader α) (depth : Nat) (ahead : Ahead) : Prop :=
  ∀ bytes p, Stands bytes p depth ahead → ∃ fault q, reader bytes p = .error fault q

/-- What two readers of different texts end with: both fail, or both read the same value and come to
positions of one kind. -/
inductive Alike {α : Type} (bytes bytes' : ByteArray) (depth : Nat) (result : α → Ahead → Prop) :
    EStateM.Result Fault Position α → EStateM.Result Fault Position α → Prop
  | failed {fault fault' : Fault} {q q' : Position} :
      Alike bytes bytes' depth result (.error fault q) (.error fault' q')
  | read {value : α} {ahead : Ahead} {q q' : Position} (known : result value ahead)
      (there : Stands bytes q depth ahead) (there' : Stands bytes' q' depth ahead) :
      Alike bytes bytes' depth result (.ok value q) (.ok value q')

/-- Two readers end alike from any two positions of a kind. -/
def Agree {α : Type} (first second : Reader α) (depth : Nat) (ahead : Ahead)
    (result : α → Ahead → Prop) : Prop :=
  ∀ bytes p bytes' p', Stands bytes p depth ahead → Stands bytes' p' depth ahead →
    Alike bytes bytes' depth result (first bytes p) (second bytes' p')

/-- What is left is bytes of a kind, whatever was read. -/
abbrev Leaves {α : Type} (rest : Ahead) (_ : α) (after : Ahead) : Prop :=
  after = rest

/-- A reader that ends alike from any two positions of a kind. -/
abbrev Settled {α : Type} (reader : Reader α) (depth : Nat) (ahead : Ahead)
    (result : α → Ahead → Prop) : Prop :=
  Agree reader reader depth ahead result

section

variable {α β : Type} {reader reader' : Reader α} {f g : α → Reader β} {depth : Nat}
variable {ahead between : Ahead} {value : α} {result : β → Ahead → Prop}

theorem bind_apply (reader : Reader α) (f : α → Reader β) (bytes : ByteArray) (p : Position) :
    (reader >>= f) bytes p = match reader bytes p with
      | .ok a q => f a bytes q
      | .error fault q => .error fault q := by
  show EStateM.bind (reader bytes) (fun a => f a bytes) p = _
  rw [EStateM.bind]
  cases reader bytes p <;> rfl

theorem tryCatch_apply (reader : Reader α) (handler : Fault → Reader α) (bytes : ByteArray)
    (p : Position) :
    (tryCatch reader handler : Reader α) bytes p = match reader bytes p with
      | .ok a q => .ok a q
      | .error fault q => handler fault bytes q := by
  show EStateM.tryCatch (reader bytes) (fun fault => handler fault bytes) p = _
  delta EStateM.tryCatch
  cases reader bytes p <;> rfl

theorem modify_apply (move : Position → Position) (bytes : ByteArray) (p : Position) :
    (modify move : Reader Unit) bytes p = .ok () (move p) :=
  rfl

theorem get_apply (bytes : ByteArray) (p : Position) : (get : Reader Position) bytes p = .ok p p :=
  rfl

theorem read_apply (bytes : ByteArray) (p : Position) :
    (read : Reader ByteArray) bytes p = .ok bytes p :=
  rfl

/-! ### One step after the other -/

theorem Reads.bind {b : β} {ahead' : Ahead} (reads : Reads reader depth ahead value between)
    (next : Reads (f value) depth between b ahead') :
    Reads (reader >>= f) depth ahead b ahead' := by
  intro bytes p here
  obtain ⟨q, read, there⟩ := reads bytes p here
  rw [bind_apply, read]
  exact next bytes q there

theorem Reads.bind_refuses (reads : Reads reader depth ahead value between)
    (next : Refuses (f value) depth between) : Refuses (reader >>= f) depth ahead := by
  intro bytes p here
  obtain ⟨q, read, there⟩ := reads bytes p here
  rw [bind_apply, read]
  exact next bytes q there

theorem Refuses.bind (refuses : Refuses reader depth ahead) :
    Refuses (reader >>= f) depth ahead := by
  intro bytes p here
  obtain ⟨fault, q, failed⟩ := refuses bytes p here
  rw [bind_apply, failed]
  exact ⟨fault, q, rfl⟩

theorem Agree.bind {known : α → Ahead → Prop} (agree : Agree reader reader' depth ahead known)
    (next : ∀ value between, known value between →
      Agree (f value) (g value) depth between result) :
    Agree (reader >>= f) (reader' >>= g) depth ahead result := by
  intro bytes p bytes' p' here here'
  rw [bind_apply, bind_apply]
  have ended := agree bytes p bytes' p' here here'
  generalize reader bytes p = r, reader' bytes' p' = r' at ended ⊢
  cases ended with
  | failed => exact .failed
  | read known there there' => exact next _ _ known _ _ _ _ there there'

/-- Readers that start with the same step. -/
theorem Agree.after (reads : Reads reader depth ahead value between)
    (next : Agree (f value) (g value) depth between result) :
    Agree (reader >>= f) (reader >>= g) depth ahead result := by
  intro bytes p bytes' p' here here'
  obtain ⟨q, read, there⟩ := reads bytes p here
  obtain ⟨q', read', there'⟩ := reads bytes' p' here'
  rw [bind_apply, bind_apply, read, read']
  exact next _ _ _ _ there there'

theorem Agree.refuses {known : α → Ahead → Prop} (refuses : Refuses reader depth ahead)
    (refuses' : Refuses reader' depth ahead) : Agree reader reader' depth ahead known := by
  intro bytes p bytes' p' here here'
  obtain ⟨fault, q, failed⟩ := refuses bytes p here
  obtain ⟨fault', q', failed'⟩ := refuses' bytes' p' here'
  rw [failed, failed']
  exact .failed

theorem Refuses.settled {known : α → Ahead → Prop} (refuses : Refuses reader depth ahead) :
    Settled reader depth ahead known :=
  .refuses refuses refuses

theorem Reads.settled {known : α → Ahead → Prop} (reads : Reads reader depth ahead value between)
    (holds : known value between) : Settled reader depth ahead known := by
  intro bytes p bytes' p' here here'
  obtain ⟨q, read, there⟩ := reads bytes p here
  obtain ⟨q', read', there'⟩ := reads bytes' p' here'
  rw [read, read']
  exact .read holds there there'

theorem reads_pure (value : α) : Reads (pure value) depth ahead value ahead :=
  fun _ p here => ⟨p, rfl, here⟩

theorem Reads.mono {ahead' between' : Ahead} (reads : Reads reader depth ahead value between)
    (before : ∀ xs, ahead' xs → ahead xs) (after : ∀ xs, between xs → between' xs) :
    Reads reader depth ahead' value between' := by
  intro bytes p here
  obtain ⟨q, read, there⟩ := reads bytes p ⟨here.1, before _ here.2⟩
  exact ⟨q, read, there.1, after _ there.2⟩

/-- Before readers the bytes ahead may be fewer, and after them more. -/
theorem Agree.mono {ahead' : Ahead} {known known' : α → Ahead → Prop}
    (agree : Agree reader reader' depth ahead known) (before : ∀ xs, ahead' xs → ahead xs)
    (after : ∀ value between, known value between →
      ∃ between', known' value between' ∧ ∀ xs, between xs → between' xs) :
    Agree reader reader' depth ahead' known' := by
  intro bytes p bytes' p' here here'
  have ended := agree bytes p bytes' p' ⟨here.1, before _ here.2⟩ ⟨here'.1, before _ here'.2⟩
  generalize reader bytes p = r, reader' bytes' p' = r' at ended ⊢
  cases ended with
  | failed => exact .failed
  | read known there there' =>
    obtain ⟨between', known', more⟩ := after _ _ known
    exact .read known' ⟨there.1, more _ there.2⟩ ⟨there'.1, more _ there'.2⟩

/-! ### Failures -/

theorem refuses_failHere (cause : Cause) : Refuses (failHere cause : Reader α) depth ahead :=
  fun _ p _ => ⟨_, p, rfl⟩

theorem refuses_failNext (cause : Cause) : Refuses (failNext cause : Reader α) depth ahead :=
  fun _ p _ => ⟨_, p, rfl⟩

theorem refuses_failUnplaced (cause : Cause) :
    Refuses (failUnplaced cause : Reader α) depth ahead :=
  fun _ p _ => ⟨_, p, rfl⟩

/-- What comes before a reader that fails anywhere does not matter. -/
theorem refuses_bind_right (fails : ∀ a depth, Refuses (f a) depth fun _ => True) :
    Refuses (reader >>= f) depth ahead := by
  intro bytes p _
  rw [bind_apply]
  cases reader bytes p with
  | ok a q => exact fails a q.depth bytes q ⟨rfl, trivial⟩
  | error fault q => exact ⟨fault, q, rfl⟩

/-- A failure that gets its place stays a failure. -/
theorem placed_apply (reader : Reader α) (bytes : ByteArray) (p : Position) :
    placed reader bytes p = match reader bytes p with
      | .ok a q => .ok a q
      | .error fault q =>
        .error ⟨fault.cause, some (fault.place.getD (placeOf bytes q.index))⟩ q := by
  rw [placed, tryCatch_apply]
  cases reader bytes p with
  | ok a q => rfl
  | error fault q =>
    obtain ⟨cause, place⟩ := fault
    cases place <;> rfl

theorem Refuses.placed (refuses : Refuses reader depth ahead) :
    Refuses (placed reader) depth ahead := by
  intro bytes p here
  obtain ⟨fault, q, failed⟩ := refuses bytes p here
  rw [placed_apply, failed]
  exact ⟨_, q, rfl⟩

theorem Agree.placed {known : α → Ahead → Prop} (agree : Agree reader reader' depth ahead known) :
    Agree (placed reader) (placed reader') depth ahead known := by
  intro bytes p bytes' p' here here'
  rw [placed_apply, placed_apply]
  have ended := agree bytes p bytes' p' here here'
  generalize reader bytes p = r, reader' bytes' p' = r' at ended ⊢
  cases ended with
  | failed => exact .failed
  | read known there there' => exact .read known there there'

theorem entering_apply (reader : Reader α) (bytes : ByteArray) (p : Position) :
    entering reader bytes p =
      if p.depth - 1 = 0 then failNext .tooDeep bytes { p with depth := p.depth - 1 }
      else match reader bytes { p with depth := p.depth - 1 } with
        | .ok a q => .ok a { q with depth := q.depth + 1 }
        | .error fault q => .error fault { q with depth := q.depth + 1 } := by
  unfold entering
  by_cases deep : p.depth - 1 = 0
  · simp only [bind_apply, modify_apply, get_apply, deep, if_pos, beq_self_eq_true]
    rfl
  · simp only [bind_apply, modify_apply, get_apply, tryCatch_apply, beq_iff_eq, deep, if_false]
    cases reader bytes { p with depth := p.depth - 1 } <;> rfl

/-- Entering a value needs a depth of two. Inside there is one less. -/
theorem Agree.entering {known : α → Ahead → Prop}
    (agree : Agree reader reader' (depth - 1) ahead known) :
    Agree (entering reader) (entering reader') depth ahead known := by
  intro bytes p bytes' p' here here'
  rw [entering_apply, entering_apply, here.1, here'.1]
  by_cases deep : depth - 1 = 0
  · rw [if_pos deep, if_pos deep]
    exact .failed
  · rw [if_neg deep, if_neg deep]
    have ended := agree bytes { p with depth := depth - 1 } bytes' { p' with depth := depth - 1 }
      ⟨rfl, here.2⟩ ⟨rfl, here'.2⟩
    generalize reader bytes { p with depth := depth - 1 } = r,
      reader' bytes' { p' with depth := depth - 1 } = r' at ended ⊢
    -- `deep` keeps the subtraction from being cut off.
    have back {q : Position} (inside : q.depth = depth - 1) : q.depth + 1 = depth := by
      omega
    cases ended with
    | failed => exact .failed
    | read known there there' =>
      exact .read known ⟨back there.1, there.2⟩ ⟨back there'.1, there'.2⟩

theorem closedBy_ok (ending : Reader Unit) {bytes : ByteArray} {p q : Position}
    (read : reader bytes p = .ok value q) :
    closedBy ending reader bytes p = match ending bytes q with
      | .ok _ q' => .ok value q'
      | .error fault q' => .error fault q' := by
  rw [closedBy, bind_apply, tryCatch_apply, bind_apply, read]
  show (_ >>= _ : Reader α) bytes q = _
  rw [bind_apply, tryCatch_apply, bind_apply]
  cases ending bytes q <;> rfl

theorem closedBy_error (ending : Reader Unit) {bytes : ByteArray} {p q : Position} {fault : Fault}
    (failed : reader bytes p = .error fault q) :
    ∃ q', closedBy ending reader bytes p = .error fault q' := by
  rw [closedBy, bind_apply, tryCatch_apply, bind_apply, failed]
  show ∃ q', (_ >>= _ : Reader α) bytes q = _
  rw [bind_apply, tryCatch_apply, bind_apply]
  cases ending bytes q <;> exact ⟨_, rfl⟩

theorem Agree.closedBy {ending : Reader Unit} {known known' : α → Ahead → Prop}
    (agree : Agree reader reader' depth ahead known)
    (ends : ∀ value between, known value between →
      Settled ending depth between fun _ after => known' value after) :
    Agree (closedBy ending reader) (closedBy ending reader') depth ahead known' := by
  intro bytes p bytes' p' here here'
  have ended := agree bytes p bytes' p' here here'
  -- The ending is read after a failure as well, and then the failure is the result all the same.
  generalize inside : reader bytes p = r, inside' : reader' bytes' p' = r' at ended
  cases ended with
  | failed =>
    obtain ⟨_, failed⟩ := closedBy_error ending inside
    obtain ⟨_, failed'⟩ := closedBy_error ending inside'
    rw [failed, failed']
    exact .failed
  | read known there there' =>
    rw [closedBy_ok ending inside, closedBy_ok ending inside']
    have ended := ends _ _ known _ _ _ _ there there'
    generalize ending bytes _ = r, ending bytes' _ = r' at ended ⊢
    cases ended with
    | failed => exact .failed
    | read known there there' => exact .read known there there'

/-! ### Texts of different length -/

/-- Readers that go by the length of the text agree if they do so for all lengths from some on, and
all texts are that long. -/
theorem Agree.sized {h : Nat → Reader α} {known : α → Ahead → Prop} {least : Nat}
    (long : ∀ xs, ahead xs → least ≤ xs.length)
    (agree : ∀ n n', least ≤ n → least ≤ n' → Agree (h n) (h n') depth ahead known) :
    Settled (do h (← read).size) depth ahead known := by
  have enough {bytes : ByteArray} {p : Position} (here : Stands bytes p depth ahead) :
      least ≤ bytes.size := by
    have bound := long _ here.2
    rw [length_remaining] at bound
    omega
  intro bytes p bytes' p' here here'
  exact agree _ _ (enough here) (enough here') bytes p bytes' p' here here'

/-- Readers that go by where they are. In both texts this is as deep, but not the same place. -/
theorem Agree.noting {h h' : Position → Reader α} {known : α → Ahead → Prop}
    (agree : ∀ p p', p.depth = depth → p'.depth = depth → Agree (h p) (h' p') depth ahead known) :
    Agree (get >>= h) (get >>= h') depth ahead known :=
  fun bytes p bytes' p' here here' => agree p p' here.1 here'.1 bytes p bytes' p' here here'

end

/-! ### Looking at bytes and passing over them -/

section

variable {depth : Nat} {ahead ahead' : Ahead}

theorem peek_apply (bytes : ByteArray) (p : Position) :
    peek bytes p = .ok (remaining bytes p.index).head? p := by
  rw [head?_remaining]
  rfl

theorem reads_peek {b : Option UInt8} (sees : ∀ xs, ahead xs → xs.head? = b) :
    Reads peek depth ahead b ahead := by
  intro bytes p here
  rw [peek_apply, sees _ here.2]
  exact ⟨p, rfl, here⟩

/-- A look at a byte that need not be the same in both texts. -/
theorem Agree.look {α : Type} {f g : Option UInt8 → Reader α} {result : α → Ahead → Prop}
    (test : Option UInt8 → Prop) (sees : ∀ xs, ahead xs → test xs.head?)
    (agree : ∀ b b', test b → test b' → Agree (f b) (g b') depth ahead result) :
    Agree (peek >>= f) (peek >>= g) depth ahead result := by
  intro bytes p bytes' p' here here'
  rw [bind_apply, bind_apply, peek_apply, peek_apply]
  exact agree _ _ (sees _ here.2) (sees _ here'.2) _ _ _ _ here here'

theorem reads_skip (moves : ∀ xs, ahead xs → ahead' xs.tail) :
    Reads skip depth ahead () ahead' := by
  intro bytes p here
  refine ⟨{ p with index := p.index + 1 }, rfl, here.1, ?_⟩
  rw [remaining_add, List.drop_one]
  exact moves _ here.2

theorem reads_next {b : UInt8} (sees : ∀ xs, ahead xs → ∃ ys, xs = b :: ys ∧ ahead' ys) :
    Reads next depth ahead (some b) ahead' := by
  have head : ∀ xs, ahead xs → xs.head? = some b := by
    intro xs here
    obtain ⟨ys, rfl, _⟩ := sees xs here
    rfl
  have moves : ∀ xs, ahead xs → ahead' xs.tail := by
    intro xs here
    obtain ⟨ys, rfl, there⟩ := sees xs here
    exact there
  exact (reads_peek head).bind ((reads_skip moves).bind (reads_pure _))

/-- Passing over blanks. -/
theorem reads_peekToken {b : Option UInt8}
    (sees : ∀ xs, ahead xs → ahead' (xs.dropWhile isSpace) ∧ (xs.dropWhile isSpace).head? = b) :
    Reads peekToken depth ahead b ahead' := by
  intro bytes p here
  obtain ⟨there, head⟩ := sees _ here.2
  rw [← remaining_scanWhile] at there head
  refine ⟨{ p with index := scanWhile isSpace bytes p.index }, ?_, here.1, there⟩
  rw [← head]
  exact peek_apply bytes { p with index := scanWhile isSpace bytes p.index }

theorem reads_needToken {b : UInt8} (reads : Reads peekToken depth ahead (some b) ahead') :
    Reads needToken depth ahead b ahead' :=
  reads.bind (reads_pure b)

theorem refuses_needToken (reads : Reads peekToken depth ahead none ahead') :
    Refuses needToken depth ahead :=
  reads.bind_refuses (refuses_failNext _)

end

/-! ### Bytes that are followed by others -/

/-- Bytes with something behind them. -/
def Then (front : List UInt8) (rest : Ahead) : Ahead :=
  fun xs => ∃ ys, xs = front ++ ys ∧ rest ys

theorem then_nil (rest : Ahead) : Then [] rest = rest := by
  funext xs
  simp [Then]

theorem then_append (front more : List UInt8) (rest : Ahead) :
    Then (front ++ more) rest = Then front (Then more rest) := by
  funext xs
  simp only [Then, eq_iff_iff]
  constructor
  · rintro ⟨ys, rfl, there⟩
    exact ⟨more ++ ys, List.append_assoc .., ys, rfl, there⟩
  · rintro ⟨_, rfl, ys, rfl, there⟩
    exact ⟨ys, (List.append_assoc ..).symm, there⟩

variable {depth : Nat} {front : List UInt8} {b : UInt8} {rest : Ahead}

/-- A scan does not go on into the bytes ahead. -/
def Stops (test : UInt8 → Bool) (ahead : Ahead) : Prop :=
  ∀ xs, ahead xs → ∀ b ∈ xs.head?, test b = false

theorem stops_then {test : UInt8 → Bool} (stops : test b = false) :
    Stops test (Then (b :: front) rest) := by
  rintro _ ⟨ys, rfl, _⟩ _ ⟨rfl⟩
  exact stops

theorem takeWhile_then {test : UInt8 → Bool} {run xs : List UInt8}
    (passes : ∀ b ∈ run, test b = true) (stops : Stops test rest) (here : Then run rest xs) :
    xs.takeWhile test = run ∧ rest (xs.dropWhile test) := by
  obtain ⟨ys, rfl, there⟩ := here
  rw [List.takeWhile_append_of_pos passes, List.dropWhile_append_of_pos passes]
  cases ys with
  | nil => exact ⟨List.append_nil run, there⟩
  | cons b ys =>
    have fails := stops _ there b rfl
    rw [List.takeWhile_cons_of_neg (by simp [fails]), List.dropWhile_cons_of_neg (by simp [fails])]
    exact ⟨List.append_nil run, there⟩

theorem reads_peek_then :
    Reads peek depth (Then (b :: front) rest) (some b) (Then (b :: front) rest) := by
  refine reads_peek ?_
  rintro _ ⟨ys, rfl, _⟩
  rfl

theorem reads_skip_then : Reads skip depth (Then (b :: front) rest) () (Then front rest) := by
  refine reads_skip ?_
  rintro _ ⟨ys, rfl, there⟩
  exact ⟨ys, rfl, there⟩

theorem reads_next_then : Reads next depth (Then (b :: front) rest) (some b) (Then front rest) := by
  refine reads_next ?_
  rintro _ ⟨ys, rfl, there⟩
  exact ⟨front ++ ys, rfl, ys, rfl, there⟩

theorem reads_word (letters : List UInt8) :
    Reads (word letters) depth (Then letters rest) () rest := by
  induction letters with
  | nil =>
    rw [then_nil]
    exact reads_pure ()
  | cons b letters ih =>
    refine reads_next_then.bind ?_
    simp only [beq_self_eq_true, if_true]
    exact ih

theorem reads_needInString :
    Reads needInString depth (Then (b :: front) rest) b (Then (b :: front) rest) :=
  reads_peek_then.bind (reads_pure b)

end UnusedMethods.Json
