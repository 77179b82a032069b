import Mathlib.Data.List.Induction
import UnusedMethods.Gather

/-!
# Plain paths

A plain path leads from the root through proper names: nothing in it is empty, a dot or two dots. It
is told apart from any other plain path by its names, it is its own cleaned form and its own key,
and cleaning makes every absolute path plain.
-/

namespace UnusedMethods

namespace Path

/-! ### Segments -/

theorem pieces_ne_nil (sep : Char) (xs : List Char) : pieces sep xs ≠ [] := by
  cases xs with
  | nil => simp [pieces]
  | cons c xs =>
    rw [pieces]
    split
    · simp
    · split
      · simp
      · simp

theorem pieces_append (sep : Char) (xs ys : List Char) :
    pieces sep (xs ++ sep :: ys) = pieces sep xs ++ pieces sep ys := by
  induction xs with
  | nil => simp [pieces]
  | cons c xs ih =>
    rw [List.cons_append, pieces, pieces, ih]
    split
    · rfl
    · cases split : pieces sep xs with
      | nil => exact absurd split (pieces_ne_nil sep xs)
      | cons piece more => rfl

theorem pieces_eq_self (sep : Char) (xs : List Char) (absent : sep ∉ xs) :
    pieces sep xs = [xs] := by
  induction xs with
  | nil => rfl
  | cons c xs ih =>
    rw [List.mem_cons, not_or] at absent
    rw [pieces, ih absent.2]
    simp [Ne.symm absent.1]

theorem not_mem_of_mem_pieces (sep : Char) (xs piece : List Char) (member : piece ∈ pieces sep xs) :
    sep ∉ piece := by
  induction xs generalizing piece with
  | nil => simp_all [pieces]
  | cons c xs ih =>
    rw [pieces] at member
    split at member
    · rcases List.mem_cons.mp member with rfl | later
      · exact List.not_mem_nil
      · exact ih piece later
    next differs =>
      have other : sep ≠ c := fun same => differs (beq_iff_eq.mpr same.symm)
      split at member
      next none => exact absurd none (pieces_ne_nil sep xs)
      next first more equal =>
        rcases List.mem_cons.mp member with rfl | later
        · rw [List.mem_cons, not_or]
          exact ⟨other, ih first (equal ▸ List.mem_cons_self)⟩
        · exact ih piece (equal ▸ List.mem_cons_of_mem _ later)

theorem segments_append (p q : Path) : segments (p ++ "/" ++ q) = segments p ++ segments q := by
  simp only [segments, splitText, String.toList_append, ← List.map_append]
  rw [show "/".toList = ['/'] from rfl, List.append_assoc, List.singleton_append, pieces_append]

theorem segments_eq_self (p : Path) (absent : '/' ∉ p.toList) : segments p = [p] := by
  rw [segments, splitText, pieces_eq_self _ _ absent, List.map_singleton, String.ofList_toList]

theorem not_mem_of_mem_segments (p : Path) (segment : String) (member : segment ∈ segments p) :
    '/' ∉ segment.toList := by
  obtain ⟨piece, listed, rfl⟩ := List.mem_map.mp member
  rw [String.toList_ofList]
  exact not_mem_of_mem_pieces _ _ _ listed

/-! ### Steps and joining -/

/-- The steps that the segments of a path stand for. -/
def steps (p : Path) : List Component :=
  (segments p).filterMap stepOf

theorem steps_append (p q : Path) : steps (p ++ "/" ++ q) = steps p ++ steps q := by
  rw [steps, segments_append, List.filterMap_append]
  rfl

theorem isAbsolute_iff (p : Path) : isAbsolute p = true ↔ ∃ rest, p = "/" ++ rest := by
  rw [isAbsolute, String.startsWith_string_iff]
  constructor
  · rintro ⟨rest, equal⟩
    refine ⟨String.ofList rest, String.toList_inj.mp ?_⟩
    simp [← equal]
  · rintro ⟨rest, rfl⟩
    exact ⟨rest.toList, String.toList_append.symm⟩

theorem endsWith_slash_iff (p : Path) : p.endsWith "/" = true ↔ ∃ start, p = start ++ "/" := by
  rw [← String.endsWith_toSlice, String.Slice.endsWith_string_iff, String.copy_toSlice]
  constructor
  · rintro ⟨start, equal⟩
    refine ⟨String.ofList start, String.toList_inj.mp ?_⟩
    simp [← equal]
  · rintro ⟨start, rfl⟩
    exact ⟨start.toList, String.toList_append.symm⟩

theorem components_of_isAbsolute (p : Path) (absolute : isAbsolute p = true) :
    components p = .root :: steps p := by
  simp [components, absolute, steps]

/-- A relative path is put after another one step by step. -/
theorem steps_join (p q : Path) (relative : isAbsolute q = false) :
    steps (join p q) = steps p ++ steps q := by
  rw [join, relative]
  simp only [Bool.false_eq_true, if_false, beq_iff_eq]
  split
  next empty =>
    subst empty
    rfl
  · split
    next ended =>
      -- No step comes after the slash that ends a path.
      obtain ⟨start, rfl⟩ := (endsWith_slash_iff p).mp ended
      have cut : steps (start ++ "/") = steps start := by
        have whole := steps_append start ""
        rwa [String.append_empty, show steps "" = [] from rfl, List.append_nil] at whole
      rw [steps_append, cut]
    · rw [steps_append]

theorem isAbsolute_append (p s : Path) (absolute : isAbsolute p = true) :
    isAbsolute (p ++ s) = true := by
  obtain ⟨rest, rfl⟩ := (isAbsolute_iff p).mp absolute
  exact (isAbsolute_iff _).mpr ⟨rest ++ s, String.append_assoc⟩

theorem isAbsolute_join (p q : Path) (absolute : isAbsolute p = true) :
    isAbsolute (join p q) = true := by
  unfold join
  split
  · assumption
  · split
    next empty =>
      rw [beq_iff_eq.mp empty] at absolute
      cases absolute
    · split
      · exact isAbsolute_append _ _ absolute
      · exact isAbsolute_append _ _ (isAbsolute_append _ _ absolute)

/-! ### Names -/

/-- A name that an entry of a directory can have. -/
structure IsName (name : String) : Prop where
  step : isStep name = true
  down : name ≠ ".."
  single : '/' ∉ name.toList

theorem IsName.steps_eq {name : String} (proper : IsName name) : steps name = [.name name] := by
  simp [steps, segments_eq_self name proper.single, stepOf, proper.step, proper.down]

theorem isAbsolute_of_single {name : String} (single : '/' ∉ name.toList) :
    isAbsolute name = false := by
  rw [← Bool.not_eq_true, isAbsolute_iff]
  rintro ⟨rest, rfl⟩
  simp at single

/-- Each step of a path goes up or down to a name. -/
theorem mem_steps (p : Path) (c : Component) (member : c ∈ steps p) :
    c = .up ∨ ∃ name, IsName name ∧ c = .name name := by
  obtain ⟨segment, listed, found⟩ := List.mem_filterMap.mp member
  unfold stepOf at found
  split at found
  · cases found
  next step =>
    split at found
    · exact Or.inl (Option.some.inj found).symm
    next down =>
      refine Or.inr ⟨segment, ⟨?_, ?_, not_mem_of_mem_segments p segment listed⟩,
        (Option.some.inj found).symm⟩
      · simpa using step
      · simpa using down

/-! ### Plain paths -/

/-- The path from the root through names. -/
def ofNames (names : List String) : Path :=
  names.foldl join "/"

/-- A path from the root through proper names. -/
def IsPlain (p : Path) : Prop :=
  ∃ names, (∀ name ∈ names, IsName name) ∧ p = ofNames names

theorem ofNames_concat (names : List String) (name : String) :
    ofNames (names ++ [name]) = join (ofNames names) name := by
  simp [ofNames]

theorem isAbsolute_slash : isAbsolute "/" = true :=
  (isAbsolute_iff "/").mpr ⟨"", rfl⟩

theorem isAbsolute_ofNames (names : List String) : isAbsolute (ofNames names) = true := by
  induction names using List.reverseRecOn with
  | nil => exact isAbsolute_slash
  | append_singleton names name ih =>
    rw [ofNames_concat]
    exact isAbsolute_join _ _ ih

theorem IsPlain.isAbsolute {p : Path} (plain : IsPlain p) : isAbsolute p = true := by
  obtain ⟨names, _, rfl⟩ := plain
  exact isAbsolute_ofNames names

theorem IsPlain.join {p : Path} {name : String} (plain : IsPlain p) (proper : IsName name) :
    IsPlain (join p name) := by
  obtain ⟨names, all, rfl⟩ := plain
  refine ⟨names ++ [name], ?_, (ofNames_concat names name).symm⟩
  intro other member
  rcases List.mem_append.mp member with old | new
  · exact all other old
  · exact List.mem_singleton.mp new ▸ proper

theorem steps_ofNames (names : List String) (all : ∀ name ∈ names, IsName name) :
    steps (ofNames names) = names.map .name := by
  induction names using List.reverseRecOn with
  | nil => rfl
  | append_singleton names name ih =>
    have proper : IsName name := all name (by simp)
    rw [ofNames_concat, steps_join _ _ (isAbsolute_of_single proper.single), proper.steps_eq,
      ih fun other member => all other (List.mem_append_left _ member), List.map_append]
    rfl

theorem components_ofNames (names : List String) (all : ∀ name ∈ names, IsName name) :
    components (ofNames names) = .root :: names.map .name := by
  rw [components_of_isAbsolute _ (isAbsolute_ofNames names), steps_ofNames names all]

theorem ofComponents_root (names : List String) :
    ofComponents (.root :: names.map .name) = ofNames names := by
  rw [ofComponents, List.foldl_cons, List.foldl_map, ofNames]
  rw [show join "" Component.root.text = "/" by simp [join, Component.text, isAbsolute_slash]]
  rfl

/-- A plain path is its own key. -/
theorem IsPlain.key_eq {p : Path} (plain : IsPlain p) : key p = p := by
  obtain ⟨names, all, rfl⟩ := plain
  rw [key, components_ofNames names all, ofComponents_root]

theorem foldl_cleanStep_names (names : List String) (done : List Component) :
    (names.map Component.name).foldl cleanStep done =
      (names.map Component.name).reverse ++ done := by
  induction names generalizing done with
  | nil => rfl
  | cons name names ih =>
    rw [List.map_cons, List.foldl_cons, ih, List.reverse_cons, List.append_assoc]
    rfl

/-- A plain path is its own cleaned form. -/
theorem IsPlain.clean_eq {p : Path} (plain : IsPlain p) : clean p = p := by
  obtain ⟨names, all, rfl⟩ := plain
  rw [clean, components_ofNames names all, List.foldl_cons, foldl_cleanStep_names]
  simp [cleanStep, ofComponents_root]

/-- Cleaning steps below the root leaves names below the root. -/
theorem foldl_cleanStep_root (cs : List Component)
    (steps : ∀ c ∈ cs, c = .up ∨ ∃ name, IsName name ∧ c = .name name) (done : List String)
    (all : ∀ name ∈ done, IsName name) :
    ∃ names : List String, (∀ name ∈ names, IsName name) ∧
      cs.foldl cleanStep (done.map .name ++ [.root]) = names.map .name ++ [.root] := by
  induction cs generalizing done with
  | nil => exact ⟨done, all, rfl⟩
  | cons c cs ih =>
    have later := ih fun c member => steps c (List.mem_cons_of_mem _ member)
    rw [List.foldl_cons]
    rcases steps c List.mem_cons_self with rfl | ⟨name, proper, rfl⟩
    -- Going up drops the last name, and stays at the root if there is none.
    · cases done with
      | nil => exact later [] all
      | cons last done =>
        exact later done fun name member => all name (List.mem_cons_of_mem _ member)
    · refine later (name :: done) fun other member => ?_
      rcases List.mem_cons.mp member with rfl | old
      · exact proper
      · exact all other old

/-- Cleaning makes absolute paths plain. -/
theorem isPlain_clean (p : Path) (absolute : isAbsolute p = true) : IsPlain (clean p) := by
  obtain ⟨names, all, cleaned⟩ := foldl_cleanStep_root (steps p) (mem_steps p) [] (by simp)
  -- Cleaning collects the components from the last to the first.
  refine ⟨names.reverse, fun name member => all name (List.mem_reverse.mp member), ?_⟩
  have folded : (components p).foldl cleanStep [] = names.map .name ++ [.root] := by
    rw [components_of_isAbsolute p absolute, List.foldl_cons]
    exact cleaned
  rw [clean, folded]
  simp [← ofComponents_root]

/-! ### Parents -/

theorem segments_empty : segments "" = [""] :=
  segments_eq_self "" (by simp)

theorem join_slash (name : String) (single : '/' ∉ name.toList) : join "/" name = "/" ++ name := by
  have ended : ("/" : Path).endsWith "/" = true := (endsWith_slash_iff "/").mpr ⟨"", rfl⟩
  simp [join, isAbsolute_of_single single, ended]

/-- A path whose last segment is a name is joined by a slash. -/
theorem join_of_last (p : Path) (before : List String) (last name : String)
    (ends : segments p = before ++ [last]) (written : last ≠ "") (single : '/' ∉ name.toList) :
    join p name = p ++ "/" ++ name := by
  -- After a slash at the end the last segment would be empty.
  have open_ : p.endsWith "/" = false := by
    rw [← Bool.not_eq_true, endsWith_slash_iff]
    rintro ⟨start, rfl⟩
    have cut := segments_append start ""
    rw [String.append_empty, ends, segments_empty] at cut
    exact written (List.singleton_inj.mp (List.append_inj' cut rfl).2)
  have present : p ≠ "" := by
    rintro rfl
    have cut : [] ++ [""] = before ++ [last] := segments_empty.symm.trans ends
    exact written (List.singleton_inj.mp (List.append_inj' cut rfl).2).symm
  simp [join, isAbsolute_of_single single, present, open_]

theorem IsName.ne_empty {name : String} (proper : IsName name) : name ≠ "" := by
  rintro rfl
  exact absurd proper.step (by decide)

theorem segments_ofNames (names : List String) (name : String)
    (all : ∀ n ∈ names ++ [name], IsName n) :
    segments (ofNames (names ++ [name])) = "" :: (names ++ [name]) := by
  induction names using List.reverseRecOn generalizing name with
  | nil =>
    have single := (all name (by simp)).single
    rw [ofNames_concat, show ofNames [] = "/" from rfl, join_slash name single]
    calc segments ("/" ++ name) = segments ("" ++ "/" ++ name) := rfl
      _ = ["", name] := by rw [segments_append, segments_empty, segments_eq_self name single]; rfl
  | append_singleton names last ih =>
    have single := (all name (by simp)).single
    have previous := ih last fun n member => all n (List.mem_append_left _ member)
    rw [ofNames_concat, join_of_last _ ("" :: names) last name previous
      (all last (by simp)).ne_empty single, segments_append, previous, segments_eq_self name single]
    rfl

theorem ofSegments_names (names : List String) (all : ∀ n ∈ names, IsName n) :
    ofSegments ("" :: names) = ofNames names := by
  induction names using List.reverseRecOn with
  | nil => rfl
  | append_singleton names name ih =>
    have single := (all name (by simp)).single
    have rest := ih fun n member => all n (List.mem_append_left _ member)
    rw [ofNames_concat]
    -- Right below the root the slash is there already, further down `join` writes it.
    cases names using List.reverseRecOn with
    | nil =>
      rw [show ofNames [] = "/" from rfl, join_slash name single]
      simp [ofSegments, String.intercalate_cons_cons]
    | append_singleton names last =>
      have previous := segments_ofNames names last fun n member =>
        all n (List.mem_append_left _ member)
      have longer := String.intercalate_append_of_ne_nil (s := "/")
        (List.cons_ne_nil "" (names ++ [last])) (List.cons_ne_nil name [])
      rw [join_of_last _ ("" :: names) last name previous (all last (by simp)).ne_empty single,
        ← rest]
      simpa [ofSegments] using longer

theorem trimEnd_names (names : List String) (all : ∀ n ∈ names, IsName n) :
    trimEnd ("" :: names) = "" :: names := by
  have kept : names.reverse.dropWhile (fun s => !isStep s) = names.reverse := by
    cases reversed : names.reverse with
    | nil => rfl
    | cons last rest =>
      have member : last ∈ names := List.mem_reverse.mp (reversed ▸ List.mem_cons_self)
      simp [(all last member).step]
  rw [trimEnd, kept, List.reverse_reverse]

theorem parent_ofNames (names : List String) (name : String)
    (all : ∀ n ∈ names ++ [name], IsName n) :
    parent? (ofNames (names ++ [name])) = some (ofNames names) := by
  have before : ∀ n ∈ names, IsName n := fun n member => all n (List.mem_append_left _ member)
  have segs : trimEnd (segments (ofNames (names ++ [name]))) = "" :: (names ++ [name]) := by
    rw [segments_ofNames names name all, trimEnd_names _ all]
  have dropped : ("" :: (names ++ [name])).dropLast = "" :: names := by
    rw [← List.cons_append, List.dropLast_concat]
  unfold parent?
  split
  next none => rw [segs] at none; cases none
  next first only =>
    rw [segs] at only
    simp at only
  next => rw [segs, dropped, trimEnd_names names before, ofSegments_names names before]

theorem parent_slash : parent? "/" = none := by
  have segs : segments "/" = ["", ""] := by
    calc segments "/" = segments ("" ++ "/" ++ "") := rfl
      _ = ["", ""] := by rw [segments_append, segments_empty]; rfl
  simp [parent?, segs, trimEnd, isStep]

/-- The parent of a plain path is plain. -/
theorem IsPlain.parent {p dir : Path} (plain : IsPlain p) (parent : parent? p = some dir) :
    IsPlain dir := by
  obtain ⟨names, all, rfl⟩ := plain
  cases names using List.reverseRecOn with
  | nil =>
    rw [show ofNames [] = "/" from rfl, parent_slash] at parent
    cases parent
  | append_singleton names name =>
    rw [parent_ofNames names name all] at parent
    exact ⟨names, fun n member => all n (List.mem_append_left _ member),
      (Option.some.inj parent).symm⟩

/-! ### Backslashes -/

/-- Letters without a backslash stay as they are where backslashes are written as slashes. -/
theorem map_slashed {letters : List Char} (plain : '\\' ∉ letters) :
    (letters.map fun c => if c == '\\' then '/' else c) = letters := by
  conv_rhs => rw [← List.map_id letters]
  apply List.map_congr_left
  intro c member
  have other : c ≠ '\\' := fun same => plain (same ▸ member)
  simp [other]

/-- A path without backslashes is matched as it stands. -/
theorem slashed_eq_self {p : Path} (forward : '\\' ∉ p.toList) : slashed p = p := by
  rw [← String.toList_inj, slashed, String.toList_map]
  exact map_slashed forward

end Path

end UnusedMethods
