import Mathlib.Data.List.Forall2
import Mathlib.Data.Set.Card
import UnusedMethods.Proofs.PathCount

/-!
# The order in which files are discovered

Files ask for others by their requests. Starting from the files of a manifest, each file in turn
adds those it asks for that were not met before, at the end of the queue. `Explores` follows the
queue until it is empty. The files it has then taken solve one equation: they are the first files,
and after them, each where it occurs first, the files that all of them ask for. That no file is
taken twice, that the files are closed under asking, and that they stand in the order in which they
are first asked for, all follow from the equation; that they are the least such files follows from
the queue itself.

Paths of the same components are the same file, so "met before" is a matter of keys.
-/

namespace UnusedMethods

/-! ### Paths, each where it occurs first -/

namespace Path

theorem distinctBeyond_append (seen : Std.HashSet String) (ps qs : List Path) :
    distinctBeyond seen (ps ++ qs) =
      distinctBeyond seen ps ++ distinctBeyond (Loading.meet seen (distinctBeyond seen ps)) qs := by
  induction ps generalizing seen with
  | nil => rfl
  | cons p ps ih =>
    rw [List.cons_append, distinctBeyond, distinctBeyond]
    split
    · exact ih seen
    · rw [List.cons_append, ih]
      rfl

theorem mem_of_mem_distinctBeyond (seen : Std.HashSet String) (ps : List Path) (p : Path)
    (member : p ∈ distinctBeyond seen ps) : p ∈ ps := by
  induction ps generalizing seen with
  | nil => exact member
  | cons q ps ih =>
    rw [distinctBeyond] at member
    split at member
    · exact List.mem_cons_of_mem _ (ih _ member)
    · rcases List.mem_cons.mp member with rfl | later
      · exact List.mem_cons_self
      · exact List.mem_cons_of_mem _ (ih _ later)

theorem not_contains_of_mem_distinctBeyond (seen : Std.HashSet String) (ps : List Path) (p : Path)
    (member : p ∈ distinctBeyond seen ps) : p.key ∉ seen := by
  induction ps generalizing seen with
  | nil => cases member
  | cons q ps ih =>
    rw [distinctBeyond] at member
    split at member
    · exact ih seen member
    next new =>
      rcases List.mem_cons.mp member with rfl | later
      · exact new
      · intro met
        exact ih _ later (Std.HashSet.mem_insert.mpr (Or.inr met))

theorem nodup_keys_distinctBeyond (seen : Std.HashSet String) (ps : List Path) :
    ((distinctBeyond seen ps).map key).Nodup := by
  induction ps generalizing seen with
  | nil => exact List.nodup_nil
  | cons p ps ih =>
    rw [distinctBeyond]
    split
    · exact ih seen
    · rw [List.map_cons, List.nodup_cons]
      refine ⟨?_, ih _⟩
      intro again
      obtain ⟨q, later, same⟩ := List.mem_map.mp again
      apply not_contains_of_mem_distinctBeyond _ _ _ later
      exact Std.HashSet.mem_insert.mpr (Or.inl (beq_iff_eq.mpr same.symm))

/-- A path is dropped only for one with its key. -/
theorem exists_key_of_mem (seen : Std.HashSet String) (ps : List Path) (p : Path) (member : p ∈ ps)
    (unseen : p.key ∉ seen) : ∃ q ∈ distinctBeyond seen ps, q.key = p.key := by
  induction ps generalizing seen with
  | nil => cases member
  | cons first ps ih =>
    rw [distinctBeyond]
    split
    next met =>
      rcases List.mem_cons.mp member with rfl | later
      · exact absurd met unseen
      · exact ih seen later unseen
    -- A path of the key of the first one is dropped for it, any other is still unseen.
    · by_cases same : first.key = p.key
      · exact ⟨first, List.mem_cons_self, same⟩
      · have later : p ∈ ps := by
          rcases List.mem_cons.mp member with rfl | later
          · exact absurd rfl same
          · exact later
        have unseen' : p.key ∉ seen.insert first.key := by
          rw [Std.HashSet.mem_insert]
          rintro (equal | met)
          · exact same (beq_iff_eq.mp equal)
          · exact unseen met
        obtain ⟨q, kept, sameKey⟩ := ih _ later unseen'
        exact ⟨q, List.mem_cons_of_mem _ kept, sameKey⟩

/-- An entry of a list of paths with places, before which no entry has a path of the same key. -/
def FirstIn {τ : Type} (entries : List (Path × τ)) (entry : Path × τ) : Prop :=
  ∃ before after, entries = before ++ entry :: after ∧ ∀ e ∈ before, e.1.key ≠ entry.1.key

theorem FirstIn.cons {τ : Type} {entries : List (Path × τ)} {entry : Path × τ}
    (first : FirstIn entries entry) (head : Path × τ) (differs : head.1.key ≠ entry.1.key) :
    FirstIn (head :: entries) entry := by
  obtain ⟨before, after, rfl, others⟩ := first
  refine ⟨head :: before, after, rfl, ?_⟩
  intro e member
  rcases List.mem_cons.mp member with rfl | earlier
  · exact differs
  · exact others e earlier

/-- Paths kept with their places are kept in order, each at the place where it occurs first. -/
theorem distinctBeyond_places {τ : Type} (seen : Std.HashSet String) (entries : List (Path × τ)) :
    ∃ kept : List (Path × τ), kept.Sublist entries ∧
      kept.map Prod.fst = distinctBeyond seen (entries.map Prod.fst) ∧
      ∀ e ∈ kept, FirstIn entries e := by
  induction entries generalizing seen with
  | nil => exact ⟨[], List.Sublist.refl _, rfl, by simp⟩
  | cons head entries ih =>
    rw [List.map_cons, distinctBeyond]
    split
    next met =>
      -- What is dropped has a key that was seen, and nothing that is kept has such a key.
      obtain ⟨kept, sublist, paths, firsts⟩ := ih seen
      refine ⟨kept, sublist.cons _, paths, fun e member => (firsts e member).cons head ?_⟩
      intro same
      have left : e.1 ∈ distinctBeyond seen (entries.map Prod.fst) :=
        paths ▸ List.mem_map_of_mem member
      exact not_contains_of_mem_distinctBeyond _ _ _ left (same ▸ met)
    · obtain ⟨kept, sublist, paths, firsts⟩ := ih (seen.insert head.1.key)
      refine ⟨head :: kept, sublist.cons_cons _, by rw [List.map_cons, paths], ?_⟩
      intro e member
      rcases List.mem_cons.mp member with rfl | later
      · exact ⟨[], entries, rfl, by simp⟩
      · apply (firsts e later).cons head
        intro same
        have left : e.1 ∈ distinctBeyond (seen.insert head.1.key) (entries.map Prod.fst) :=
          paths ▸ List.mem_map_of_mem later
        apply not_contains_of_mem_distinctBeyond _ _ _ left
        exact Std.HashSet.mem_insert.mpr (Or.inl (beq_iff_eq.mpr same))

end Path

namespace Discovery

section

variable (requests : Path → List String) (resolve : Path → String → Option Path)

/-- A file asks for another by the request at a position. -/
def Asks (f : Path) (position : Nat) (g : Path) : Prop :=
  ∃ request, (requests f)[position]? = some request ∧ resolve f request = some g

/-- The files that a file asks for, by the order of its requests. -/
def led (f : Path) : List Path :=
  (requests f).filterMap (resolve f)

theorem mem_led (f g : Path) :
    g ∈ led requests resolve f ↔ ∃ position, Asks requests resolve f position g := by
  rw [led, List.mem_filterMap]
  simp only [List.mem_iff_getElem?, Asks]
  constructor
  · rintro ⟨request, ⟨position, present⟩, found⟩
    exact ⟨position, request, present, found⟩
  · rintro ⟨position, request, present, found⟩
    exact ⟨request, ⟨position, present⟩, found⟩

/-- A place where files ask for others: the position of a file, then that of a request in it. -/
abbrev Place := Nat × Nat

/-- Places in the order of files and, within a file, of requests. -/
def Place.Before (a b : Place) : Prop :=
  a.1 < b.1 ∨ a.1 = b.1 ∧ a.2 < b.2

theorem Place.Before.trans {a b c : Place} (first : a.Before b) (second : b.Before c) :
    a.Before c := by
  unfold Place.Before at *
  omega

theorem Place.Before.irrefl (a : Place) : ¬ a.Before a := by
  unfold Place.Before
  omega

/-- Where in a list of files a file is asked for first. No file asks for it, under any spelling, at
an earlier place. -/
structure FirstAsked (order : List Path) (g : Path) (place : Place) : Prop where
  asked : ∃ f, order[place.1]? = some f ∧ Asks requests resolve f place.2 g
  first : ∀ (other : Place) (f g' : Path), order[other.1]? = some f →
    Asks requests resolve f other.2 g' → g'.key = g.key → ¬ other.Before place

/-- All that a list of files asks for, with the places. -/
def askedBy (order : List Path) : List (Path × Place) :=
  order.zipIdx.flatMap fun (f, i) =>
    (requests f).zipIdx.filterMap fun (request, k) => (resolve f request).map (·, (i, k))

theorem askedBy_paths (order : List Path) :
    (askedBy requests resolve order).map Prod.fst = order.flatMap (led requests resolve) := by
  have ofFile (f : Path) (i : Nat) :
      ((requests f).zipIdx.filterMap fun (request, k) =>
        (resolve f request).map fun g => (g, ((i, k) : Place))).map Prod.fst =
      led requests resolve f := by
    conv_rhs => rw [led, ← List.zipIdx_map_fst 0 (requests f), List.filterMap_map]
    rw [List.map_filterMap]
    congr 1
    funext entry
    simp [Option.map_map, Function.comp_def]
  conv_rhs => rw [← List.zipIdx_map_fst 0 order, List.flatMap_map]
  rw [askedBy, List.map_flatMap]
  congr 1
  funext entry
  exact ofFile entry.1 entry.2

theorem mem_askedBy (order : List Path) (g : Path) (place : Place) :
    (g, place) ∈ askedBy requests resolve order ↔
      ∃ f, order[place.1]? = some f ∧ Asks requests resolve f place.2 g := by
  obtain ⟨i, k⟩ := place
  simp only [askedBy, List.mem_flatMap, List.mem_filterMap, Prod.exists,
    List.mem_zipIdx_iff_getElem?, Option.map_eq_some_iff, Prod.mk.injEq, Asks]
  constructor
  · rintro ⟨f, _, present, request, _, listed, _, found, rfl, rfl, rfl⟩
    exact ⟨f, present, request, listed, found⟩
  · rintro ⟨f, present, request, listed, found⟩
    exact ⟨f, i, present, request, k, listed, g, found, rfl, rfl, rfl⟩

theorem askedBy_pairwise (order : List Path) :
    (askedBy requests resolve order).Pairwise fun a b => a.2.Before b.2 := by
  rw [askedBy, List.pairwise_flatMap]
  constructor
  -- Within a file the requests decide, and between files the files.
  · rintro ⟨f, i⟩ _
    rw [List.pairwise_filterMap]
    apply (zipIdx_pairwise (requests f)).imp
    rintro ⟨request, k⟩ ⟨request', k'⟩ less entry found entry' found'
    simp only [Option.map_eq_some_iff] at found found'
    obtain ⟨_, _, rfl⟩ := found
    obtain ⟨_, _, rfl⟩ := found'
    exact Or.inr ⟨rfl, less⟩
  · apply (zipIdx_pairwise order).imp
    rintro ⟨f, i⟩ ⟨f', i'⟩ less ⟨g, place⟩ member ⟨g', place'⟩ member'
    simp only [List.mem_filterMap, Option.map_eq_some_iff, Prod.mk.injEq, Prod.exists]
      at member member'
    obtain ⟨_, k, _, _, _, _, rfl⟩ := member
    obtain ⟨_, k', _, _, _, _, rfl⟩ := member'
    exact Or.inl less

end

/-! ### Following the queue -/

/-- The queue empties: `order` are the files that are taken from it from now on. -/
inductive Explores (leads : Path → List Path) :
    Std.HashSet String → List Path → List Path → Prop
  | done (met : Std.HashSet String) : Explores leads met [] []
  | next {met : Std.HashSet String} {path : Path} {waiting order : List Path}
      (rest : Explores leads (Loading.meet met (Path.distinctBeyond met (leads path)))
        (waiting ++ Path.distinctBeyond met (leads path)) order) :
      Explores leads met (path :: waiting) (path :: order)

theorem mem_meet (met : Std.HashSet String) (paths : List Path) (key : String) :
    key ∈ Loading.meet met paths ↔ key ∈ met ∨ ∃ p ∈ paths, p.key = key := by
  induction paths generalizing met with
  | nil => simp [Loading.meet]
  | cons p paths ih =>
    have step : Loading.meet met (p :: paths) = Loading.meet (met.insert p.key) paths := rfl
    rw [step, ih, Std.HashSet.mem_insert, beq_iff_eq]
    simp only [List.mem_cons, exists_eq_or_imp]
    tauto

namespace Explores

variable {leads : Path → List Path} {met : Std.HashSet String} {waiting order : List Path}

/-- What is taken from the queue: what waits in it, then what all that is taken leads to. -/
theorem order_eq (explored : Explores leads met waiting order) :
    order = waiting ++ Path.distinctBeyond met (order.flatMap leads) := by
  induction explored with
  | done => rfl
  | @next met path waiting order _ ih =>
    calc path :: order
        = path :: (waiting ++ Path.distinctBeyond met (leads path) ++
            Path.distinctBeyond (Loading.meet met (Path.distinctBeyond met (leads path)))
              (order.flatMap leads)) := congrArg _ ih
      _ = path :: waiting ++ Path.distinctBeyond met ((path :: order).flatMap leads) := by
          rw [List.flatMap_cons, Path.distinctBeyond_append, List.append_assoc, List.cons_append]

/-- Nothing is taken that is neither in the queue nor led to. -/
theorem subset_of_closed (explored : Explores leads met waiting order) (S : Set Path)
    (starts : ∀ f ∈ waiting, f ∈ S) (closed : ∀ f ∈ S, ∀ g ∈ leads f, g ∈ S) :
    ∀ f ∈ order, f ∈ S := by
  induction explored with
  | done => exact starts
  | @next met path waiting order _ ih =>
    have first : path ∈ S := starts path List.mem_cons_self
    have later : ∀ f ∈ waiting ++ Path.distinctBeyond met (leads path), f ∈ S := by
      intro f member
      rcases List.mem_append.mp member with queued | new
      · exact starts f (List.mem_cons_of_mem _ queued)
      · exact closed path first f (Path.mem_of_mem_distinctBeyond met _ f new)
    intro f member
    rcases List.mem_cons.mp member with rfl | rest
    · exact first
    · exact ih later f rest

/-- If what waits was met, no file is taken twice. -/
theorem nodup_keys (explored : Explores leads met waiting order)
    (different : (waiting.map Path.key).Nodup) (known : ∀ f ∈ waiting, f.key ∈ met) :
    (order.map Path.key).Nodup := by
  rw [explored.order_eq, List.map_append, List.nodup_append']
  refine ⟨different, Path.nodup_keys_distinctBeyond met _, ?_⟩
  -- What is added was not met, and all that waits was.
  intro key old new
  obtain ⟨f, queued, rfl⟩ := List.mem_map.mp old
  obtain ⟨g, led, same⟩ := List.mem_map.mp new
  exact Path.not_contains_of_mem_distinctBeyond _ _ _ led (same ▸ known f queued)

/-- If only what waits was met, all that is led to is taken, under some spelling. -/
theorem exists_key_of_lead (explored : Explores leads met waiting order)
    (known : ∀ key ∈ met, ∃ f ∈ waiting, f.key = key) (f g : Path) (taken : f ∈ order)
    (lead : g ∈ leads f) : ∃ h ∈ order, h.key = g.key := by
  rw [explored.order_eq]
  by_cases old : g.key ∈ met
  · obtain ⟨h, queued, same⟩ := known g.key old
    exact ⟨h, List.mem_append_left _ queued, same⟩
  · have led : g ∈ order.flatMap leads := List.mem_flatMap.mpr ⟨f, taken, lead⟩
    obtain ⟨h, new, same⟩ := Path.exists_key_of_mem met _ g led old
    exact ⟨h, List.mem_append_right _ new, same⟩

end Explores

/-! ### The queue runs out -/

/-- The short paths that were not met. -/
noncomputable def unmet (met : Std.HashSet String) : Finset Path :=
  {p ∈ Path.finite_isShort.toFinset | p.key ∉ met}

theorem mem_unmet (met : Std.HashSet String) (p : Path) :
    p ∈ unmet met ↔ p.IsShort ∧ p.key ∉ met := by
  simp only [unmet, Finset.mem_filter, Set.Finite.mem_toFinset, Set.mem_ofPred_eq]

/-- Each path that is met for the first time leaves one fewer to meet. -/
theorem card_unmet_meet (met : Std.HashSet String) (paths : List Path)
    (short : ∀ p ∈ paths, p.IsShort) :
    (Path.distinctBeyond met paths).length +
      (unmet (Loading.meet met (Path.distinctBeyond met paths))).card ≤ (unmet met).card := by
  set new := Path.distinctBeyond met paths with newPaths
  have different : new.Nodup := (Path.nodup_keys_distinctBeyond met paths).of_map
  -- The new paths and those still unmet afterwards are two parts of those unmet before.
  have apart : Disjoint new.toFinset (unmet (Loading.meet met new)) := by
    rw [Finset.disjoint_left]
    intro p member left
    apply ((mem_unmet _ _).mp left).2
    exact (mem_meet _ _ _).mpr (Or.inr ⟨p, List.mem_toFinset.mp member, rfl⟩)
  have within : new.toFinset ∪ unmet (Loading.meet met new) ⊆ unmet met := by
    intro p member
    rw [mem_unmet]
    rcases Finset.mem_union.mp member with taken | left
    · have taken := List.mem_toFinset.mp taken
      exact ⟨short p (Path.mem_of_mem_distinctBeyond _ _ _ taken),
        Path.not_contains_of_mem_distinctBeyond _ _ _ taken⟩
    · obtain ⟨shortPath, unseen⟩ := (mem_unmet _ _).mp left
      exact ⟨shortPath, fun seen => unseen ((mem_meet _ _ _).mpr (Or.inl seen))⟩
  calc new.length + (unmet (Loading.meet met new)).card
      = (new.toFinset ∪ unmet (Loading.meet met new)).card := by
        rw [Finset.card_union_of_disjoint apart, List.toFinset_card_of_nodup different]
    _ ≤ (unmet met).card := Finset.card_le_card within

/-- A queue to which only short paths are added runs out: the paths that wait and those that were
not met become fewer with each path taken. -/
theorem Explores.exists_order (leads : Path → List Path)
    (short : ∀ f, ∀ g ∈ leads f, g.IsShort) (met : Std.HashSet String) (waiting : List Path) :
    ∃ order, Explores leads met waiting order := by
  induction measured : waiting.length + (unmet met).card using Nat.strong_induction_on
    generalizing met waiting with
  | _ size ih =>
    cases waiting with
    | nil => exact ⟨[], .done met⟩
    | cons path waiting =>
      have fewer := card_unmet_meet met (leads path) (short path)
      rw [List.length_cons] at measured
      obtain ⟨order, rest⟩ := ih _ (by rw [List.length_append]; omega)
        (Loading.meet met (Path.distinctBeyond met (leads path)))
        (waiting ++ Path.distinctBeyond met (leads path)) rfl
      exact ⟨path :: order, .next rest⟩

/-! ### Discovery -/

/-- The files that are discovered from initial files, in their order. Each file stands once. The
first files are the initial ones; the others are sorted by the places at which they are first asked
for. The files are the least that contain the initial ones and are closed under asking. -/
structure Discovers (requests : Path → List String) (resolve : Path → String → Option Path)
    (initial order : List Path) : Prop where
  distinct : (order.map Path.key).Nodup
  closed : ∀ f ∈ order, ∀ position g, Asks requests resolve f position g →
    ∃ h ∈ order, h.key = g.key
  least : ∀ S : Set Path, (∀ f ∈ initial, f ∈ S) →
    (∀ f ∈ S, ∀ position g, Asks requests resolve f position g → g ∈ S) → ∀ f ∈ order, f ∈ S
  sorted : ∃ later places, order = initial ++ later ∧
    List.Forall₂ (FirstAsked requests resolve order) later places ∧ places.Pairwise Place.Before

/-- What all files lead to, each where it occurs first, is sorted by the places where it is first
asked for. -/
theorem exists_places (requests : Path → List String) (resolve : Path → String → Option Path)
    (met : Std.HashSet String) (order : List Path) :
    ∃ places, List.Forall₂ (FirstAsked requests resolve order)
        (Path.distinctBeyond met (order.flatMap (led requests resolve))) places ∧
      places.Pairwise Place.Before := by
  obtain ⟨kept, sublist, paths, firsts⟩ :=
    Path.distinctBeyond_places met (askedBy requests resolve order)
  have increasing := askedBy_pairwise requests resolve order
  refine ⟨kept.map Prod.snd, ?_, List.pairwise_map.mpr (increasing.sublist sublist)⟩
  rw [← askedBy_paths, ← paths, List.forall₂_map_left_iff, List.forall₂_map_right_iff,
    List.forall₂_same]
  rintro ⟨g, place⟩ member
  obtain ⟨before, after, split, others⟩ := firsts _ member
  refine ⟨(mem_askedBy ..).mp (sublist.subset member), ?_⟩
  intro other f g' present asks same earlier
  have asked : (g', other) ∈ askedBy requests resolve order :=
    (mem_askedBy ..).mpr ⟨f, present, asks⟩
  rw [split, List.pairwise_append, List.pairwise_cons] at increasing
  rw [split] at asked
  -- An entry of the same key stands at this place or after it.
  rcases List.mem_append.mp asked with old | new
  · exact others _ old same
  · rcases List.mem_cons.mp new with equal | late
    · cases equal
      exact Place.Before.irrefl _ earlier
    · exact Place.Before.irrefl _ (earlier.trans (increasing.2.1.1 _ late))

/-- The files taken from the queue, once the initial files wait in it, are those discovered. -/
theorem Explores.discovers (requests : Path → List String)
    (resolve : Path → String → Option Path) (initial order : List Path)
    (different : (initial.map Path.key).Nodup)
    (explored : Explores (led requests resolve) (Loading.meet ∅ initial) initial order) :
    Discovers requests resolve initial order where
  distinct := by
    apply explored.nodup_keys different
    intro f member
    exact (mem_meet _ _ _).mpr (Or.inr ⟨f, member, rfl⟩)
  closed := by
    intro f taken position g asks
    apply explored.exists_key_of_lead _ f g taken ((mem_led ..).mpr ⟨position, asks⟩)
    intro key met
    rcases (mem_meet _ _ _).mp met with none | started
    · exact absurd none Std.HashSet.not_mem_empty
    · exact started
  least := by
    intro S starts closed
    apply explored.subset_of_closed S starts
    intro f member g lead
    obtain ⟨position, asks⟩ := (mem_led ..).mp lead
    exact closed f member position g asks
  sorted := by
    obtain ⟨places, firsts, increasing⟩ :=
      exists_places requests resolve (Loading.meet ∅ initial) order
    exact ⟨_, places, explored.order_eq, firsts, increasing⟩

end Discovery

end UnusedMethods
