import UnusedMethods.Proofs.Outcome
import UnusedMethods.Targets

/-!
# Sets of globs

Globs are read one by one, and each is refused or not on its own: whether a set can be used, and
what it matches, is a matter of its members alone. What fails first only decides the wording of the
failure.
-/

namespace UnusedMethods

namespace Glob

/-- The expression of a glob is nested too deep, and the glob is tried as an expression. -/
def isRefused (pieces : List Piece) : Bool :=
  planOf pieces != .comparison && isTooDeep pieces

namespace AnyOf

theorem tooDeep_eq_none (globs : List (List Piece)) :
    tooDeep? globs = none ↔ ∀ pieces ∈ globs, isRefused pieces = false := by
  -- Globs that are tried by their ending are looked at first, then the other expressions.
  have split : tooDeep? globs = none ↔
      (∀ pieces ∈ globs, planOf pieces = .ending → isTooDeep pieces = false) ∧
        ∀ pieces ∈ globs, planOf pieces = .expression → isTooDeep pieces = false := by
    unfold tooDeep?
    split
    next pieces found =>
      have deep := List.find?_some found
      have member := List.mem_of_find?_eq_some found
      simp only [Bool.and_eq_true, decide_eq_true_eq] at deep
      simp only [reduceCtorEq, false_iff, not_and_or]
      exact Or.inl fun shallow => by simp [shallow pieces member deep.1] at deep
    next none =>
      simp only [List.find?_eq_none, Bool.and_eq_true, decide_eq_true_eq, not_and,
        Bool.not_eq_true] at none
      simp only [Option.map_eq_none_iff, List.findIdx?_eq_none_iff, List.mem_filter,
        decide_eq_true_eq, and_imp]
      exact ⟨fun shallow => ⟨none, shallow⟩, fun shallow => shallow.2⟩
  rw [split]
  constructor
  · rintro ⟨ending, expression⟩ pieces member
    cases plan : planOf pieces with
    | comparison => simp [isRefused, plan]
    | ending => simp [isRefused, ending pieces member plan]
    | expression => simp [isRefused, expression pieces member plan]
  · intro usable
    constructor
    · intro pieces member plan
      simpa [isRefused, plan] using usable pieces member
    · intro pieces member plan
      simpa [isRefused, plan] using usable pieces member

/-- A set of globs can be used if each of them can be read and is not refused. -/
theorem ofTexts_eq_ok (texts : List String) (any : AnyOf) :
    ofTexts texts = .ok any ↔
      List.Forall₂ (fun text pieces => parse text = .ok pieces ∧ isRefused pieces = false) texts
        any.globs := by
  simp only [ofTexts, bind_eq_ok, mapM_eq_ok, mapError_eq_ok]
  constructor
  · rintro ⟨globs, read, result⟩
    split at result
    · cases result
    next none =>
      cases result
      have usable := (tooDeep_eq_none globs).mp none
      exact List.forall₂_iff_get.mpr ⟨read.length_eq, fun i left right =>
        ⟨read.get left right, usable _ (List.getElem_mem right)⟩⟩
  · intro usable
    refine ⟨any.globs, usable.imp fun _ _ => And.left, ?_⟩
    have none : tooDeep? any.globs = none := by
      rw [tooDeep_eq_none]
      intro pieces member
      obtain ⟨i, within, rfl⟩ := List.getElem_of_mem member
      exact (usable.get (usable.length_eq ▸ within) within).2
    rw [none]
    rfl

/-- Two sets of globs that are used together match what one of them matches. -/
theorem ofTexts_append (texts more : List String) (any : AnyOf)
    (read : ofTexts (texts ++ more) = .ok any) :
    ∃ first second, ofTexts texts = .ok first ∧ ofTexts more = .ok second ∧
      ∀ text, any.isMatch text = (first.isMatch text || second.isMatch text) := by
  rw [ofTexts_eq_ok] at read
  have before := List.forall₂_take texts.length read
  have after := List.forall₂_drop texts.length read
  rw [List.take_left] at before
  rw [List.drop_left] at after
  refine ⟨⟨any.globs.take texts.length⟩, ⟨any.globs.drop texts.length⟩,
    (ofTexts_eq_ok texts _).mpr before, (ofTexts_eq_ok more _).mpr after, fun text => ?_⟩
  simp only [isMatch, ← List.any_append, List.take_append_drop]

end AnyOf

end Glob

theorem Targets.readGlobs_eq_ok (texts : List String) (any : Glob.AnyOf) :
    readGlobs texts = .ok any ↔ Glob.AnyOf.ofTexts texts = .ok any :=
  mapError_eq_ok _ _ _

end UnusedMethods
