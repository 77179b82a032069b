import Mathlib.Data.List.Forall2
import UnusedMethods.Failure

/-!
# Outcomes of works that may fail

When a traversal succeeds, and how two works are compared: they end together if both succeed with
results that are related, or both fail with failures that are. Works that are made of steps end
together if their steps do.
-/

namespace UnusedMethods

/-- A traversal succeeds if each of its steps does. -/
theorem mapM_eq_ok {ε α β : Type} (f : α → Except ε β) (xs : List α) (ys : List β) :
    xs.mapM f = .ok ys ↔ List.Forall₂ (fun x y => f x = .ok y) xs ys := by
  induction xs generalizing ys with
  | nil =>
    cases ys with
    | nil => simp [pure, Except.pure]
    | cons y ys => simp [pure, Except.pure]
  | cons x xs ih =>
    simp only [List.mapM_cons, bind_eq_ok, ih, List.forall₂_cons_left_iff, pure, Except.pure,
      Except.ok.injEq]
    constructor
    · rintro ⟨y, first, rest, others, rfl⟩
      exact ⟨y, rest, first, others, rfl⟩
    · rintro ⟨y, rest, first, others, rfl⟩
      exact ⟨y, first, rest, others, rfl⟩

theorem exists_mapM_eq_ok {ε α β : Type} {f : α → Except ε β} {xs : List α} :
    (∃ ys, xs.mapM f = .ok ys) ↔ ∀ x ∈ xs, ∃ y, f x = .ok y := by
  simp only [mapM_eq_ok]
  induction xs with
  | nil => simp
  | cons x xs ih =>
    simp only [List.forall₂_cons_left_iff, List.forall_mem_cons, ← ih]
    constructor
    · rintro ⟨_, y, rest, first, others, _⟩
      exact ⟨⟨y, first⟩, rest, others⟩
    · rintro ⟨⟨y, first⟩, rest, others⟩
      exact ⟨_, y, rest, first, others, rfl⟩

/-- A traversal fails as one of its steps does. -/
theorem mapM_eq_error {ε α β : Type} {f : α → Except ε β} {xs : List α} {failure : ε}
    (failed : xs.mapM f = .error failure) : ∃ x ∈ xs, f x = .error failure := by
  induction xs with
  | nil => cases failed
  | cons x xs ih =>
    rw [List.mapM_cons] at failed
    cases first : f x with
    | error other =>
      rw [first] at failed
      cases failed
      exact ⟨x, List.mem_cons_self, first⟩
    | ok y =>
      cases rest : xs.mapM f with
      | error other =>
        rw [first, rest] at failed
        cases failed
        obtain ⟨x', member, failed⟩ := ih rest
        exact ⟨x', List.mem_cons_of_mem _ member, failed⟩
      | ok ys =>
        rw [first, rest] at failed
        cases failed

theorem mem_flatten_of_mapM {ε α β : Type} {f : α → Except ε (List β)} {xs : List α}
    {yss : List (List β)} (traversed : xs.mapM f = .ok yss) (y : β) :
    y ∈ yss.flatten ↔ ∃ x ∈ xs, ∃ ys, f x = .ok ys ∧ y ∈ ys := by
  rw [mapM_eq_ok] at traversed
  induction traversed with
  | nil => simp
  | cons first _ ih => simp [ih, first]

/-- What a traversal collects is ordered if each step is, and if the steps are among each other. -/
theorem pairwise_flatten_of_mapM {ε α β : Type} {f : α → Except ε (List β)} {r : β → β → Prop}
    {xs : List α} {yss : List (List β)} (traversed : xs.mapM f = .ok yss)
    (inside : ∀ x ∈ xs, ∀ ys, f x = .ok ys → ys.Pairwise r)
    (across : xs.Pairwise fun x x' => ∀ ys ys', f x = .ok ys → f x' = .ok ys' →
      ∀ y ∈ ys, ∀ y' ∈ ys', r y y') : yss.flatten.Pairwise r := by
  rw [mapM_eq_ok] at traversed
  induction traversed with
  | nil => exact .nil
  | @cons x ys xs yss first rest ih =>
    rw [List.forall_mem_cons] at inside
    rw [List.pairwise_cons] at across
    rw [List.flatten_cons, List.pairwise_append]
    refine ⟨inside.1 ys first, ih inside.2 across.2, fun y member y' member' => ?_⟩
    obtain ⟨x', listed, ys', later, member'⟩ :=
      (mem_flatten_of_mapM ((mapM_eq_ok f xs yss).mpr rest) y').mp member'
    exact across.1 x' listed ys ys' first later y member y' member'

theorem bind_eq_error {ε α β : Type} {x : Except ε α} {f : α → Except ε β} {failure : ε} :
    (x >>= f) = .error failure ↔ x = .error failure ∨ ∃ a, x = .ok a ∧ f a = .error failure := by
  cases x with
  | error other => simp [bind, Except.bind]
  | ok a => simp [bind, Except.bind]

theorem exists_eq_ok {ε α : Type} {x : Except ε α} (succeeds : x.isOk = true) :
    ∃ a, x = .ok a := by
  cases x with
  | error failure => cases succeeds
  | ok a => exact ⟨a, rfl⟩

theorem mapError_eq_ok {ε ε' α : Type} (f : ε → ε') (x : Except ε α) (a : α) :
    x.mapError f = .ok a ↔ x = .ok a := by
  cases x with
  | error failure => simp [Except.mapError]
  | ok b => simp [Except.mapError]

theorem toOption_map {ε α β : Type} (f : α → β) (x : Except ε α) :
    (x.map f).toOption = x.toOption.map f := by
  cases x <;> rfl

theorem toOption_bind {ε α β : Type} (f : α → Except ε β) (x : Except ε α) :
    (x >>= f).toOption = x.toOption.bind fun a => (f a).toOption := by
  cases x <;> rfl

/-- Two works that both succeed with related results, or both fail with related failures. -/
inductive EndTogether {ε ε' α β : Type} (excuse : ε → ε' → Prop) (together : α → β → Prop) :
    Except ε α → Except ε' β → Prop
  | done {a : α} {b : β} (related : together a b) : EndTogether excuse together (.ok a) (.ok b)
  | failed {failure : ε} {failure' : ε'} (related : excuse failure failure') :
      EndTogether excuse together (.error failure) (.error failure')

/-- Two works that succeed with related results, or fail with one failure. -/
abbrev EndAlike {ε α β : Type} (together : α → β → Prop) : Except ε α → Except ε β → Prop :=
  EndTogether Eq together

/-- Two works that succeed with related results, or fail with whatever failures. -/
abbrev SucceedTogether {ε α β : Type} (together : α → β → Prop) :
    Except ε α → Except ε β → Prop :=
  EndTogether (fun _ _ => True) together

theorem EndTogether.bind {ε ε' α β γ δ : Type} {excuse : ε → ε' → Prop} {together : α → β → Prop}
    {next : γ → δ → Prop} {x : Except ε α} {y : Except ε' β}
    (both : EndTogether excuse together x y) {f : α → Except ε γ} {g : β → Except ε' δ}
    (step : ∀ a b, together a b → EndTogether excuse next (f a) (g b)) :
    EndTogether excuse next (x >>= f) (y >>= g) := by
  cases both with
  | done related => exact step _ _ related
  | failed related => exact .failed related

theorem EndTogether.mapM {ε ε' α β γ δ : Type} {excuse : ε → ε' → Prop} {together : γ → δ → Prop}
    {f : α → Except ε γ} {g : β → Except ε' δ} {xs : List α} {ys : List β}
    (each : List.Forall₂ (fun x y => EndTogether excuse together (f x) (g y)) xs ys) :
    EndTogether excuse (List.Forall₂ together) (xs.mapM f) (ys.mapM g) := by
  induction each with
  | nil => exact .done .nil
  | cons first _ ih =>
    rw [List.mapM_cons, List.mapM_cons]
    refine first.bind fun a b related => ih.bind fun as bs others => ?_
    exact .done (.cons related others)

/-- The first of two works ends as the second does, with a related result or the same failure, or it
is spared a failure of the second. -/
inductive EndSparing {ε α β : Type} (spared : ε → Prop) (together : α → β → Prop) :
    Except ε α → Except ε β → Prop
  | done {a : α} {b : β} (related : together a b) : EndSparing spared together (.ok a) (.ok b)
  | failed (failure : ε) : EndSparing spared together (.error failure) (.error failure)
  | spared (work : Except ε α) {failure : ε} (without : spared failure) :
      EndSparing spared together work (.error failure)

namespace EndSparing

variable {ε α β γ δ : Type} {spared : ε → Prop} {together : α → β → Prop} {next : γ → δ → Prop}

theorem bind {x : Except ε α} {y : Except ε β} (both : EndSparing spared together x y)
    {f : α → Except ε γ} {g : β → Except ε δ}
    (step : ∀ a b, together a b → EndSparing spared next (f a) (g b)) :
    EndSparing spared next (x >>= f) (y >>= g) := by
  cases both with
  | done related => exact step _ _ related
  | failed failure => exact .failed failure
  | spared work without => exact .spared _ without

/-- The same work goes on in two ways. -/
theorem bind_same (x : Except ε α) {f : α → Except ε γ} {g : α → Except ε δ}
    (step : ∀ a, x = .ok a → EndSparing spared next (f a) (g a)) :
    EndSparing spared next (x >>= f) (x >>= g) := by
  cases x with
  | ok a => exact step a rfl
  | error failure => exact .failed failure

theorem mapM {f : α → Except ε γ} {g : β → Except ε δ} {xs : List α} {ys : List β}
    (each : List.Forall₂ (fun x y => EndSparing spared next (f x) (g y)) xs ys) :
    EndSparing spared (List.Forall₂ next) (xs.mapM f) (ys.mapM g) := by
  induction each with
  | nil => exact .done .nil
  | cons first _ ih =>
    rw [List.mapM_cons, List.mapM_cons]
    refine first.bind fun a b related => ih.bind fun as bs others => ?_
    exact .done (.cons related others)

end EndSparing

namespace EndAlike

variable {ε α β γ : Type}

theorem map_eq {f : α → γ} {g : β → γ} {x : Except ε α} {y : Except ε β}
    (alike : EndAlike (fun a b => f a = g b) x y) : x.map f = y.map g := by
  cases alike with
  | done related => exact congrArg Except.ok related
  | failed same => exact congrArg Except.error same

/-- The same work twice ends alike. -/
theorem same (x : Except ε α) : EndAlike Eq x x := by
  cases x with
  | ok a => exact .done rfl
  | error failure => exact .failed rfl

end EndAlike

namespace SucceedTogether

variable {ε α β : Type} {together : α → β → Prop}

theorem of_ok {x : Except ε α} {y : Except ε β}
    (forward : ∀ a, x = .ok a → ∃ b, y = .ok b ∧ together a b)
    (backward : ∀ b, y = .ok b → ∃ a, x = .ok a) : SucceedTogether together x y := by
  cases x with
  | ok a =>
    obtain ⟨b, rfl, related⟩ := forward a rfl
    exact .done related
  | error failure =>
    cases y with
    | ok b =>
      obtain ⟨a, succeeded⟩ := backward b rfl
      cases succeeded
    | error failure' => exact .failed trivial

theorem of_toOption {x y : Except ε α} (same : x.toOption = y.toOption) :
    SucceedTogether Eq x y := by
  apply of_ok
  · rintro a rfl
    cases y with
    | ok b => exact ⟨b, rfl, Option.some.inj same⟩
    | error failure => cases same
  · rintro b rfl
    cases x with
    | ok a => exact ⟨a, rfl⟩
    | error failure => cases same

theorem eq_or {x y : Except ε α} (both : SucceedTogether Eq x y) :
    (∃ failure failure', x = .error failure ∧ y = .error failure') ∨
      ∃ a, x = .ok a ∧ y = .ok a := by
  cases both with
  | @done a b same => exact .inr ⟨a, rfl, same ▸ rfl⟩
  | @failed failure failure' => exact .inl ⟨failure, failure', rfl, rfl⟩

end SucceedTogether

end UnusedMethods
