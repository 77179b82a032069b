import UnusedMethods.Path

/-!
# Failures

What can stop an analysis. A source that cannot be parsed and a reference query that fails are
recoverable: an analysis that keeps going skips them.
-/

namespace UnusedMethods

inductive Failure where
  | unreadable (path : Path) (cause : String)
  /-- Neither a path nor its parent holds a manifest. -/
  | manifestNotFound (path : Path)
  | sourceDirMissing (path : Path)
  /-- A manifest, or one that it extends, is invalid. -/
  | badManifest (path : Path) (reason : String)
  /-- A source could not be parsed; the place is a line and a column. -/
  | badSource (path : Path) (reason : String) (place : Option (Nat × Nat))
  /-- The references to a method could not be found. -/
  | unresolved (className method reason : String)
  | badArgument (reason : String)
deriving DecidableEq, Repr

namespace Failure

def message : Failure → String
  | .unreadable path _ => "I/O error at " ++ path
  | .manifestNotFound path =>
    "Could not find tsconfig.json in " ++ path ++
      " or its parent. Please provide the project root or src directory."
  | .sourceDirMissing path => "Source directory does not exist: " ++ path
  | .badManifest path reason => "Config error at " ++ path ++ ": " ++ reason
  | .badSource path reason _ => "Parse error in " ++ path ++ ": " ++ reason
  | .unresolved className method reason =>
    "Failed to resolve references to " ++ className ++ "." ++ method ++ ": " ++ reason
  | .badArgument reason => "Invalid argument: " ++ reason

/-- What lies behind a failure, if its wording does not tell. -/
def cause? : Failure → Option String
  | .unreadable _ cause => some cause
  | _ => none

/-- A failure and what lies behind it, one text each. -/
def chain (failure : Failure) : List String :=
  failure.message :: failure.cause?.toList

/-- Whether an analysis that keeps going may skip what failed. -/
def isRecoverable : Failure → Bool
  | .badSource .. | .unresolved .. => true
  | _ => false

end Failure

/-! ### Steps that may fail -/

theorem bind_eq_ok {ε α β : Type} {x : Except ε α} {f : α → Except ε β} {b : β} :
    (x >>= f) = .ok b ↔ ∃ a, x = .ok a ∧ f a = .ok b := by
  cases x with
  | error failure => simp [bind, Except.bind]
  | ok a => simp [bind, Except.bind]

/-- What every step of a fold keeps, a fold that succeeds keeps. -/
theorem foldlM_keeps {ε α β : Type} {step : β → α → Except ε β} (keeps : β → Prop) (xs : List α)
    (each : ∀ x ∈ xs, ∀ b b', keeps b → step b x = .ok b' → keeps b') (start result : β)
    (started : keeps start) (folded : xs.foldlM step start = .ok result) : keeps result := by
  induction xs generalizing start with
  | nil =>
    cases folded
    exact started
  | cons x xs ih =>
    rw [List.foldlM_cons, bind_eq_ok] at folded
    obtain ⟨next, stepped, rest⟩ := folded
    exact ih (fun y member => each y (List.mem_cons_of_mem _ member)) next
      (each x List.mem_cons_self start next started stepped) rest

end UnusedMethods
