import Mathlib.Data.List.Basic
import UnusedMethods.Script.Occurrence

/-!
# Positions in a tree

A node of a tree is found by its position: the way from the root, told by places among the children.
A position comes before those inside it, and those inside the first of two parts come before those
inside the second, so visiting order is the lexicographic order of positions. The occurrences of a
tree are its nodes in this order, each with the fact whether a type query stands above it.
-/

namespace UnusedMethods.Script

namespace Node

/-- Trees are built from their parts. -/
@[elab_as_elim] theorem induction {motive : Node → Prop}
    (mk : ∀ form start stop children, (∀ part ∈ children, motive part) →
      motive (.mk form start stop children)) : ∀ node, motive node
  | .mk form start stop children =>
    mk form start stop children fun part _ => induction mk part

/-! ### Nodes by position -/

/-- The node at a position. -/
def nodeAt? (node : Node) : List Nat → Option Node
  | [] => some node
  | i :: rest => node.children[i]?.bind fun part => part.nodeAt? rest

/-- A type query stands above a position. -/
def InQuery (node : Node) (position : List Nat) : Prop :=
  ∃ above query, above <+: position ∧ above ≠ position ∧ node.nodeAt? above = some query ∧
    query.form = .typeQuery

theorem not_inQuery_nil (node : Node) : ¬ node.InQuery [] := by
  rintro ⟨above, _, inside, different, _⟩
  exact different (List.prefix_nil.mp inside)

theorem inQuery_cons {node part : Node} {i : Nat} (found : node.children[i]? = some part)
    (rest : List Nat) :
    node.InQuery (i :: rest) ↔ node.form = .typeQuery ∨ part.InQuery rest := by
  constructor
  · rintro ⟨_ | ⟨j, above⟩, query, inside, different, at_, form⟩
    · obtain rfl : node = query := Option.some.inj at_
      exact Or.inl form
    · obtain ⟨rfl, below⟩ := List.cons_prefix_cons.mp inside
      rw [nodeAt?, found, Option.bind_some] at at_
      exact Or.inr ⟨above, query, below, fun same => different (by rw [same]), at_, form⟩
  · rintro (form | ⟨above, query, inside, different, at_, form⟩)
    · exact ⟨[], node, List.nil_prefix, (List.cons_ne_nil _ _).symm, rfl, form⟩
    · refine ⟨i :: above, query, List.cons_prefix_cons.mpr ⟨rfl, inside⟩, ?_, ?_, form⟩
      · simpa using different
      · rw [nodeAt?, found, Option.bind_some, at_]

theorem isTypeQuery_iff (node : Node) : node.isTypeQuery = true ↔ node.form = .typeQuery := by
  unfold isTypeQuery
  split
  next form => simp [form]
  next other => simpa using other

/-- The occurrence at a position, below a node that may itself lie in a type query. -/
def occurrenceAt? (inQuery : Bool) (node : Node) : List Nat → Option Occurrence
  | [] => some ⟨node, inQuery⟩
  | i :: rest =>
    node.children[i]?.bind fun part => part.occurrenceAt? (inQuery || node.isTypeQuery) rest

/-- The occurrence at a position is the node there with what stands above it. -/
theorem occurrenceAt?_eq_some (inQuery : Bool) (node : Node) (position : List Nat)
    (occurrence : Occurrence) :
    node.occurrenceAt? inQuery position = some occurrence ↔
      node.nodeAt? position = some occurrence.node ∧
        (occurrence.inQuery = true ↔ inQuery = true ∨ node.InQuery position) := by
  induction position generalizing node inQuery with
  | nil =>
    obtain ⟨found, flag⟩ := occurrence
    simp only [occurrenceAt?, nodeAt?, Option.some.injEq, Occurrence.mk.injEq, not_inQuery_nil,
      or_false, Bool.coe_iff_coe, eq_comm]
  | cons i rest ih =>
    cases found : node.children[i]? with
    | none => simp [occurrenceAt?, nodeAt?, found]
    | some part =>
      simp only [occurrenceAt?, nodeAt?, found, Option.bind_some, ih, inQuery_cons found,
        Bool.or_eq_true, isTypeQuery_iff, or_assoc]

/-! ### All positions -/

mutual

/-- All positions of a tree in visiting order. -/
def positions : Node → List (List Nat)
  | .mk _ _ _ children => [] :: positionsFrom 0 children

/-- The positions in parts that are counted from a number. -/
def positionsFrom : Nat → List Node → List (List Nat)
  | _, [] => []
  | i, part :: rest => part.positions.map (i :: ·) ++ positionsFrom (i + 1) rest

end

theorem positionsFrom_eq (i : Nat) (parts : List Node) :
    positionsFrom i parts =
      (parts.zipIdx i).flatMap fun entry => entry.1.positions.map (entry.2 :: ·) := by
  induction parts generalizing i with
  | nil => rfl
  | cons part rest ih => rw [positionsFrom, ih, List.zipIdx_cons, List.flatMap_cons]

theorem positions_mk (form : Form) (start stop : Nat) (children : List Node) :
    (mk form start stop children).positions =
      [] :: children.zipIdx.flatMap fun entry => entry.1.positions.map (entry.2 :: ·) := by
  rw [positions, positionsFrom_eq]

/-- The positions listed are those of nodes. -/
theorem mem_positions (node : Node) (position : List Nat) :
    position ∈ node.positions ↔ ∃ found, node.nodeAt? position = some found := by
  induction node using Node.induction generalizing position with
  | mk form start stop children ih =>
    rw [positions_mk]
    cases position with
    | nil => simp [nodeAt?]
    | cons i rest =>
      simp only [List.mem_cons, reduceCtorEq, false_or, List.mem_flatMap, List.mem_map,
        List.cons.injEq, Prod.exists, List.mem_zipIdx_iff_getElem?]
      constructor
      · rintro ⟨part, _, at_, position, inside, rfl, rfl⟩
        obtain ⟨found, reached⟩ := (ih part (List.mem_of_getElem? at_) position).mp inside
        exact ⟨found, by simp [nodeAt?, Node.children, at_, reached]⟩
      · rintro ⟨found, reached⟩
        obtain ⟨part, at_, reached⟩ := Option.bind_eq_some_iff.mp reached
        exact ⟨part, i, at_, rest, (ih part (List.mem_of_getElem? at_) rest).mpr ⟨found, reached⟩,
          rfl, rfl⟩

/-- Positions are listed in lexicographic order, each once. -/
theorem positions_pairwise (node : Node) : node.positions.Pairwise (· < ·) := by
  induction node using Node.induction with
  | mk form start stop children ih =>
    rw [positions_mk]
    refine List.pairwise_cons.mpr ⟨?_, List.pairwise_flatMap.mpr ⟨?_, ?_⟩⟩
    -- The root has the empty position, which comes before all others.
    · intro position member
      obtain ⟨_, _, inside⟩ := List.mem_flatMap.mp member
      obtain ⟨_, _, rfl⟩ := List.mem_map.mp inside
      exact List.nil_lt_cons _ _
    · rintro ⟨part, i⟩ member
      have inside := ih part (List.mem_of_getElem? (List.mem_zipIdx_iff_getElem?.mp member))
      rw [List.pairwise_map]
      exact inside.imp fun less => List.cons_lt_cons_iff.mpr (Or.inr ⟨rfl, less⟩)
    -- Positions in different parts differ at their first step.
    · refine (zipIdx_pairwise children).imp ?_
      intro a b less p first q second
      obtain ⟨_, _, rfl⟩ := List.mem_map.mp first
      obtain ⟨_, _, rfl⟩ := List.mem_map.mp second
      exact List.cons_lt_cons_iff.mpr (Or.inl less)

/-! ### Occurrences by position -/

theorem occurrencesThen_append (inQuery : Bool) (node : Node) (others : List Occurrence) :
    node.occurrencesThen inQuery others = node.occurrencesThen inQuery [] ++ others := by
  induction node using Node.induction generalizing inQuery others with
  | mk form start stop children ih =>
    -- What follows the occurrences in several nodes follows those in the last of them.
    have all (inQuery : Bool) (nodes : List Node) (inside : ∀ part ∈ nodes, part ∈ children)
        (others : List Occurrence) :
        occurrencesOfAll inQuery nodes others = occurrencesOfAll inQuery nodes [] ++ others := by
      induction nodes generalizing others with
      | nil => rfl
      | cons part rest ihRest =>
        have later := ihRest fun other member => inside other (List.mem_cons_of_mem _ member)
        rw [occurrencesOfAll, occurrencesOfAll, ih part (inside part List.mem_cons_self),
          ih part (inside part List.mem_cons_self) inQuery (occurrencesOfAll inQuery rest []),
          later others, List.append_assoc]
    simp only [occurrencesThen, List.cons_append, List.cons.injEq, true_and]
    exact all _ children (fun _ member => member) others

theorem occurrencesOfAll_eq (inQuery : Bool) (nodes : List Node) :
    occurrencesOfAll inQuery nodes [] =
      nodes.flatMap fun part => part.occurrencesThen inQuery [] := by
  induction nodes with
  | nil => rfl
  | cons part rest ih =>
    rw [occurrencesOfAll, occurrencesThen_append, ih, List.flatMap_cons]

/-- The occurrences in a node are those at its positions, in order. -/
theorem occurrencesThen_eq_positions (inQuery : Bool) (node : Node) :
    node.occurrencesThen inQuery [] = node.positions.filterMap (node.occurrenceAt? inQuery) := by
  induction node using Node.induction generalizing inQuery with
  | mk form start stop children ih =>
    have root : occurrenceAt? inQuery (mk form start stop children) [] =
        some ⟨mk form start stop children, inQuery⟩ := rfl
    -- The parts are numbered in the order they are gone through.
    have counted (f : Node → List Occurrence) :
        children.flatMap f = children.zipIdx.flatMap fun entry => f entry.1 := by
      conv_lhs => rw [← List.zipIdx_map_fst 0 children, List.flatMap_map]
    rw [positions_mk, List.filterMap_cons_some root, occurrencesThen, occurrencesOfAll_eq,
      List.filterMap_flatMap, counted]
    refine congrArg (List.cons _) (List.flatMap_congr ?_)
    rintro ⟨part, i⟩ member
    have found := List.mem_zipIdx_iff_getElem?.mp member
    rw [ih part (List.mem_of_getElem? found), List.filterMap_map]
    apply List.filterMap_congr
    intro position _
    simp [occurrenceAt?, Node.children, found]

theorem occurrences_eq_positions (program : Node) :
    program.occurrences = program.positions.filterMap (program.occurrenceAt? false) :=
  occurrencesThen_eq_positions false program

end Node

end UnusedMethods.Script
