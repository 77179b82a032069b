import Mathlib.Data.Finset.Card
import Mathlib.Logic.Relation
import UnusedMethods.Reachability

/-!
# Reachability is exact

A search ends when nothing waits any more, so it is described by its runs, without a bound on their
steps. A run keeps one invariant: what it has met is reached from a root, and a node that it has met
and left has all its neighbors met. What it has met is what it has queued, and nothing is queued
twice.

Each step leaves one node of the queue, and every node that it queues is the target of an edge and
was not met before. So the length of the queue and the number of targets that are still unmet bound
the steps to come, and the search never runs out of them.
-/

namespace UnusedMethods.FiniteGraph

open Relation (ReflTransGen)

variable {α : Type} [DecidableEq α]

/-! ### Neighbors -/

/-- An edge leads from one node to another. -/
def Step (g : FiniteGraph α) (a b : α) : Prop :=
  (a, b) ∈ g.edges

theorem mem_neighbors (g : FiniteGraph α) (a b : α) : b ∈ g.neighbors a ↔ g.Step a b := by
  simp only [neighbors, Step, List.mem_map, List.mem_filter, beq_iff_eq]
  constructor
  · rintro ⟨⟨source, target⟩, ⟨member, rfl⟩, rfl⟩
    exact member
  · intro member
    exact ⟨(a, b), ⟨member, rfl⟩, rfl⟩

/-- A graph made of lists of targets has these as the neighbors. -/
theorem neighbors_flatMap (nodes sources : List α) (targets : α → List α) (distinct : sources.Nodup)
    (a : α) :
    (FiniteGraph.mk nodes (sources.flatMap fun s => (targets s).map (s, ·))).neighbors a =
      if a ∈ sources then targets a else [] := by
  have leaves (s : α) : ((targets s).map (s, ·)).filter (·.1 == a) =
      if s = a then (targets s).map (s, ·) else [] := by
    by_cases same : s = a <;> simp [List.filter_map, Function.comp_def, same]
  simp only [neighbors, List.filter_flatMap, leaves, List.map_flatMap]
  induction sources with
  | nil => rfl
  | cons s sources ih =>
    obtain ⟨new, distinct⟩ := List.nodup_cons.mp distinct
    rw [List.flatMap_cons, ih distinct]
    by_cases same : s = a
    · -- No later source is this one, so its targets come from here alone.
      subst same
      simp [new, Function.comp_def]
    · simp [same, Ne.symm same]

@[simp] theorem mem_fresh (met xs : List α) (x : α) :
    x ∈ fresh met xs ↔ x ∈ xs ∧ x ∉ met := by
  induction xs generalizing met with
  | nil => simp [fresh]
  | cons y ys ih =>
    by_cases seen : y ∈ met
    · simp only [fresh, List.contains_iff_mem, seen, if_true, ih, List.mem_cons]
      grind
    · -- A name that is kept counts as met from here on, but it is listed itself.
      simp only [fresh, List.contains_iff_mem, seen, if_false, ih, List.mem_cons]
      grind

theorem fresh_nodup (met xs : List α) : (fresh met xs).Nodup := by
  induction xs generalizing met with
  | nil => exact List.nodup_nil
  | cons y ys ih =>
    by_cases seen : y ∈ met
    · simpa [fresh, seen] using ih met
    · simp only [fresh, List.contains_iff_mem, seen, if_false]
      refine List.nodup_cons.mpr ⟨?_, ih (y :: met)⟩
      simp

theorem fresh_length_le (met xs : List α) : (fresh met xs).length ≤ xs.length := by
  induction xs generalizing met with
  | nil => exact Nat.le_refl _
  | cons y ys ih =>
    simp only [fresh]
    split
    · exact Nat.le_succ_of_le (ih met)
    · exact Nat.succ_le_succ (ih (y :: met))

/-! ### Runs -/

/-- A run of the search: from what is met and what waits, through what is queued on the way, to what
is met when nothing waits any more. -/
inductive Runs (g : FiniteGraph α) : List α → List α → List α → List α → Prop
  | idle (met : List α) : Runs g met [] [] met
  | leave {met queue queued result : List α} {node : α}
      (rest : Runs g ((fresh met (g.neighbors node)).reverse ++ met)
        (queue ++ fresh met (g.neighbors node)) queued result) :
      Runs g met (node :: queue) (fresh met (g.neighbors node) ++ queued) result

/-- A search from roots, with all that it queues and what it has met in the end. It queues the roots
that are nodes first, each once. -/
def SearchesFrom (g : FiniteGraph α) (roots queued result : List α) : Prop :=
  let start := fresh [] (roots.filter g.nodes.contains)
  ∃ later, g.Runs start.reverse start later result ∧ queued = start ++ later

section

variable {g : FiniteGraph α} {roots met queue queued result : List α}

/-- There is one run only. -/
theorem Runs.unique {queued' result' : List α} (run : g.Runs met queue queued result)
    (run' : g.Runs met queue queued' result') : queued' = queued ∧ result' = result := by
  induction run generalizing queued' result' with
  | idle met =>
    cases run'
    exact ⟨rfl, rfl⟩
  | leave _ ih =>
    cases run' with
    | leave rest =>
      obtain ⟨rfl, rfl⟩ := ih rest
      exact ⟨rfl, rfl⟩

/-- All that is queued is met, and nothing else is. -/
theorem Runs.result_eq (run : g.Runs met queue queued result) :
    result = queued.reverse ++ met := by
  induction run with
  | idle met => rfl
  | leave _ ih => rw [ih, List.reverse_append, List.append_assoc]

/-- Nothing that is met is queued again. -/
theorem Runs.nodup (run : g.Runs met queue queued result) (distinct : met.Nodup) :
    result.Nodup := by
  induction run with
  | idle met => exact distinct
  | @leave met queue queued result node _ ih =>
    refine ih (List.nodup_append'.mpr ⟨?_, distinct, ?_⟩)
    · exact List.nodup_reverse.mpr (fresh_nodup met _)
    · intro other new old
      exact ((mem_fresh met _ other).mp (List.mem_reverse.mp new)).2 old

/-- What a search keeps true: the roots are met, all that is met is reached from one of them, and
a met node that does not wait any more has its neighbors met. -/
structure Searching (g : FiniteGraph α) (roots met queue : List α) : Prop where
  rooted : ∀ root ∈ roots, root ∈ met
  reached : ∀ node ∈ met, ∃ root ∈ roots, ReflTransGen g.Step root node
  queued : ∀ node ∈ queue, node ∈ met
  expanded : ∀ node ∈ met, node ∉ queue → ∀ next, g.Step node next → next ∈ met

/-- One step of the search keeps the invariant. -/
theorem Searching.step {node : α} (inv : Searching g roots met (node :: queue)) :
    Searching g roots ((fresh met (g.neighbors node)).reverse ++ met)
      (queue ++ fresh met (g.neighbors node)) where
  rooted root member := List.mem_append_right _ (inv.rooted root member)
  reached other member := by
    simp only [List.mem_append, List.mem_reverse, mem_fresh, mem_neighbors] at member
    rcases member with ⟨edge, _⟩ | old
    -- A new node is a neighbor of the one that is left, which is reached itself.
    · obtain ⟨root, start, path⟩ := inv.reached node (inv.queued node (by simp))
      exact ⟨root, start, path.tail edge⟩
    · exact inv.reached other old
  queued other member := by
    simp only [List.mem_append, List.mem_reverse] at member ⊢
    rcases member with waiting | new
    · exact Or.inr (inv.queued other (by simp [waiting]))
    · exact Or.inl new
  expanded other member idle next edge := by
    simp only [List.mem_append, List.mem_reverse, mem_fresh, mem_neighbors, not_or] at member idle ⊢
    by_cases same : other = node
    -- The node that is left has its neighbors met by this very step.
    · subst same
      by_cases old : next ∈ met
      · exact Or.inr old
      · exact Or.inl ⟨edge, old⟩
    -- A new node still waits, so an idle one was met before and was idle then.
    · have old : other ∈ met := member.resolve_left idle.2
      exact Or.inr (inv.expanded other old (by simp [same, idle.1]) next edge)

theorem Searching.start (g : FiniteGraph α) (roots : List α) :
    Searching g roots (fresh [] roots).reverse (fresh [] roots) where
  rooted root member := by simpa using member
  reached node member := ⟨node, by simpa using member, .refl⟩
  queued node member := List.mem_reverse.mpr member
  expanded node member idle := absurd (List.mem_reverse.mp member) idle

omit [DecidableEq α] in
/-- Once the queue is empty, the nodes met are those reached from the roots. -/
theorem Searching.exact (inv : Searching g roots met []) (node : α) :
    node ∈ met ↔ ∃ root ∈ roots, ReflTransGen g.Step root node := by
  constructor
  · exact inv.reached node
  · rintro ⟨root, start, path⟩
    induction path with
    | refl => exact inv.rooted root start
    | tail _ edge ih => exact inv.expanded _ ih (by simp) _ edge

/-- A run keeps the invariant, so it ends with what is reached from the roots. -/
theorem Runs.exact (run : g.Runs met queue queued result) (inv : Searching g roots met queue)
    (node : α) : node ∈ result ↔ ∃ root ∈ roots, ReflTransGen g.Step root node := by
  induction run with
  | idle met => exact inv.exact node
  | leave _ ih => exact ih inv.step

end

/-! ### Enough steps -/

/-- The targets of edges that have not been met. -/
def unmet (g : FiniteGraph α) (met : List α) : Finset α :=
  (g.edges.map (·.2)).toFinset \ met.toFinset

theorem unmet_card_le (g : FiniteGraph α) (met : List α) :
    (g.unmet met).card ≤ g.edges.length := by
  calc (g.unmet met).card ≤ (g.edges.map (·.2)).toFinset.card :=
        Finset.card_le_card Finset.sdiff_subset
    _ ≤ (g.edges.map (·.2)).length := List.toFinset_card_le _
    _ = g.edges.length := List.length_map _

/-- What a step queues it takes from the targets that were unmet. -/
theorem unmet_step (g : FiniteGraph α) (met : List α) (node : α) :
    (g.unmet ((fresh met (g.neighbors node)).reverse ++ met)).card +
      (fresh met (g.neighbors node)).length ≤ (g.unmet met).card := by
  have subset : (fresh met (g.neighbors node)).toFinset ⊆ g.unmet met := by
    intro next member
    simp only [List.mem_toFinset, mem_fresh, mem_neighbors] at member
    simp only [unmet, Finset.mem_sdiff, List.mem_toFinset, List.mem_map]
    exact ⟨⟨(node, next), member.1, rfl⟩, member.2⟩
  have rest : g.unmet ((fresh met (g.neighbors node)).reverse ++ met) =
      g.unmet met \ (fresh met (g.neighbors node)).toFinset := by
    ext next
    simp only [unmet, List.toFinset_append, List.toFinset_reverse, Finset.mem_sdiff,
      Finset.mem_union, not_or]
    tauto
  -- No node is queued twice, so the queue grows by as much as the unmet targets lose.
  have size := List.toFinset_card_of_nodup (fresh_nodup met (g.neighbors node))
  have split := Finset.card_sdiff_add_card_eq_card subset
  rw [rest]
  omega

/-- A search with enough steps ends by itself. -/
theorem exists_runs (g : FiniteGraph α) (met queue : List α) (fuel : Nat)
    (enough : queue.length + (g.unmet met).card ≤ fuel) :
    ∃ queued, g.Runs met queue queued (search g fuel met queue) := by
  induction fuel generalizing met queue with
  | zero =>
    -- With no steps left the bound leaves no node in the queue.
    have empty : queue = [] := List.eq_nil_of_length_eq_zero (by omega)
    subst empty
    exact ⟨[], .idle met⟩
  | succ fuel ih =>
    cases queue with
    | nil => exact ⟨[], .idle met⟩
    | cons node queue =>
      have spent := g.unmet_step met node
      simp only [List.length_cons] at enough
      obtain ⟨queued, rest⟩ := ih ((fresh met (g.neighbors node)).reverse ++ met)
        (queue ++ fresh met (g.neighbors node)) (by simp only [List.length_append]; omega)
      exact ⟨_, .leave rest⟩

theorem exists_searchesFrom (g : FiniteGraph α) (roots : List α) :
    ∃ queued, g.SearchesFrom roots queued (g.reachableFrom roots) := by
  have queue := fresh_length_le [] (roots.filter g.nodes.contains)
  have targets := g.unmet_card_le (fresh [] (roots.filter g.nodes.contains)).reverse
  have kept := List.length_filter_le g.nodes.contains roots
  obtain ⟨later, run⟩ := g.exists_runs (fresh [] (roots.filter g.nodes.contains)).reverse
    (fresh [] (roots.filter g.nodes.contains)) (roots.length + g.edges.length) (by omega)
  exact ⟨_, later, run, rfl⟩

section

variable {g : FiniteGraph α} {roots queued result : List α}

theorem SearchesFrom.unique {queued' result' : List α}
    (searches : g.SearchesFrom roots queued result)
    (searches' : g.SearchesFrom roots queued' result') : queued' = queued ∧ result' = result := by
  obtain ⟨later, run, rfl⟩ := searches
  obtain ⟨later', run', rfl⟩ := searches'
  obtain ⟨rfl, rfl⟩ := run.unique run'
  exact ⟨rfl, rfl⟩

theorem SearchesFrom.result_eq (searches : g.SearchesFrom roots queued result) :
    result = queued.reverse := by
  obtain ⟨later, run, rfl⟩ := searches
  rw [run.result_eq, List.reverse_append]

theorem SearchesFrom.nodup (searches : g.SearchesFrom roots queued result) : result.Nodup := by
  obtain ⟨later, run, _⟩ := searches
  exact run.nodup (List.nodup_reverse.mpr (fresh_nodup _ _))

theorem SearchesFrom.exact (searches : g.SearchesFrom roots queued result) (node : α) :
    node ∈ result ↔ ∃ root ∈ roots, root ∈ g.nodes ∧ ReflTransGen g.Step root node := by
  obtain ⟨later, run, _⟩ := searches
  rw [run.exact (.start g _)]
  simp only [List.mem_filter, List.contains_iff_mem, and_assoc]

end

/-- The nodes found are those that some root of the graph reaches in zero or more steps. -/
theorem mem_reachableFrom (g : FiniteGraph α) (roots : List α) (node : α) :
    node ∈ g.reachableFrom roots ↔
      ∃ root ∈ roots, root ∈ g.nodes ∧ ReflTransGen g.Step root node := by
  obtain ⟨_, searches⟩ := g.exists_searchesFrom roots
  exact searches.exact node

/-- Turning the edges around turns the paths around. -/
theorem reverse_reflTransGen {α : Type} (g : FiniteGraph α) (a b : α) :
    ReflTransGen g.reverse.Step a b ↔ ReflTransGen g.Step b a := by
  have swapped : g.reverse.Step = Function.swap g.Step := by
    funext x y
    simp [Step, reverse, Function.swap]
  rw [swapped, Relation.reflTransGen_swap]

/-- Any lists of neighbors of finitely many nodes are those of a graph. The search of a graph comes
to an end, in one way only, and has then found the nodes that some root of the graph reaches in zero
or more steps to neighbors. It has queued just these, each once. -/
theorem reachableFrom_exact :
    (∀ (nodes sources : List α) (targets : α → List α), ∃ g : FiniteGraph α, g.nodes = nodes ∧
      ∀ a, g.neighbors a = if a ∈ sources then targets a else []) ∧
    ∀ (g : FiniteGraph α) (roots : List α), ∃ queued,
      (∀ queued' result, g.SearchesFrom roots queued' result ↔
        queued' = queued ∧ result = g.reachableFrom roots) ∧
      queued.Nodup ∧ (∀ node, node ∈ queued ↔ node ∈ g.reachableFrom roots) ∧
      ∀ node, node ∈ g.reachableFrom roots ↔
        ∃ root ∈ roots, root ∈ g.nodes ∧ ReflTransGen (fun a b => b ∈ g.neighbors a) root node := by
  constructor
  · intro nodes sources targets
    refine ⟨⟨nodes, sources.dedup.flatMap fun s => (targets s).map (s, ·)⟩, rfl, fun a => ?_⟩
    rw [neighbors_flatMap nodes sources.dedup targets sources.nodup_dedup]
    simp only [List.mem_dedup]
  · intro g roots
    obtain ⟨queued, searches⟩ := g.exists_searchesFrom roots
    have listed := searches.result_eq
    have steps : (fun a b => b ∈ g.neighbors a) = g.Step := by
      funext a b
      exact propext (g.mem_neighbors a b)
    refine ⟨queued, fun queued' result => ⟨searches.unique, ?_⟩, ?_, ?_, ?_⟩
    · rintro ⟨rfl, rfl⟩
      exact searches
    · exact List.nodup_reverse.mp (listed ▸ searches.nodup)
    · intro node
      rw [listed, List.mem_reverse]
    · rw [steps]
      exact g.mem_reachableFrom roots

end UnusedMethods.FiniteGraph
