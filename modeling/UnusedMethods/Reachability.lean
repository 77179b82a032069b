/-!
# Reachability

The nodes of a finite graph that can be reached from given roots. A root counts only if it is a
node of the graph; the targets of edges count whether they are or not.

The search keeps the nodes it has met and a queue of those it has not left yet. A node is queued
when it is met, and only roots and targets of edges are ever met, so the search takes at most as
many steps as there are roots and edges.
-/

namespace UnusedMethods

structure FiniteGraph (α : Type) where
  nodes : List α
  edges : List (α × α)
deriving Repr

/-- A finite directed graph of names. -/
abbrev Graph := FiniteGraph String

namespace FiniteGraph

variable {α : Type} [DecidableEq α]

/-- The targets of the edges that leave a node, in order. -/
def neighbors (g : FiniteGraph α) (node : α) : List α :=
  (g.edges.filter (·.1 == node)).map (·.2)

/-- The elements not yet met, each once, in order. -/
def fresh (met : List α) : List α → List α
  | [] => []
  | x :: xs => if met.contains x then fresh met xs else x :: fresh (x :: met) xs

/-- Continue a search for at most `fuel` steps. -/
def search (g : FiniteGraph α) : Nat → List α → List α → List α
  | 0, met, _ => met
  | _, met, [] => met
  | fuel + 1, met, node :: queue =>
    -- Reversed, `met` lists all nodes in the order in which they were queued.
    let new := fresh met (g.neighbors node)
    search g fuel (new.reverse ++ met) (queue ++ new)

/-- The nodes that are reached from the roots. -/
def reachableFrom (g : FiniteGraph α) (roots : List α) : List α :=
  let start := fresh [] (roots.filter g.nodes.contains)
  search g (roots.length + g.edges.length) start.reverse start

/-- The same nodes and edges, the edges turned around. -/
def reverse {α : Type} (g : FiniteGraph α) : FiniteGraph α :=
  ⟨g.nodes, g.edges.map fun (a, b) => (b, a)⟩

end FiniteGraph

end UnusedMethods
