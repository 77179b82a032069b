import UnusedMethods.Script.Tree
import UnusedMethods.Model

/-!
# Occurrences

All nodes of a tree in visiting order: a node comes before its parts, and the parts come in their
order. Each node is listed with the fact whether it lies inside a query of the type of a value.
What a node says about members and modules depends on the node and that fact alone.
-/

namespace UnusedMethods.Script

/-- A node of a tree, and whether a type query encloses it. -/
structure Occurrence where
  node : Node
  inQuery : Bool

def Node.isTypeQuery (node : Node) : Bool :=
  match node.form with
  | .typeQuery => true
  | _ => false

mutual

/-- The occurrences in a node, followed by others. -/
def Node.occurrencesThen (inQuery : Bool) : Node → List Occurrence → List Occurrence
  | .mk form start stop children, others =>
    let node := Node.mk form start stop children
    ⟨node, inQuery⟩ ::
      Node.occurrencesOfAll (inQuery || node.isTypeQuery) children others

def Node.occurrencesOfAll (inQuery : Bool) : List Node → List Occurrence → List Occurrence
  | [], others => others
  | node :: rest, others =>
    Node.occurrencesThen inQuery node (Node.occurrencesOfAll inQuery rest others)

end

def Node.occurrences (node : Node) : List Occurrence :=
  node.occurrencesThen false []

/-- A name of a member, how it is named, and where. -/
structure Mention where
  name : String
  kind : ReferenceKind
  place : Nat
deriving DecidableEq, Repr

namespace Occurrence

/-- What a key of a destructuring property mentions. A private name is no property. -/
def ofKey (key : Node) : Option Mention :=
  match key.form with
  | .privateName _ => none
  | _ => key.keyName?.map fun name => ⟨name, .destructure, key.start⟩

/-- The member that a node mentions: by a point, by a string in brackets, by a key of a
destructuring pattern, by an index of a type, or by a qualified name in a type query. -/
def mention? (occurrence : Occurrence) : Option Mention :=
  let node := occurrence.node
  match node.form, node.children with
  | .member name place, _ => some ⟨name, .access, place⟩
  -- A private name keeps its mark, as a method of that name does.
  | .privateMember name place, _ => some ⟨"#" ++ name, .access, place⟩
  | .privateIn name place, _ => some ⟨"#" ++ name, .access, place⟩
  | .index, [_, key] =>
    match key.form with
    | .string value _ => some ⟨value, .access, key.start⟩
    | _ => none
  | .patternProperty _, key :: _ => ofKey key
  | .targetProperty, key :: _ => ofKey key
  | .targetName name, _ => some ⟨name, .destructure, node.start⟩
  | .indexedAccess, [_, index] =>
    match index.form, index.children with
    | .literalType, [leaf] =>
      match leaf.form with
      | .string value _ => some ⟨value, .typeQuery, leaf.start⟩
      | _ => none
    | _, _ => none
  | .qualified name place, _ => if occurrence.inQuery then some ⟨name, .typeQuery, place⟩ else none
  | _, _ => none

/-- The module that a node asks for. -/
def request? (occurrence : Occurrence) : Option String :=
  let node := occurrence.node
  match node.form, node.children with
  | .import_ source, _ => some source
  | .exportNamed source, _ => source
  | .exportAll source, _ => some source
  | .importCall, source :: _ =>
    match source.form with
    | .string value _ => some value
    | _ => none
  | _, _ => none

/-- The names that a node imports one by one. -/
def bindings (occurrence : Occurrence) : List ImportBinding :=
  match occurrence.node.form with
  | .import_ source =>
    occurrence.node.children.filterMap fun part =>
      match part.form with
      -- What names a whole module names no member of it.
      | .importName name imported _ => some ⟨name, imported, source⟩
      | .importDefault name => some ⟨name, defaultExport, source⟩
      | _ => none
  | _ => []

end Occurrence

end UnusedMethods.Script
