import UnusedMethods.Script.Early.Scope
import UnusedMethods.Script.Dialect

/-!
# Surroundings

What a check of a node needs to know beside the node: the dialect, whether the code is strict or
only declares, and the nodes that enclose it.
-/

namespace UnusedMethods.Script

/-- What surrounds a node. -/
structure Surroundings where
  text : String
  dialect : Dialect
  isStrict : Bool
  isAmbient : Bool
  /-- The nodes that enclose the node, the nearest first. -/
  path : List Node

/-- A function body that begins with the directive to be strict. -/
def Node.demandsStrict (body : Node) : Bool :=
  body.children.any fun part =>
    match part.form with
    | .directive raw => raw == "use strict"
    | _ => false

/-- The code inside a node is strict, whatever surrounds it. -/
def Node.makesStrict (node : Node) : Bool :=
  match node.form with
  | .class_ _ => true
  | .function _ => (node.part 4).demandsStrict
  | .arrow _ => (node.part 3).demandsStrict
  | .program => node.demandsStrict
  | _ => false

/-- What is inside a node is only declared, whatever surrounds it. -/
def Node.makesAmbient (node : Node) : Bool :=
  match node.form with
  | .class_ traits => traits.isAmbient
  | .function traits => traits.isAmbient
  | .module_ isAmbient => isAmbient
  | .bindings _ isAmbient => isAmbient
  | .enum_ _ isAmbient => isAmbient
  | _ => false

namespace Surroundings

/-- What surrounds the whole of a text. -/
def top (text : String) (dialect : Dialect) : Surroundings :=
  ⟨text, dialect, dialect.isModule, dialect.ambient, []⟩

def enter (around : Surroundings) (node : Node) : Surroundings :=
  { around with
    isStrict := around.isStrict || node.makesStrict
    isAmbient := around.isAmbient || node.makesAmbient
    path := node :: around.path }

def parent (around : Surroundings) : Node :=
  around.path.headD Node.absent

end Surroundings

/-- A node whose parts have a scope of their own. -/
def Node.hasScope (node : Node) : Bool :=
  match node.form with
  | .program => true
  | .function _ => true
  | .arrow _ => true
  | .signature => true
  | .staticBlock => true
  | .module_ _ => true
  | .block => true
  | .for_ => true
  | .forIn => true
  | .forOf => true
  | .switch_ => true
  | .catch_ => true
  | .class_ _ => true
  | .typeAlias _ => true
  | .interface_ _ => true
  | .enum_ .. => true
  | _ => false

/-- The nearest enclosing node that has a scope. -/
def Surroundings.scope (around : Surroundings) : Node :=
  (around.path.find? (·.hasScope)).getD Node.absent

def Node.covers (node : Node) (place : Nat) : Bool :=
  node.isPresent && node.start ≤ place && place < node.stop

/-- A node that labels and jumps do not reach across. -/
def Node.isBoundary (node : Node) : Bool :=
  match node.form with
  | .function _ => true
  | .staticBlock => true
  | _ => false

def Node.isLoop (node : Node) : Bool :=
  match node.form with
  | .for_ => true
  | .forIn => true
  | .forOf => true
  | .while_ => true
  | .doWhile => true
  | _ => false

/-- The enclosing nodes that jumps and labels reach. -/
def reachable (path : List Node) : List Node :=
  path.takeWhile (!·.isBoundary)

end UnusedMethods.Script
