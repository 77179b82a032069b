import UnusedMethods.Script.Parser.State

/-!
# Targets of assignments

What stands before an equals sign is first read as an expression. If it can be assigned to, it
becomes a target: objects and arrays become patterns of targets.
-/

namespace UnusedMethods.Script

/-- A variable, or a member of a value. -/
def Node.isPlace (node : Node) : Bool :=
  match node.form with
  | .reference _ => true
  | .member .. => true
  | .privateMember .. => true
  | .index => true
  | _ => false

/-- An object or an array, which may be a pattern. -/
def Node.isComposite (node : Node) : Bool :=
  match node.form with
  | .object _ => true
  | .array _ => true
  | _ => false

/-- A target that is no pattern, or what is wrong with it. -/
def Node.simpleTarget : Node → Except Diagnostic Node
  | .mk form start stop children =>
    let node := Node.mk form start stop children
    let wrapped : Except Diagnostic Node :=
      if node.bare.isPlace then .ok node else .error ⟨.badTarget, start⟩
    match form, children with
    -- Parentheses around a pattern make it an expression again.
    | .parens, [inner] =>
      if inner.isComposite then .error ⟨.badTarget, start⟩ else inner.simpleTarget
    | .nonNull, _ => wrapped
    | .cast, _ => wrapped
    | .typeAssertion, _ => wrapped
    | .instantiation, _ => .error ⟨.instantiatedTarget, start⟩
    | _, _ => if node.isPlace then .ok node else .error ⟨.badTarget, start⟩

namespace Parse

/-- Take an expression as a target that is no pattern. -/
def plainTarget (expression : Node) : Parse Node := do
  match expression.simpleTarget with
  | .error fault => throw fault
  | .ok target => return target

/-- The target is only spread at the end of its pattern, with no comma after it. -/
def checkSpread (parts : List Node) (comma : Option Nat) : Parse Unit := do
  let isSpread (part : Node) : Bool := match part.form with | .spread => true | _ => false
  match parts.dropLast.find? isSpread with
  | some part => fail .spreadNotLast part.start
  | none => pure ()
  match parts.getLast?.filter isSpread, comma with
  | some _, some place => report (.trailingComma restPatterns) place
  | _, _ => pure ()

/-- A target, which may be a pattern. The fuel bounds the nesting. -/
def targetAt : Nat → Node → Parse Node
  | 0, node => fail .badTarget node.start
  | fuel + 1, node =>
    match node.form with
    | .object comma => do
      checkSpread node.children comma
      let parts ← node.children.mapM (objectPart fuel)
      return .mk .objectTarget node.start node.stop parts
    | .array comma => do
      checkSpread node.children comma
      let parts ← node.children.mapM (arrayPart fuel)
      return .mk .arrayTarget node.start node.stop parts
    | _ => plainTarget node
where
  /-- A target with a default value, if one is written. -/
  defaulted (fuel : Nat) (node : Node) : Parse Node := do
    match node.form with
    | .assign operator =>
      if operator != "=" then report .defaultOperator node.start
      return node.withForm .withDefault
    | _ => targetAt fuel node
  /-- The target of all that the other parts of a pattern leave. -/
  restPart (node inner target : Node) : Parse Node := do
    if !inner.isComposite then
      match inner.simpleTarget with
      | .error _ => fail .restTarget inner.start
      | .ok _ => pure ()
    return .mk .rest node.start node.stop [target]
  /-- An element of an array pattern. -/
  arrayPart (fuel : Nat) (node : Node) : Parse Node := do
    match node.form, node.children with
    | .hole, _ => return node
    | .spread, [inner] =>
      if inner.isComposite then restPart node inner (← targetAt fuel inner)
      else restPart node inner inner
    | _, _ => defaulted fuel node
  /-- A property of an object pattern. -/
  objectPart (fuel : Nat) (node : Node) : Parse Node := do
    match node.form, node.children with
    | .spread, [inner] =>
      if inner.isComposite then fail .restTarget inner.start
      restPart node inner inner
    | .property none _ true, [key, value] =>
      -- What looked like a broken object has become a target with a default value.
      modify fun s => { s with unfinished := s.unfinished.filter (· != node.start) }
      let name := key.keyName?.getD ""
      match value.form, value.children with
      | .withDefault, [inner, init] =>
        return .mk (.targetName name) node.start node.stop [inner, init]
      | _, _ => return .mk (.targetName name) node.start node.stop [value, Node.absent]
    | .property none _ false, [key, value] =>
      let target ← defaulted fuel value
      return .mk .targetProperty node.start node.stop [key, target]
    | _, _ => fail .badTarget (node.children.getLastD node).start

/-- Take an expression as the target of an assignment by an operator. The nesting of a node is
bounded by its length. -/
def target (operator : String) (expression : Node) : Parse Node := do
  if expression.isComposite && operator != "=" then
    fail .patternOperator expression.start
  targetAt (2 * (expression.stop - expression.start) + 4) expression

end Parse

end UnusedMethods.Script
