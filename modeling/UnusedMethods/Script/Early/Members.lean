import UnusedMethods.Script.Early.Jumps
import UnusedMethods.Script.Scan

/-!
# Checks of classes and their members

Which members the keyword `super` reaches, which private names are declared, which members a class
may have together, and what may decorate them.
-/

namespace UnusedMethods.Script

/-! ### The extended class -/

/-- What gives `super` its meaning, seen from inside out. -/
inductive SuperOwner where
  /-- A constructor, and the nodes outside it. -/
  | constructor (outer : List Node)
  /-- Another method, the value of a field, or a block of a class. -/
  | member
  | nothing

/-- What gives `super` its meaning at a place. Keys and decorators belong to what is outside their
class or object. -/
def superOwner (place : Nat) : List Node → SuperOwner
  | [] => .nothing
  | node :: outer =>
    match node.form with
    | .function traits =>
      if traits.role ≠ .member then .nothing
      else match outer with
        | owner :: outer =>
          match owner.form with
          | .method .constructor _ => .constructor outer
          | _ => .member
        | [] => .nothing
    | .field _ => if (node.part 3).covers place then .member else superOwner place outer
    | .staticBlock => .member
    | _ => superOwner place outer

/-- The nearest class extends another. -/
def isDerived (path : List Node) : Bool :=
  let owner := path.find? fun node =>
    match node.form with
    | .class_ _ => true
    | _ => false
  owner.elim false fun owner => (owner.part 3).isPresent

/-- The keyword for the extended class, as it is used. -/
def checkSuper (around : Surroundings) (node : Node) : Option Diagnostic :=
  let calls := match around.parent.form with
    | .call => (around.parent.part 0).start == node.start
    | .new_ => (around.parent.part 0).start == node.start
    | _ => false
  match superOwner node.start around.path with
  | .constructor outer =>
    if !calls || isDerived outer then none else complain .superOutsideDerived node.start
  | .member => if calls then complain .superCall around.parent.start else none
  | .nothing =>
    if calls then complain .superCall around.parent.start
    else complain .superMember node.start

/-! ### Private names -/

mutual

/-- The private names that are used in a node, but not those in classes inside it, and where. -/
def Node.privateUses : Node → List (String × Nat)
  | .mk form _ _ children =>
    match form with
    | .classBody => []
    | .privateMember name place => Node.privateUsesOfAll children ++ [(name, place)]
    | .privateIn name place => (name, place) :: Node.privateUsesOfAll children
    | _ => Node.privateUsesOfAll children

/-- The private names that are used in several nodes. -/
def Node.privateUsesOfAll : List Node → List (String × Nat)
  | [] => []
  | node :: rest => node.privateUses ++ Node.privateUsesOfAll rest

end

/-- The private names that the body of a class declares. -/
def Node.privateNames (body : Node) : List String :=
  body.children.filterMap fun member =>
    match (member.part 1).form with
    | .privateName name => some name
    | _ => none

/-- Private names used in the body of a class are declared in it or in an enclosing one. -/
def checkPrivateUses (around : Surroundings) (body : Node) : Option Diagnostic :=
  let bodies := body :: around.path.filter fun node =>
    match node.form with
    | .classBody => true
    | _ => false
  (Node.privateUsesOfAll body.children).findSome? fun (name, place) =>
    if bodies.any (·.privateNames.contains name) then none
    else complain (.privateUndeclared name) place

/-- A private name must stand in the body of a class. -/
def checkPrivate (around : Surroundings) (name : String) (place : Nat) : Option Diagnostic :=
  let isInside := around.path.any fun node =>
    match node.form with
    | .classBody => true
    | _ => false
  if isInside then none else complain (.privateOutside name) place

/-- The extended class does not give away its private members. -/
def checkPrivateMember (around : Surroundings) (node : Node) (name : String) (place : Nat) :
    Option Diagnostic :=
  let ofSuper := match (node.part 0).form with
    | .super_ => complain .superPrivate node.start
    | _ => none
  firstOf [checkPrivate around name place, ofSuper]

/-! ### Members -/

/-- The function of a member has a body. -/
def Node.isDefined (member : Node) : Bool :=
  ((member.part 2).part 4).isPresent

/-- How complaints spell the key of a member. -/
def Node.keyText (text : String) (member : Node) : String :=
  let key := member.part 1
  key.keyName?.getD (slice text key.start key.stop)

/-- Parameters may declare properties only where the constructor is defined. -/
def checkParameterProperties (parameters : Node) : Option Diagnostic :=
  parameters.children.findSome? fun parameter =>
    match parameter.form with
    | .parameter true _ => complain .parameterProperty parameter.start
    | _ => none

/-- An abstract method may not be defined, and a constructor cannot be abstract. -/
def checkAbstractMethod (around : Surroundings) (node : Node) (role : MethodRole) :
    Option Diagnostic :=
  let key := node.part 1
  match role with
  | .constructor => complain .abstractConstructor key.start
  | _ =>
    let what := if role = .method then "Method" else "Accessor"
    if node.isDefined then complain (.abstractBody what (node.keyText around.text)) key.start
    else none

/-- A method of a class. -/
def checkMethod (around : Surroundings) (node : Node) (role : MethodRole) (traits : MemberTraits) :
    Option Diagnostic :=
  let isAccessor := role = .getter || role = .setter
  let isLoose := !node.isDefined && !traits.isAbstract && !around.isAmbient
  firstOf
    [if role = .constructor && !node.isDefined then checkParameterProperties ((node.part 2).part 2)
     else none,
     if isLoose && isAccessor then complain .accessorBody (node.part 1).start else none,
     if isLoose then
       ((node.part 0).children.head?).bind fun decorator =>
         complain .overloadDecorator decorator.start
     else none,
     if traits.isAbstract then checkAbstractMethod around node role else none]

/-- A field of a class. An abstract one has no value. -/
def checkField (around : Surroundings) (node : Node) (traits : MemberTraits) : Option Diagnostic :=
  if traits.isAbstract && (node.part 3).isPresent then
    complain (.abstractInitializer (node.keyText around.text)) (node.part 1).start
  else none

/-- A property of an object. A getter or a setter has a body. -/
def checkProperty (node : Node) (role : Option MethodRole) : Option Diagnostic :=
  match role with
  | some .getter => checkBody
  | some .setter => checkBody
  | _ => none
where
  /-- The function of the property has a body. -/
  checkBody : Option Diagnostic :=
    if ((node.part 1).part 4).isPresent then none
    else complain .accessorBody (node.part 0).start

/-! ### Classes -/

/-- Abstract members need an abstract class. -/
def checkAbstractPlace (owner : ClassTraits) (members : List Node) : Option Diagnostic :=
  if owner.isAbstract then none
  else members.findSome? fun member =>
    match member.form with
    | .method _ traits =>
      if traits.isAbstract then complain (.abstractOutside "methods") (member.part 1).start
      else none
    | .field traits =>
      if traits.isAbstract then complain (.abstractOutside "properties") (member.part 1).start
      else none
    | _ => none

/-- The name that the key of a method spells, private names apart. The outer option tells whether
the member is a method. -/
def Node.methodName? (member : Node) : Option (Option String) :=
  match member.form with
  | .method .. =>
    match (member.part 1).form with
    | .privateName _ => some none
    | _ => some (member.part 1).keyName?
  | _ => none

/-- A signature of a method must be followed by another declaration of the method. -/
def checkOverloads : List Node → Option Diagnostic
  | [] => none
  | member :: rest =>
    match member.form with
    | .method role traits =>
      let isSignature := !traits.isAbstract && !traits.isOptional && !member.isDefined
      if isSignature && rest.head?.bind (·.methodName?) != member.methodName? then
        complain (if role = .constructor then .missingConstructor else .missingImplementation)
          (member.part 1).start
      else checkOverloads rest
    | _ => checkOverloads rest

/-- A class may have one constructor with a body. -/
def checkConstructors (members : List Node) : Option Diagnostic :=
  let defined := members.filter fun member =>
    match member.form with
    | .method .constructor _ => member.isDefined
    | _ => false
  match defined with
  | first :: _ :: _ => complain .severalConstructors (first.part 1).start
  | _ => none

/-- A class that is declared has a name, unless it is the default export. -/
def checkClassName (around : Surroundings) (node : Node) (traits : ClassTraits) :
    Option Diagnostic :=
  let isDefault := match around.parent.form with
    | .exportDefault => true
    | _ => false
  if traits.isExpression || isDefault || (node.part 1).isPresent then none
  else complain .noClassName node.start

/-- The expression of a decorator: a name, a member of such an expression, or a call of one, with or
without types; anything else needs parentheses. -/
def isDecoratorMember : Node → Bool
  | .mk form _ _ children =>
    match form, children with
    | .reference _, _ => true
    | .parens, _ => true
    | .member .., [object] => isDecoratorMember object
    | .privateMember .., [object] => isDecoratorMember object
    | .nonNull, [object] => isDecoratorMember object
    | .instantiation, object :: _ => isDecoratorMember object
    | .super_, _ => true
    | _, _ => false

/-- A decorator. -/
def checkDecorator (node : Node) : Option Diagnostic :=
  let expression := node.part 0
  let bare := match expression.form with
    | .call => expression.part 0
    | _ => expression
  if isDecoratorMember bare then none else complain .decoratorParens expression.start

end UnusedMethods.Script
