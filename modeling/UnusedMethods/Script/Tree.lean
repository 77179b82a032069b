import UnusedMethods.Script.Token

/-!
# Trees

A source text is parsed into a tree of nodes. A node has a form, which says what it is and holds
what is written in it beside other nodes, the bytes that it covers, and its children in the order
in which the parts are visited. An optional part that is not written is a child of form `absent`,
and several parts of one kind are gathered under a child of form `group`.
-/

namespace UnusedMethods.Script

/-- How variables are declared. -/
inductive Binding where
  | var
  | let_
  | const_
  | using_
  | awaitUsing
deriving DecidableEq, Repr

/-- Where a function is written. -/
inductive FunctionRole where
  | declaration
  | expression
  | member
deriving DecidableEq, Repr

structure FunctionTraits where
  role : FunctionRole
  isAsync : Bool
  isGenerator : Bool
  isAmbient : Bool
deriving DecidableEq, Repr

structure ClassTraits where
  isExpression : Bool
  isAbstract : Bool
  isAmbient : Bool
deriving DecidableEq, Repr

/-- What a method of a class or an object is. -/
inductive MethodRole where
  | method
  | constructor
  | getter
  | setter
deriving DecidableEq, Repr

/-- Who may use a member. -/
inductive Accessibility where
  | public_
  | protected_
  | private_
deriving DecidableEq, Repr

/-- The traits of a member of a class. -/
structure MemberTraits where
  isStatic : Bool
  isComputed : Bool
  isAbstract : Bool
  isAmbient : Bool
  isOptional : Bool
  accessibility : Option Accessibility
deriving DecidableEq, Repr

inductive Form where
  | absent
  | group
  | program
  -- names and literals
  | reference (name : String)
  | propertyName (name : String)
  | privateName (name : String)
  | string (value : String) (legacy : Legacy)
  | number (value : String) (legacy : Legacy)
  | bigint
  | regex
  | boolean
  | null
  | this_
  | super_
  | template
  -- expressions
  | tagged
  /-- An array, and where a comma stands before its closing bracket. -/
  | array (comma : Option Nat)
  | hole
  | spread
  /-- An object, and where a comma stands before its closing brace. -/
  | object (comma : Option Nat)
  | property (role : Option MethodRole) (isComputed isShorthand : Bool)
  | function (traits : FunctionTraits)
  | arrow (isAsync : Bool)
  | class_ (traits : ClassTraits)
  | member (name : String) (place : Nat)
  | privateMember (name : String) (place : Nat)
  | index
  | call
  | new_
  | importCall
  | importMeta
  | newTarget
  | chain
  | unary (operator : String)
  | update
  | binary (operator : String)
  | privateIn (name : String) (place : Nat)
  | assign (operator : String)
  | conditional
  | sequence
  | await_
  | yield_
  | parens
  | cast
  | nonNull
  | typeAssertion
  | instantiation
  | markup
  /-- An expression in braces in markup. -/
  | markupExpression
  -- patterns
  | name (name : String)
  /-- A pattern with a type, and where a question mark stands between them. -/
  | annotated (optional : Option Nat)
  | objectPattern
  | patternProperty (isShorthand : Bool)
  | arrayPattern
  | withDefault
  | rest
  | objectTarget
  | targetName (name : String)
  | targetProperty
  | arrayTarget
  -- functions and classes
  | parameters
  | thisParameter
  | parameter (isProperty isOptional : Bool)
  | body
  | decorator
  | classBody
  | method (role : MethodRole) (traits : MemberTraits)
  | field (traits : MemberTraits)
  | staticBlock
  -- statements
  | directive (raw : String)
  | block
  | empty
  | expression
  | if_
  | for_
  | forIn
  | forOf
  | while_
  | doWhile
  | continue_ (label : Option (String × Nat))
  | break_ (label : Option (String × Nat))
  | return_
  | throw_
  | try_
  | catch_
  | switch_
  | case_
  | default_
  | labeled (label : String)
  | with_
  | debugger
  | bindings (binding : Binding) (isAmbient : Bool)
  | declarator (definite : Option Nat)
  -- types
  | typing
  | type_
  /-- The type of arrays or tuples. -/
  | listType
  /-- A type with a mark before or after it. -/
  | markedType (mark : String) (isBefore : Bool)
  | literalType
  | indexedAccess
  | typeQuery
  | qualified (name : String) (place : Nat)
  | typeName (name : String)
  | typeParameters
  | typeParameter (isIn isOut : Bool)
  | signature
  | typeAlias (isAmbient : Bool)
  | interface_ (isAmbient : Bool)
  | enum_ (isConst isAmbient : Bool)
  | enumMember
  | module_ (isAmbient : Bool)
  | importEquals
  -- modules
  | import_ (source : String)
  | importName (name imported : String) (isType : Bool)
  | importDefault (name : String)
  | importAll (name : String)
  | exportNamed (source : Option String)
  | exportName (name exported : String) (isType : Bool)
  | exportDefault
  | exportAll (source : String)
  | exportAssign
  | exportNamespace
deriving DecidableEq, Repr

/-- A node of the tree. -/
inductive Node where
  | mk (form : Form) (start stop : Nat) (children : List Node)

namespace Node

/-- What the node is. -/
@[inline] def form : Node → Form
  | mk form _ _ _ => form

/-- The byte offset at which the node starts. -/
@[inline] def start : Node → Nat
  | mk _ start _ _ => start

/-- The byte offset at which the node ends. -/
@[inline] def stop : Node → Nat
  | mk _ _ stop _ => stop

/-- The parts of the node in visiting order. -/
@[inline] def children : Node → List Node
  | mk _ _ _ children => children

/-- A part that is not written. -/
def absent : Node :=
  mk .absent 0 0 []

instance : Inhabited Node := ⟨absent⟩

/-- Several parts of one kind. -/
def group (parts : List Node) : Node :=
  mk .group 0 0 parts

/-- The part at a position among the children. -/
def part (node : Node) (i : Nat) : Node :=
  node.children.getD i absent

/-- The part is written. -/
def isPresent (node : Node) : Bool :=
  match node.form with
  | .absent => false
  | _ => true

/-- The same node with another form. -/
def withForm (node : Node) (form : Form) : Node :=
  mk form node.start node.stop node.children

/-- The name that a key spells; a computed key spells one if it is a literal. -/
def keyName? (key : Node) : Option String :=
  match key.form with
  | .propertyName name => some name
  | .privateName name => some ("#" ++ name)
  | .string value _ => some value
  | .number value _ => some value
  | _ => none

/-- The expression under parentheses, assertions of types and the like. -/
def bare : Node → Node
  | .mk form start stop children =>
    match form, children with
    | .parens, [inner] => inner.bare
    | .nonNull, [inner] => inner.bare
    | .cast, inner :: _ => inner.bare
    | .typeAssertion, [_, inner] => inner.bare
    | _, _ => .mk form start stop children

end Node

end UnusedMethods.Script
