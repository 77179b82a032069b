import UnusedMethods.Script.Early.Check
import UnusedMethods.Script.Occurrence

/-!
# Early errors

A tree is walked once: names are declared when a node is entered, and a node is checked when it is
left. The first complaint wins. Members of a class that repeat each other are found last.
-/

namespace UnusedMethods.Script

/-! ### Declarations -/

/-- A declaration with the clashes of its entity. -/
def declarationOf (entity : Entity) (name : String) (place : Nat) : Declaration :=
  ⟨name, place, entity, entity.clashes, false⟩

/-- Parameters of a function must differ: in strict code, in arrow functions and methods, and if
one of them is more than a name. -/
def parametersDiffer (around : Surroundings) (parameters : Node) : Bool :=
  let ofMember := match around.parent.form with
    | .function traits => traits.role = .member
    | .arrow _ => true
    | _ => false
  around.isStrict || ofMember || !parameters.isSimpleList

/-- The declarations of the parameters of a function. -/
def parameterDeclarations (around : Surroundings) (parameters : Node) : List Declaration :=
  let base := Entity.variable.clashes
  let clashes := if parametersDiffer around parameters then .variable :: base else base
  (Node.boundNamesOfAll parameters.children).map fun (name, place) =>
    ⟨name, place, .variable, clashes, false⟩

/-- What a function declaration clashes with. In plain text it is a variable of the function around
it, or of the block. -/
def functionClashes (around : Surroundings) (ofFunction isTop : Bool) : List Entity :=
  if around.dialect.typed then Entity.function.clashes
  else if ofFunction && !(isTop && around.dialect.isModule) then Entity.variable.clashes
  else if around.isStrict then Entity.lexical.clashes
  else Entity.lexical.clashes.filter (· ≠ .function)

mutual

/-- The part makes a namespace hold values: it is more than a name, a type or an import. -/
def Node.holdsValue : Node → Bool
  | .mk form _ _ children =>
    match form with
    | .interface_ _ => false
    | .typeAlias _ => false
    | .importEquals => false
    | .import_ _ => false
    | .name _ => false
    | .string .. => false
    | .module_ _ => Node.anyHoldsValue children
    | .body => Node.anyHoldsValue children
    | .exportNamed none => Node.anyHoldsValue children
    | .absent => false
    | _ => true

def Node.anyHoldsValue : List Node → Bool
  | [] => false
  | node :: rest => node.holdsValue || Node.anyHoldsValue rest

end

/-- The declarations that a node makes in the scope around it. -/
def declarationsOf (around : Surroundings) (scopes : List Scope) (node : Node) :
    List Declaration :=
  let named (part : Node) (entity : Entity) : List Declaration :=
    match part.form with
    | .name name => [declarationOf entity name part.start]
    | _ => []
  match node.form with
  | .function traits =>
    let isBody := match around.parent.form with
      | .if_ => true
      | _ => false
    if traits.role = .declaration && !isBody then
      let ofFunction := (scopes.head?.map (·.ofFunction)).getD false
      -- The outermost scope is the last of the list.
      let clashes := functionClashes around ofFunction (scopes.length ≤ 1)
      (named (node.part 0) .function).map ({ · with clashes := clashes })
    else []
  | .class_ traits => if traits.isExpression then [] else named (node.part 1) .class_
  | .typeAlias _ => named (node.part 0) .alias
  | .interface_ _ => named (node.part 0) .interface_
  | .enum_ isConst _ => named (node.part 0) (if isConst then .constEnum else .enum_)
  | .enumMember =>
    ((node.part 0).keyName?.map fun name =>
      declarationOf .enumMember name (node.part 0).start).toList
  | .module_ _ => named (node.part 0) (if node.holdsValue then .module_ else .typeModule)
  | .typeParameter .. => named (node.part 0) .typeParameter
  | .importEquals => named (node.part 0) .import_
  | .importName .. => named (node.part 0) .import_
  | .importDefault _ => named (node.part 0) .import_
  | .importAll _ => named (node.part 0) .import_
  | .parameters => parameterDeclarations around node
  | .declarator _ =>
    let declare (entity : Entity) (hoists : Bool) : List Declaration :=
      node.boundNames.map fun (name, place) =>
        { declarationOf entity name place with hoists := hoists }
    match around.parent.form with
    | .bindings .var _ => declare .variable true
    | .bindings .. => declare .lexical false
    | _ => []
  | _ => []

/-- The declarations that a node makes in the scope that it opens. -/
def innerDeclarationsOf (node : Node) : List Declaration :=
  match node.form with
  | .class_ traits =>
    match traits.isExpression, (node.part 1).form with
    | true, .name name => [declarationOf .class_ name (node.part 1).start]
    | _, _ => []
  | .catch_ =>
    let parameter := node.part 0
    let isName := match parameter.form with
      | .name _ => true
      | .annotated _ => match (parameter.part 0).form with
        | .name _ => true
        | _ => false
      | _ => false
    parameter.boundNames.map fun (name, place) =>
      declarationOf (if isName then .variable else .lexical) name place
  | _ => []

/-- The scope that a node opens: whether it is one of a function, if there is one. The body of a
handler shares the scope of the handler. -/
def opensScope (around : Surroundings) (node : Node) : Option Bool :=
  let ofFunction := match node.form with
    | .program => true
    | .function _ => true
    | .arrow _ => true
    | .signature => true
    | .staticBlock => true
    | .module_ _ => true
    | _ => false
  let isShared := match node.form, around.parent.form with
    | .block, .catch_ => true
    | _, _ => false
  if node.hasScope && !isShared then some ofFunction else none

def declareAll (declarations : List Declaration) (scopes : List Scope) :
    Except Diagnostic (List Scope) :=
  declarations.foldlM (fun scopes new => declareIn new scopes) scopes

/-! ### Exports -/

/-- The names that a program exports without a source, as they are bound in it. -/
def exportedReferences (program : Node) : List (String × Nat) :=
  program.children.flatMap fun statement =>
    statement.children.filterMap fun part =>
      match part.form, (part.part 0).form with
      | .exportName .., .reference name => some (name, (part.part 0).start)
      | _, _ => none

/-- A name that a module of plain text exports is bound at its top. -/
def checkExported (around : Surroundings) (node : Node) (scope : Scope) : Option Diagnostic :=
  match node.form with
  | .program =>
    if around.dialect.typed || !around.dialect.isModule then none
    else (exportedReferences node).findSome? fun (name, place) =>
      if scope.names.contains name then none else complain (.undefinedExport name) place
  | _ => none

/-- The names under which a statement exports something, and where they stand. -/
def exportedNames (statement : Node) : List (String × Nat) :=
  match statement.form with
  | .exportNamed _ => statement.children.flatMap fun part =>
      match part.form with
      | .exportName _ exported _ => [(exported, (part.part 1).start)]
      | .bindings .. => Node.boundNamesOfAll part.children
      | .function _ => (part.part 0).boundNames
      | .class_ _ => (part.part 1).boundNames
      | _ => []
  | .exportAll _ =>
    match (statement.part 0).form with
    | .propertyName name => [(name, (statement.part 0).start)]
    | _ => []
  | _ => []

/-- The first name in a list that a later one repeats. -/
def repeatedName? : List (String × Nat) → Option (String × Nat)
  | [] => none
  | (name, place) :: rest =>
    if rest.any (·.1 == name) then some (name, place) else repeatedName? rest

/-- Where a program makes its default export. -/
def defaultPlaces (program : Node) : List Nat :=
  program.children.flatMap fun statement =>
    match statement.form with
    | .exportDefault => [(statement.part 1).start]
    | _ => (exportedNames statement).filterMap fun (name, place) =>
        if name == defaultExport then some place else none

/-- A module of plain text exports each name once. -/
def checkRepeatedExports (dialect : Dialect) (program : Node) : Option Diagnostic :=
  if dialect.typed then none
  else firstOf
    [(repeatedName? (program.children.flatMap exportedNames)).bind fun (name, place) =>
       complain (.repeatedExport name) place,
     match defaultPlaces program with
     | first :: _ :: _ => complain .repeatedDefault first
     | _ => none]

/-! ### The walk -/

mutual

/-- Walk a node: declare its names, walk its parts, check it. -/
def Node.walk (around : Surroundings) : Node → List Scope → Except Diagnostic (List Scope)
  | .mk form start stop children, scopes => do
    let node := Node.mk form start stop children
    -- The names of a node belong to the scope outside, also where it opens one of its own.
    let scopes ← declareAll (declarationsOf around scopes node) scopes
    let inner := around.enter node
    let scopes ← match opensScope around node with
      | some ofFunction => do
        let opened ← declareAll (innerDeclarationsOf node) (Scope.fresh ofFunction :: scopes)
        let closed ← Node.walkAll inner children opened
        match closed.head?.bind (checkExported around node) with
        | some fault => .error fault
        -- What hoists has changed the scopes outside, so they are not those from before.
        | none => pure (closed.drop 1)
      | none => Node.walkAll inner children scopes
    match checkNode around node with
    | some fault => .error fault
    | none => .ok scopes

def Node.walkAll (around : Surroundings) :
    List Node → List Scope → Except Diagnostic (List Scope)
  | [], scopes => .ok scopes
  | node :: rest, scopes => do
    let scopes ← Node.walk around node scopes
    Node.walkAll around rest scopes

end

/-! ### Repeated members -/

/-- A member of a class as it is compared with others. -/
structure MemberKey where
  name : String
  isPrivate : Bool
  isStatic : Bool
  /-- A getter or a setter. -/
  accessor : Option Bool
  place : Nat
deriving Repr

/-- How a member is compared; constructors and members without a body are not. -/
def memberKey? (member : Node) : Option MemberKey :=
  let key := member.part 1
  let make (traits : MemberTraits) (accessor : Option Bool) : Option MemberKey :=
    match key.form with
    | .privateName name => some ⟨name, true, traits.isStatic, accessor, key.start⟩
    | _ => key.keyName?.map fun name => ⟨name, false, traits.isStatic, accessor, key.start⟩
  match member.form with
  | .method role traits =>
    if !((member.part 2).part 4).isPresent then none
    else match role with
      | .method => make traits none
      | .getter => make traits (some true)
      | .setter => make traits (some false)
      | .constructor => none
  | .field traits => make traits none
  | _ => none

/-- Two members of one name cannot both be in a class. A getter and a setter can. -/
def repeats (dialect : Dialect) (old new : MemberKey) : Bool :=
  let same := old.isPrivate == new.isPrivate &&
    match old.accessor, new.accessor with
    | some a, some b => a == b || old.isStatic != new.isStatic
    | _, _ => true
  -- In plain text a later public member replaces an earlier one.
  if dialect.typed then same && old.isStatic == new.isStatic else same && new.isPrivate

/-- The first member that a later one repeats. -/
def repeatedMember? (dialect : Dialect) (seen : Std.TreeMap String MemberKey) :
    List MemberKey → Option MemberKey
  | [] => none
  | key :: rest =>
    match seen[key.name]? with
    | some old =>
      if repeats dialect old key then some old
      else repeatedMember? dialect (seen.insert key.name key) rest
    | none => repeatedMember? dialect (seen.insert key.name key) rest

/-- The complaint about repeated members of a class, if the node is one. -/
def checkRepeated (dialect : Dialect) (node : Node) : Option Diagnostic :=
  match node.form with
  | .class_ _ =>
    (repeatedMember? dialect ∅ ((node.part 6).children.filterMap memberKey?)).bind fun old =>
      complain (.redeclared old.name) old.place
  | _ => none

def earlyError? (dialect : Dialect) (text : String) (program : Node) : Option Diagnostic :=
  match checkRepeatedExports dialect program with
  | some fault => some fault
  | none =>
    match program.walk (Surroundings.top text dialect) [] with
    | .error fault => some fault
    | .ok _ => program.occurrences.findSome? fun o => checkRepeated dialect o.node

end UnusedMethods.Script
