import Mathlib.Data.List.Forall2
import UnusedMethods.Proofs.TreePositions
import UnusedMethods.Reading

/-!
# Mentions of members are collected exactly

Which nodes of a tree mention a member is said here form by form: accesses, keys of destructuring
patterns and targets, and names in types. The references in the outline of a text are these
mentions, one for each position of the tree that mentions a member and none beside them, in visiting
order. So the name of a node comes before the names inside it, and no nesting hides a name.
-/

namespace UnusedMethods.Script

open Text (LineTable)

/-! ### Which nodes mention a member -/

/-- A literal that can be the key of a member. -/
inductive KeyLiteral where
  | identifier (name : String)
  | string (value : String)
  | number (value : String)
deriving DecidableEq, Repr

/-- The name of the member that a literal is the key of. -/
def KeyLiteral.name : KeyLiteral → String
  | identifier name => name
  | string value => value
  | number value => value

/-- A node is a literal written as a key. -/
inductive Node.Writes (key : Node) : KeyLiteral → Prop
  | identifier {name : String} (form : key.form = .propertyName name) :
      Writes key (.identifier name)
  | string {value : String} {legacy : Legacy} (form : key.form = .string value legacy) :
      Writes key (.string value)
  | number {value : String} {legacy : Legacy} (form : key.form = .number value legacy) :
      Writes key (.number value)

/-- A node mentions a member; a qualified name does so in a type query only. -/
inductive Mentions (node : Node) (inQuery : Prop) : Mention → Prop
  -- Accesses. A member has this form in an optional chain, after `super` and as a target, too.
  | member {name : String} {place : Nat} (form : node.form = .member name place) :
      Mentions node inQuery ⟨name, .access, place⟩
  | privateMember {name : String} {place : Nat} (form : node.form = .privateMember name place) :
      Mentions node inQuery ⟨"#" ++ name, .access, place⟩
  | privateIn {name : String} {place : Nat} (form : node.form = .privateIn name place) :
      Mentions node inQuery ⟨"#" ++ name, .access, place⟩
  | index {object key : Node} {value : String} {legacy : Legacy} (form : node.form = .index)
      (parts : node.children = [object, key]) (literal : key.form = .string value legacy) :
      Mentions node inQuery ⟨value, .access, key.start⟩
  -- Keys of patterns that bind names, and of targets; a shorthand target is its own key.
  | patternKey {isShorthand : Bool} {key : Node} {rest : List Node} {literal : KeyLiteral}
      (form : node.form = .patternProperty isShorthand) (parts : node.children = key :: rest)
      (writes : key.Writes literal) : Mentions node inQuery ⟨literal.name, .destructure, key.start⟩
  | targetKey {key : Node} {rest : List Node} {literal : KeyLiteral}
      (form : node.form = .targetProperty) (parts : node.children = key :: rest)
      (writes : key.Writes literal) : Mentions node inQuery ⟨literal.name, .destructure, key.start⟩
  | targetName {name : String} (form : node.form = .targetName name) :
      Mentions node inQuery ⟨name, .destructure, node.start⟩
  -- Names in types.
  | indexedAccess {object index leaf : Node} {value : String} {legacy : Legacy}
      (form : node.form = .indexedAccess) (parts : node.children = [object, index])
      (type : index.form = .literalType) (written : index.children = [leaf])
      (literal : leaf.form = .string value legacy) :
      Mentions node inQuery ⟨value, .typeQuery, leaf.start⟩
  | qualified {name : String} {place : Nat} (form : node.form = .qualified name place)
      (queried : inQuery) : Mentions node inQuery ⟨name, .typeQuery, place⟩

/-- A node that declares a member, or that has the form of a mention and mentions none: a qualified
name outside every type query, or a key that is computed and no literal. -/
inductive MentionsNothing (node : Node) (inQuery : Prop) : Prop
  | method {role : MethodRole} {traits : MemberTraits} (form : node.form = .method role traits)
  | qualified {name : String} {place : Nat} (form : node.form = .qualified name place)
      (outside : ¬ inQuery)
  | index {object key : Node} (form : node.form = .index) (parts : node.children = [object, key])
      (computed : ∀ value legacy, key.form ≠ .string value legacy)
  | patternKey {isShorthand : Bool} {key : Node} {rest : List Node}
      (form : node.form = .patternProperty isShorthand) (parts : node.children = key :: rest)
      (computed : ∀ literal, ¬ key.Writes literal)
  | targetKey {key : Node} {rest : List Node} (form : node.form = .targetProperty)
      (parts : node.children = key :: rest) (computed : ∀ literal, ¬ key.Writes literal)

theorem MentionsNothing.not_mentions {node : Node} {inQuery : Prop}
    (nothing : MentionsNothing node inQuery) (m : Mention) : ¬ Mentions node inQuery m := by
  intro mentions
  cases nothing with
  | method form => cases mentions <;> simp_all
  | qualified form outside =>
    cases mentions with
    | qualified _ queried => exact outside queried
    | _ => simp_all
  | index form parts computed =>
    cases mentions with
    | index _ parts' literal =>
      obtain ⟨_, rfl⟩ : _ ∧ _ = _ := by simpa using parts.symm.trans parts'
      exact computed _ _ literal
    | _ => simp_all
  | patternKey form parts computed =>
    cases mentions with
    | patternKey _ parts' writes =>
      obtain ⟨rfl, _⟩ : _ = _ ∧ _ := by simpa using parts.symm.trans parts'
      exact computed _ writes
    | _ => simp_all
  | targetKey form parts computed =>
    cases mentions with
    | targetKey _ parts' writes =>
      obtain ⟨rfl, _⟩ : _ = _ ∧ _ := by simpa using parts.symm.trans parts'
      exact computed _ writes
    | _ => simp_all

theorem Node.Writes.keyName_eq {key : Node} {literal : KeyLiteral} (writes : key.Writes literal) :
    key.keyName? = some literal.name := by
  cases writes with
  | identifier form => simp [Node.keyName?, form, KeyLiteral.name]
  | string form => simp [Node.keyName?, form, KeyLiteral.name]
  | number form => simp [Node.keyName?, form, KeyLiteral.name]

/-- A key of a destructuring property mentions the name of the literal that it is. -/
theorem ofKey_eq_some (key : Node) (m : Mention) :
    Occurrence.ofKey key = some m ↔
      ∃ literal, key.Writes literal ∧ m = ⟨literal.name, .destructure, key.start⟩ := by
  constructor
  · intro mentioned
    unfold Occurrence.ofKey at mentioned
    split at mentioned
    · cases mentioned
    next ordinary =>
      obtain ⟨name, named, rfl⟩ := Option.map_eq_some_iff.mp mentioned
      unfold Node.keyName? at named
      split at named
      next form => cases named; exact ⟨_, .identifier form, rfl⟩
      next form => exact absurd form (ordinary _)
      next form => cases named; exact ⟨_, .string form, rfl⟩
      next form => cases named; exact ⟨_, .number form, rfl⟩
      · cases named
  · rintro ⟨literal, writes, rfl⟩
    cases writes with
    | identifier form => simp [Occurrence.ofKey, Node.keyName?, form, KeyLiteral.name]
    | string form => simp [Occurrence.ofKey, Node.keyName?, form, KeyLiteral.name]
    | number form => simp [Occurrence.ofKey, Node.keyName?, form, KeyLiteral.name]

/-- What is read off an occurrence is what its node mentions. -/
theorem mention_eq_some (occurrence : Occurrence) (m : Mention) :
    occurrence.mention? = some m ↔ Mentions occurrence.node (occurrence.inQuery = true) m := by
  constructor
  · intro mentioned
    unfold Occurrence.mention? at mentioned
    simp only at mentioned
    split at mentioned
    next form => cases mentioned; exact .member form
    next form => cases mentioned; exact .privateMember form
    next form => cases mentioned; exact .privateIn form
    next form parts =>
      split at mentioned
      next literal => cases mentioned; exact .index form parts literal
      · cases mentioned
    next form parts =>
      obtain ⟨literal, writes, rfl⟩ := (ofKey_eq_some ..).mp mentioned
      exact .patternKey form parts writes
    next form parts =>
      obtain ⟨literal, writes, rfl⟩ := (ofKey_eq_some ..).mp mentioned
      exact .targetKey form parts writes
    next form => cases mentioned; exact .targetName form
    next form parts =>
      split at mentioned
      next type written =>
        split at mentioned
        next literal => cases mentioned; exact .indexedAccess form parts type written literal
        · cases mentioned
      · cases mentioned
    next form =>
      split at mentioned
      next queried => cases mentioned; exact .qualified form queried
      · cases mentioned
    · cases mentioned
  · intro mentions
    cases mentions with
    | member form => simp [Occurrence.mention?, form]
    | privateMember form => simp [Occurrence.mention?, form]
    | privateIn form => simp [Occurrence.mention?, form]
    | index form parts literal => simp [Occurrence.mention?, form, parts, literal]
    | patternKey form parts writes =>
      simpa [Occurrence.mention?, form, parts] using (ofKey_eq_some ..).mpr ⟨_, writes, rfl⟩
    | targetKey form parts writes =>
      simpa [Occurrence.mention?, form, parts] using (ofKey_eq_some ..).mpr ⟨_, writes, rfl⟩
    | targetName form => simp [Occurrence.mention?, form]
    | indexedAccess form parts type written literal =>
      simp [Occurrence.mention?, form, parts, type, written, literal]
    | qualified form queried => simp [Occurrence.mention?, form, queried]

/-! ### Mentions by position -/

/-- The node at a position of a tree mentions a member. -/
def Node.MentionsAt (program : Node) (position : List Nat) (m : Mention) : Prop :=
  ∃ node, program.nodeAt? position = some node ∧ Mentions node (program.InQuery position) m

/-- What is read off the occurrence at a position is what is mentioned there. -/
theorem bind_mention_eq_some (program : Node) (position : List Nat) (m : Mention) :
    (program.occurrenceAt? false position).bind (·.mention?) = some m ↔
      program.MentionsAt position m := by
  classical
  simp only [Option.bind_eq_some_iff, Node.occurrenceAt?_eq_some, mention_eq_some,
    Bool.false_eq_true, false_or]
  constructor
  · rintro ⟨occurrence, ⟨found, queried⟩, mentions⟩
    rw [queried] at mentions
    exact ⟨occurrence.node, found, mentions⟩
  · rintro ⟨node, found, mentions⟩
    refine ⟨⟨node, decide (program.InQuery position)⟩, ⟨found, by simp⟩, ?_⟩
    simpa using mentions

/-- The reference for a mention in a text with the given lines. -/
def Mention.ref (lines : LineTable) (m : Mention) : MemberRef :=
  ⟨m.name, m.kind, lines.line m.place, m.place⟩

theorem Mention.ref_inj {lines : LineTable} {m n : Mention} :
    m.ref lines = n.ref lines ↔ m = n := by
  obtain ⟨name, kind, place⟩ := m
  obtain ⟨name', kind', place'⟩ := n
  simp only [Mention.ref, MemberRef.mk.injEq, Mention.mk.injEq]
  constructor
  · rintro ⟨rfl, rfl, _, rfl⟩
    exact ⟨rfl, rfl, rfl⟩
  · rintro ⟨rfl, rfl, rfl⟩
    exact ⟨rfl, rfl, rfl, rfl⟩

/-- References are the mentions in a tree, one for each position that has one, in visiting order. -/
def Node.ExactRefs (program : Node) (lines : LineTable) (refs : List MemberRef) : Prop :=
  ∃ positions : List (List Nat), positions.Pairwise (· < ·) ∧
    (∀ position, position ∈ positions ↔ ∃ m, program.MentionsAt position m) ∧
    List.Forall₂ (fun position r => ∀ m, program.MentionsAt position m ↔ r = m.ref lines)
      positions refs

/-- Among exact references is one for every mention. -/
theorem Node.ExactRefs.mem {program : Node} {lines : LineTable} {refs : List MemberRef}
    (exact_ : program.ExactRefs lines refs) {position : List Nat} {m : Mention}
    (mentions : program.MentionsAt position m) : m.ref lines ∈ refs := by
  obtain ⟨positions, increasing, listed, paired⟩ := exact_
  have member := (listed position).mpr ⟨m, mentions⟩
  clear increasing listed
  induction paired with
  | nil => cases member
  | cons same _ ih =>
    rcases List.mem_cons.mp member with rfl | later
    · exact List.mem_cons.mpr (Or.inl ((same m).mp mentions).symm)
    · exact List.mem_cons_of_mem _ (ih later)

/-- What a partial function selects from a list, beside the elements that it is selected from. -/
theorem forall₂_filterMap {α β : Type} (f : α → Option β) (xs : List α) :
    List.Forall₂ (fun x y => f x = some y) (xs.filter fun x => (f x).isSome) (xs.filterMap f) := by
  induction xs with
  | nil => exact .nil
  | cons x xs ih =>
    cases chosen : f x with
    | none => simpa [chosen] using ih
    | some y => simpa [chosen] using ih

/-- The outline of a program holds exactly the mentions in its tree. -/
theorem exactRefs_outline (path : Path) (lines : LineTable) (program : Node) :
    program.ExactRefs lines (outline path lines program).refs := by
  let refAt? (position : List Nat) : Option MemberRef :=
    ((program.occurrenceAt? false position).bind (·.mention?)).map (Mention.ref lines)
  have listed : (outline path lines program).refs = program.positions.filterMap refAt? := by
    simp only [outline, Node.occurrences_eq_positions, List.filterMap_filterMap, refAt?,
      Option.map_bind]
    rfl
  refine ⟨program.positions.filter fun position => (refAt? position).isSome,
    program.positions_pairwise.sublist List.filter_sublist, ?_, ?_⟩
  · intro position
    simp only [List.mem_filter, Node.mem_positions, refAt?, Option.isSome_map,
      Option.isSome_iff_exists, bind_mention_eq_some]
    constructor
    · rintro ⟨_, mentioned⟩
      exact mentioned
    · rintro ⟨m, node, found, mentions⟩
      exact ⟨⟨node, found⟩, m, node, found, mentions⟩
  · rw [listed]
    refine (forall₂_filterMap refAt? program.positions).imp ?_
    intro position r chosen m
    obtain ⟨mention, mentioned, rfl⟩ := Option.map_eq_some_iff.mp chosen
    rw [← bind_mention_eq_some, mentioned, Option.some.injEq, Mention.ref_inj]

end UnusedMethods.Script

namespace UnusedMethods

open Script Text

/-- The references of a text that is read are the mentions in the tree to which it is parsed: one
for each position that mentions a member, with its name, its kind and the place of the name, in
visiting order, and none for a declaration, a qualified name outside type queries or a computed
key. -/
theorem readSource_mentions_exact {path : Path} {text : String} {file : SourceFile}
    (returned : readSource path text = .ok file) :
    ∃ dialect program, Dialect.ofPath? path = some dialect ∧
      parseProgram dialect text = .ok program ∧
      program.ExactRefs (LineTable.ofBytes text.toUTF8) file.refs ∧
      ∀ position node, program.nodeAt? position = some node →
        MentionsNothing node (program.InQuery position) →
        ∀ m, ¬ program.MentionsAt position m := by
  obtain ⟨dialect, program, known, parsed, rfl⟩ := readSource_eq_ok returned
  refine ⟨dialect, program, known, parsed, exactRefs_outline path _ program, ?_⟩
  rintro position node found nothing m ⟨node', found', mentions⟩
  obtain rfl : node = node' := Option.some.inj (found.symm.trans found')
  exact nothing.not_mentions m mentions

/-- A text with keys, accesses and names in types, one of them in a type query. -/
def mixedText : String :=
  "let\x7ba,2:b\x7d=c?.d['e']as typeof f.g|H.i"

/-- The outline of the text. -/
def mixedFile : SourceFile where
  path := "/p/src/f.ts"
  classes := []
  refs := [⟨"a", .destructure, 1, 4⟩, ⟨"2", .destructure, 1, 6⟩, ⟨"e", .access, 1, 16⟩,
    ⟨"d", .access, 1, 14⟩, ⟨"g", .typeQuery, 1, 32⟩]
  imports := []
  requests := []
  exported := none
  isTarget := false

theorem readSource_mentions_exact_mixed :
    readSource "/p/src/f.ts" mixedText = .ok mixedFile ∧
      ∃ dialect program, Dialect.ofPath? "/p/src/f.ts" = some dialect ∧
        parseProgram dialect mixedText = .ok program ∧
        program.ExactRefs (LineTable.ofBytes mixedText.toUTF8) mixedFile.refs ∧
        ∀ position node, program.nodeAt? position = some node →
          MentionsNothing node (program.InQuery position) →
          ∀ m, ¬ program.MentionsAt position m := by
  have returned : readSource "/p/src/f.ts" mixedText = .ok mixedFile := by decide +kernel
  exact ⟨returned, readSource_mentions_exact returned⟩

end UnusedMethods
