import Mathlib.Data.List.Induction
import UnusedMethods.Script.Outline

/-!
# Overloaded methods

A class may declare a method by several signatures before the declaration that has a body. Of the
declarations of a class body, in order, the outline keeps those that nothing follows as another
declaration of the same method: a declaration gives way to the next one only if it has no body and
the two agree in name and in being static. So each run of signatures is kept as its implementation,
or as its last signature if there is none.

The list of kept declarations is built from its end, and only its last entry is ever replaced. That
what is kept before that entry stays as it is (`foldl_addDeclaration`) makes the collapsed list obey
an equation in the first two declarations, from which all else follows.
-/

namespace UnusedMethods.Script

open Text (LineTable)

/-! ### The declarations of a class body -/

/-- The kind of method that a member declares by its role; accessors declare none. -/
inductive MethodRole.Gives : MethodRole → MethodKind → Prop
  | method : Gives .method .method
  | constructor : Gives .constructor .constructor

/-- A member declares a method, with a body or without: it is no accessor, and its key spells the
name. -/
inductive Node.DeclaresMethod (lines : LineTable) (member : Node) : Method → Bool → Prop
  | intro {role : MethodRole} {traits : MemberTraits} {decorators key function : Node}
      {kind : MethodKind} {name : String} (form : member.form = .method role traits)
      (parts : member.children = [decorators, key, function]) (gives : role.Gives kind)
      (named : key.keyName? = some name) :
      DeclaresMethod lines member
        ⟨name, visibilityOf traits.accessibility, traits.isStatic, kind, lines.line key.start,
          key.start⟩ (function.part 4).isPresent

/-- The methods that members declare, in the order of the members. -/
inductive DeclaredIn (lines : LineTable) : List Node → List (Method × Bool) → Prop
  | nil : DeclaredIn lines [] []
  | declares {member : Node} {members : List Node} {m : Method} {hasBody : Bool}
      {declared : List (Method × Bool)} (first : member.DeclaresMethod lines m hasBody)
      (rest : DeclaredIn lines members declared) :
      DeclaredIn lines (member :: members) ((m, hasBody) :: declared)
  | passes {member : Node} {members : List Node} {declared : List (Method × Bool)}
      (first : ∀ m hasBody, ¬ member.DeclaresMethod lines m hasBody)
      (rest : DeclaredIn lines members declared) : DeclaredIn lines (member :: members) declared

theorem declaredMethod_eq_some (lines : LineTable) (member : Node) (m : Method) (hasBody : Bool) :
    declaredMethod? lines member = some (m, hasBody) ↔ member.DeclaresMethod lines m hasBody := by
  constructor
  · intro declared
    unfold declaredMethod? at declared
    split at declared
    next role traits decorators key function form parts =>
      cases role with
      | method =>
        obtain ⟨name, named, same⟩ := Option.map_eq_some_iff.mp declared
        cases same
        exact .intro form parts .method named
      | constructor =>
        obtain ⟨name, named, same⟩ := Option.map_eq_some_iff.mp declared
        cases same
        exact .intro form parts .constructor named
      | getter | setter => cases declared
    · cases declared
  · rintro ⟨form, parts, gives, named⟩
    cases gives <;> simp [declaredMethod?, form, parts, named]

theorem declaredIn_filterMap (lines : LineTable) (members : List Node) :
    DeclaredIn lines members (members.filterMap (declaredMethod? lines)) := by
  induction members with
  | nil => exact .nil
  | cons member members ih =>
    cases found : declaredMethod? lines member with
    | none =>
      rw [List.filterMap_cons_none found]
      refine .passes (fun m hasBody declares => ?_) ih
      rw [(declaredMethod_eq_some ..).mpr declares] at found
      cases found
    | some d =>
      rw [List.filterMap_cons_some found]
      exact .declares ((declaredMethod_eq_some ..).mp found) ih

/-! ### Which declarations are kept -/

/-- Two declarations are of the same method. -/
def SameMethod (a b : Method) : Prop :=
  a.name = b.name ∧ a.isStatic = b.isStatic

instance (a b : Method) : Decidable (SameMethod a b) :=
  inferInstanceAs (Decidable (_ ∧ _))

/-- A declaration gives way to the next one: it is a signature of the same method. -/
def GivesWay (d next : Method × Bool) : Prop :=
  d.2 = false ∧ SameMethod d.1 next.1

instance (d next : Method × Bool) : Decidable (GivesWay d next) :=
  inferInstanceAs (Decidable (_ ∧ _))

/-- The declaration at a position has a body, or is the last one, or is not followed by one of the
same method. -/
def Stands (declared : List (Method × Bool)) (i : Nat) : Prop :=
  ∃ d, declared[i]? = some d ∧
    (d.2 = true ∨ i + 1 = declared.length ∨
      ∃ next, declared[i + 1]? = some next ∧ ¬ SameMethod d.1 next.1)

theorem stands_succ (d : Method × Bool) (declared : List (Method × Bool)) (i : Nat) :
    Stands (d :: declared) (i + 1) ↔ Stands declared i := by
  simp [Stands]

theorem stands_single (d : Method × Bool) (i : Nat) : Stands [d] i ↔ i = 0 := by
  cases i <;> simp [Stands]

theorem stands_zero (d next : Method × Bool) (declared : List (Method × Bool)) :
    Stands (d :: next :: declared) 0 ↔ ¬ GivesWay d next := by
  cases hasBody : d.2 with
  | true => simp [Stands, GivesWay, hasBody]
  | false => simp [Stands, GivesWay, hasBody]

theorem addDeclaration_cons (last next : Method × Bool) (before : List (Method × Bool)) :
    addDeclaration (last :: before) next =
      if GivesWay last next then next :: before else next :: last :: before := by
  obtain ⟨m, hasBody⟩ := last
  simp only [addDeclaration, GivesWay, SameMethod]
  congr 1
  simp [and_comm]

/-- Only the last of the declarations that are kept so far matters for what follows. -/
theorem foldl_addDeclaration (declared : List (Method × Bool)) (last : Method × Bool)
    (before : List (Method × Bool)) :
    declared.foldl addDeclaration (last :: before) =
      declared.foldl addDeclaration [last] ++ before := by
  induction declared generalizing last before with
  | nil => rfl
  | cons next declared ih =>
    rw [List.foldl_cons, List.foldl_cons, addDeclaration_cons, addDeclaration_cons]
    by_cases way : GivesWay last next
    · simp only [way, if_true]
      exact ih next before
    · simp only [way, if_false]
      rw [ih next (last :: before), ih next [last], List.append_assoc]
      rfl

theorem collapse_single (d : Method × Bool) : collapseOverloads [d] = [d.1] := rfl

/-- The first declaration is dropped if it gives way to the second, and kept otherwise. -/
theorem collapse_cons_cons (d next : Method × Bool) (declared : List (Method × Bool)) :
    collapseOverloads (d :: next :: declared) =
      if GivesWay d next then collapseOverloads (next :: declared)
      else d.1 :: collapseOverloads (next :: declared) := by
  have first (e : Method × Bool) : addDeclaration [] e = [e] := rfl
  simp only [collapseOverloads, List.foldl_cons, first, addDeclaration_cons]
  by_cases way : GivesWay d next
  · simp [way]
  · simp [way, foldl_addDeclaration declared next [d]]

/-- The kept declarations are those that stand, in order. -/
theorem exists_kept (declared : List (Method × Bool)) :
    ∃ kept : List Nat, kept.Pairwise (· < ·) ∧ (∀ i, i ∈ kept ↔ Stands declared i) ∧
      collapseOverloads declared = kept.filterMap fun i => declared[i]?.map (·.1) := by
  induction declared with
  | nil => exact ⟨[], .nil, by simp [Stands], rfl⟩
  | cons d rest ih =>
    cases rest with
    | nil => exact ⟨[0], by simp, by simp [stands_single], rfl⟩
    | cons next rest =>
      obtain ⟨kept, increasing, stands, equal⟩ := ih
      -- The positions move up by one, and the first is added if it stands.
      have later : (kept.map (· + 1)).Pairwise (· < ·) :=
        List.pairwise_map.mpr (increasing.imp Nat.succ_lt_succ)
      have moved (i : Nat) : i + 1 ∈ kept.map (· + 1) ↔ Stands (d :: next :: rest) (i + 1) := by
        rw [stands_succ, ← stands]
        simp
      have entries : (kept.map (· + 1)).filterMap
          (fun i => (d :: next :: rest)[i]?.map (·.1)) = collapseOverloads (next :: rest) := by
        rw [equal, List.filterMap_map]
        rfl
      rw [collapse_cons_cons]
      by_cases way : GivesWay d next
      · refine ⟨kept.map (· + 1), later, fun i => ?_, by simp only [way, if_true, entries]⟩
        cases i with
        | zero => simp [stands_zero, way]
        | succ i => exact moved i
      · refine ⟨0 :: kept.map (· + 1), List.pairwise_cons.mpr ⟨by simp, later⟩, fun i => ?_, ?_⟩
        · cases i with
          | zero => simp [stands_zero, way]
          | succ i => simp [← moved i]
        · simp only [way, if_false, List.filterMap_cons, entries]
          rfl

/-! ### Runs of signatures -/

/-- Between declarations of which the first does not give way, the list is cut in two. -/
theorem collapse_append (before : List (Method × Bool)) {d next : Method × Bool}
    (apart : ¬ GivesWay d next) (after : List (Method × Bool)) :
    collapseOverloads (before ++ d :: next :: after) =
      collapseOverloads (before ++ [d]) ++ collapseOverloads (next :: after) := by
  induction before with
  | nil => simp [collapse_cons_cons, apart, collapse_single]
  | cons b before ih =>
    -- What comes right after `b` is the same on both sides, so `b` is kept on both or on none.
    cases before with
    | nil =>
      simp only [List.cons_append, List.nil_append] at ih ⊢
      rw [collapse_cons_cons b d, collapse_cons_cons b d, ih]
      split <;> rfl
    | cons c before =>
      simp only [List.cons_append] at ih ⊢
      rw [collapse_cons_cons b c, collapse_cons_cons b c, ih]
      split <;> rfl

theorem collapse_signature (before : List (Method × Bool)) {s last : Method × Bool}
    (way : GivesWay s last) (after : List (Method × Bool)) :
    collapseOverloads (before ++ s :: last :: after) =
      collapseOverloads (before ++ last :: after) := by
  induction before with
  | nil => simp [collapse_cons_cons, way]
  | cons b before ih =>
    cases before with
    | nil =>
      -- A declaration gives way to both or to none, since the two are of one method.
      have same : GivesWay b s ↔ GivesWay b last := by
        obtain ⟨_, name, isStatic⟩ := way
        simp [GivesWay, SameMethod, name, isStatic]
      simp only [List.cons_append, List.nil_append] at ih ⊢
      rw [collapse_cons_cons b s, collapse_cons_cons b last, ih]
      simp only [same]
    | cons c before =>
      simp only [List.cons_append] at ih ⊢
      rw [collapse_cons_cons b c, collapse_cons_cons b c, ih]

/-- Signatures count for nothing before another declaration of their method. -/
theorem collapse_signatures (before signatures : List (Method × Bool)) (last : Method × Bool)
    (after : List (Method × Bool)) (overloads : ∀ s ∈ signatures, GivesWay s last) :
    collapseOverloads (before ++ signatures ++ last :: after) =
      collapseOverloads (before ++ last :: after) := by
  -- The signature next to the body gives way, and the one before it then stands there.
  induction signatures using List.reverseRecOn with
  | nil => simp
  | append_singleton signatures s ih =>
    have way : GivesWay s last := overloads s (by simp)
    calc collapseOverloads (before ++ (signatures ++ [s]) ++ last :: after)
        = collapseOverloads (before ++ signatures ++ s :: last :: after) := by simp
      _ = collapseOverloads (before ++ signatures ++ last :: after) :=
          collapse_signature _ way after
      _ = collapseOverloads (before ++ last :: after) :=
          ih fun s member => overloads s (List.mem_append_left _ member)

/-- No declaration with a body is dropped. -/
theorem bodies_sublist (declared : List (Method × Bool)) :
    ((declared.filter (·.2)).map (·.1)).Sublist (collapseOverloads declared) := by
  induction declared with
  | nil => simp
  | cons d rest ih =>
    cases rest with
    | nil => cases hasBody : d.2 <;> simp [hasBody, collapse_single]
    | cons next rest =>
      rw [collapse_cons_cons]
      by_cases way : GivesWay d next
      -- Only a signature gives way, and a signature is not among the bodies.
      · have noBody : d.2 = false := way.1
        simpa [way, List.filter_cons, noBody] using ih
      · simp only [way, if_false]
        cases hasBody : d.2 with
        | true =>
          rw [List.filter_cons_of_pos hasBody, List.map_cons]
          exact ih.cons_cons d.1
        | false =>
          rw [List.filter_cons_of_neg (by simp [hasBody])]
          exact ih.cons d.1

/-- A class has methods that a member of its body declares only. -/
theorem mem_declared_of_mem_methods {lines : LineTable} {node : Node} {m : Method}
    (member : m ∈ (classOutline lines node).methods) :
    ∃ part ∈ (node.part 6).children, ∃ hasBody, part.DeclaresMethod lines m hasBody := by
  obtain ⟨kept, _, _, listed⟩ :=
    exists_kept ((node.part 6).children.filterMap (declaredMethod? lines))
  rw [classOutline, listed] at member
  obtain ⟨i, _, at_⟩ := List.mem_filterMap.mp member
  obtain ⟨⟨_, hasBody⟩, found, rfl⟩ := Option.map_eq_some_iff.mp at_
  obtain ⟨part, inBody, declared⟩ := List.mem_filterMap.mp (List.mem_of_getElem? found)
  exact ⟨part, inBody, hasBody, (declaredMethod_eq_some ..).mp declared⟩

/-- Of the methods that a class body declares, accessors and unnamed ones apart, the class has those
whose declaration has a body, is the last, or is not followed by one of the same method. A run of
signatures is kept as what follows it, no body is lost, and a static method and a method of
instances do not stand for each other. -/
theorem classOutline_methods (lines : LineTable) (node : Node) :
    ∃ declared, DeclaredIn lines (node.part 6).children declared ∧
      (∃ kept : List Nat, kept.Pairwise (· < ·) ∧ (∀ i, i ∈ kept ↔ Stands declared i) ∧
        (classOutline lines node).methods = kept.filterMap fun i => declared[i]?.map (·.1)) ∧
      (∀ before signatures last after, declared = before ++ signatures ++ last :: after →
        (∀ s ∈ signatures, s.2 = false ∧ SameMethod s.1 last.1) →
        (classOutline lines node).methods = collapseOverloads (before ++ last :: after)) ∧
      ((declared.filter (·.2)).map (·.1)).Sublist (classOutline lines node).methods ∧
      ∀ before d next after, declared = before ++ d :: next :: after →
        d.1.isStatic ≠ next.1.isStatic →
        (classOutline lines node).methods =
          collapseOverloads (before ++ [d]) ++ collapseOverloads (next :: after) := by
  refine ⟨_, declaredIn_filterMap lines (node.part 6).children, exists_kept _, ?_,
    bodies_sublist _, ?_⟩
  · intro before signatures last after split overloads
    rw [← collapse_signatures before signatures last after overloads, ← split]
    rfl
  · intro before d next after split apart
    -- A static method and one of instances are never each other's overloads.
    have stays : ¬ GivesWay d next := fun way => apart way.2.2
    rw [← collapse_append before stays after, ← split]
    rfl

end UnusedMethods.Script
