import UnusedMethods.Proofs.LoadedPaths
import UnusedMethods.Proofs.Outcome

/-!
# One tree at two places

A tree that lies below two directories, on one disk or on two, is seen alike from both: the same
names lead to the same entries. Paths are paired by the names that lead to them from their
directory.
-/

namespace UnusedMethods

/-! ### Paths below two directories -/

namespace Path

/-- Two paths to which the same names lead, each from its own directory. -/
def SamePlace (home home' : List String) (p p' : Path) : Prop :=
  ∃ names, (∀ n ∈ names, IsName n) ∧ p = ofNames (home ++ names) ∧ p' = ofNames (home' ++ names)

/-- Two paths to which the same names lead, at least one, each from its own directory. -/
def SameBelow (home home' : List String) (p p' : Path) : Prop :=
  ∃ names, names ≠ [] ∧ (∀ n ∈ names, IsName n) ∧ p = ofNames (home ++ names) ∧
    p' = ofNames (home' ++ names)

variable {home home' : List String} {p p' q q' : Path}

theorem SameBelow.samePlace (below : SameBelow home home' p p') : SamePlace home home' p p' := by
  obtain ⟨names, _, all, here, there⟩ := below
  exact ⟨names, all, here, there⟩

theorem samePlace_home (home home' : List String) :
    SamePlace home home' (ofNames home) (ofNames home') :=
  ⟨[], by simp, by simp, by simp⟩

theorem SamePlace.join (place : SamePlace home home' p p') {name : String} (proper : IsName name) :
    SameBelow home home' (join p name) (join p' name) := by
  obtain ⟨names, all, rfl, rfl⟩ := place
  refine ⟨names ++ [name], by simp, ?_, ?_, ?_⟩
  · intro n member
    rcases List.mem_append.mp member with old | new
    · exact all n old
    · exact List.mem_singleton.mp new ▸ proper
  · rw [← List.append_assoc, ofNames_concat]
  · rw [← List.append_assoc, ofNames_concat]

end Path

/-! ### Entries below two directories -/

namespace Disk

/-- Two directories, each on its disk, below which the same names lead to the same entries. -/
structure SameTree (disk disk' : Disk) (home home' : List String) : Prop where
  proper : ∀ n ∈ home, Path.IsName n
  proper' : ∀ n ∈ home', Path.IsName n
  isDir : disk.hasDir (Path.ofNames home) = true
  same : ∀ names, (∀ n ∈ names, Path.IsName n) →
    SucceedTogether Eq (disk.entry (Path.ofNames (home ++ names)))
      (disk'.entry (Path.ofNames (home' ++ names)))

namespace SameTree

variable {disk disk' : Disk} {home home' : List String} {p p' : Path}

theorem entry (tree : SameTree disk disk' home home') (place : Path.SamePlace home home' p p') :
    SucceedTogether Eq (disk.entry p) (disk'.entry p') := by
  obtain ⟨names, all, rfl, rfl⟩ := place
  exact tree.same names all

theorem hasFile (tree : SameTree disk disk' home home') (place : Path.SamePlace home home' p p') :
    disk.hasFile p = disk'.hasFile p' := by
  rcases (tree.entry place).eq_or with ⟨_, _, leads, leads'⟩ | ⟨found, leads, leads'⟩
  · rw [Disk.hasFile, Disk.hasFile, leads, leads']
  · rw [Disk.hasFile, Disk.hasFile, leads, leads']

theorem hasDir (tree : SameTree disk disk' home home') (place : Path.SamePlace home home' p p') :
    disk.hasDir p = disk'.hasDir p' := by
  rcases (tree.entry place).eq_or with ⟨_, _, leads, leads'⟩ | ⟨found, leads, leads'⟩
  · rw [Disk.hasDir, Disk.hasDir, leads, leads']
  · rw [Disk.hasDir, Disk.hasDir, leads, leads']

theorem isDir' (tree : SameTree disk disk' home home') :
    disk'.hasDir (Path.ofNames home') = true := by
  rw [← tree.hasDir (Path.samePlace_home home home'), tree.isDir]

end SameTree

/-! ### Trees without links -/

/-- A path of names that is not refused for its text. -/
def fits (names : List String) : Bool :=
  !(Path.ofNames names).toList.contains '\x00' &&
    decide ((Path.ofNames names).utf8ByteSize < pathLimit) &&
    names.all fun name => decide (name.utf8ByteSize ≤ nameLimit)

theorem fits_iff (names : List String) :
    fits names = true ↔ '\x00' ∉ (Path.ofNames names).toList ∧
      (Path.ofNames names).utf8ByteSize < pathLimit ∧
      ∀ name ∈ names, name.utf8ByteSize ≤ nameLimit := by
  simp [fits, and_assoc]

end Disk

namespace Entry

/-- A link. -/
def isLink : Entry → Bool
  | link _ => true
  | _ => false

mutual

/-- All lists of names that lead from an entry to it or to one below it. -/
def paths : Entry → List (List String)
  | .file _ => [[]]
  | .link _ => [[]]
  | .closed .. => [[]]
  | .dir entries => [] :: pathsIn entries

/-- All lists of names that lead from a directory to what is below it. -/
def pathsIn : List (String × Entry) → List (List String)
  | [] => []
  | (name, entry) :: rest => entry.paths.map (name :: ·) ++ pathsIn rest

end

theorem mem_pathsIn {entries : List (String × Entry)} {name : String} {child : Entry}
    (listed : (name, child) ∈ entries) {names : List String} (member : names ∈ child.paths) :
    name :: names ∈ pathsIn entries := by
  induction entries with
  | nil => cases listed
  | cons first entries ih =>
    obtain ⟨other, entry⟩ := first
    rw [pathsIn, List.mem_append]
    rcases List.mem_cons.mp listed with same | later
    · cases same
      exact .inl (List.mem_map_of_mem member)
    · exact .inr (ih later)

theorem mem_paths_of_descend {entry found : Entry} {names : List String}
    (descended : entry.descend? names = some found) : names ∈ entry.paths := by
  induction names generalizing entry with
  | nil => cases entry <;> simp [paths]
  | cons name names ih =>
    obtain ⟨child, present, rest⟩ := Option.bind_eq_some_iff.mp descended
    cases entry with
    | file bytes => cases present
    | link target => cases present
    | closed isDir why => cases present
    | dir entries => exact List.mem_cons_of_mem _ (mem_pathsIn (mem_of_lookup present) (ih rest))

/-- No link lies in the tree. -/
def linkFree (entry : Entry) : Bool :=
  entry.paths.all fun names => !(entry.descend? names).any isLink

theorem descend_ne_link {entry : Entry} (free : entry.linkFree = true) (names : List String)
    (target : Path) : entry.descend? names ≠ some (.link target) := by
  intro descended
  have checked := List.all_eq_true.mp free names (mem_paths_of_descend descended)
  simp [descended, isLink] at checked

end Entry

theorem Entry.descend_append (entry : Entry) (names more : List String) :
    entry.descend? (names ++ more) = (entry.descend? names).bind (·.descend? more) := by
  induction names generalizing entry with
  | nil => rfl
  | cons name names ih =>
    rw [List.cons_append, descend?, descend?]
    cases entry.child? name with
    | none => rfl
    | some child => exact ih child

namespace Disk

/-- Where no link lies on the way, names are followed as they stand. -/
theorem followWith_names (root : Entry)
    (jump : List String → List String → Except Trouble (List String)) (names at_ : List String)
    (start : Entry) (here : root.descend? at_.reverse = some start)
    (all : ∀ n ∈ names, Path.IsName n)
    (clear : ∀ before, before <+: names → ∀ target, start.descend? before ≠ some (.link target))
    (fits : ∀ found, start.descend? names = some found → ∀ n ∈ names, n.utf8ByteSize ≤ nameLimit) :
    (followWith root true jump at_ names).toOption =
      (start.descend? names).map fun _ => names.reverse ++ at_ := by
  induction names generalizing at_ start with
  | nil => rfl
  | cons name names ih =>
    have proper := all name List.mem_cons_self
    rw [followWith, here]
    cases start with
    | file bytes => rfl
    | link target => exact absurd rfl (clear [] List.nil_prefix target)
    | closed isDir why => cases isDir <;> rfl
    | dir entries =>
      have step : ¬ (name == "" || name == ".") = true := by
        simpa [Path.isStep] using proper.step
      have down : ¬ (name == "..") = true := by
        simpa using proper.down
      have descended : (Entry.dir entries).descend? (name :: names) =
          (entries.lookup name).bind (·.descend? names) := rfl
      simp only [step, down, Bool.false_eq_true, if_false]
      split
      next long =>
        -- A name that is too long is not on the tree.
        cases found : (Entry.dir entries).descend? (name :: names) with
        | none => rfl
        | some found' =>
          exact absurd (fits _ found name List.mem_cons_self) (Nat.not_le.mpr long)
      · rw [descended]
        cases child : entries.lookup name with
        | none => rfl
        | some child' =>
          have below : root.descend? (name :: at_).reverse = some child' := by
            rw [List.reverse_cons, Entry.descend_append, here]
            simp [Entry.descend?, Entry.child?, child]
          have onward := ih (name :: at_) child' below
            (fun n member => all n (List.mem_cons_of_mem _ member))
            (fun before within target => by
              have cleared :=
                clear (name :: before) (List.cons_prefix_cons.mpr ⟨rfl, within⟩) target
              simpa [Entry.descend?, Entry.child?, child] using cleared)
            (fun found there n member => fits found (by simpa [descended, child] using there) n
              (List.mem_cons_of_mem _ member))
          cases child' with
          | link target =>
            have cleared := clear [name] (List.cons_prefix_cons.mpr ⟨rfl, List.nil_prefix⟩) target
            simp [Entry.descend?, Entry.child?, child] at cleared
          | file bytes => simpa using onward
          | dir inside => simpa using onward
          | closed isDir why => simpa using onward

theorem followWith_segments (root : Entry) (rooted : ∃ entries, root = .dir entries)
    (jump : List String → List String → Except Trouble (List String)) (names : List String)
    (all : ∀ n ∈ names, Path.IsName n) :
    followWith root true jump [] (Path.segments (Path.ofNames names)) =
      followWith root true jump [] names := by
  -- The slash in front, and the one at the end of the root's own path, lead nowhere else.
  have skip (segments : List String) :
      followWith root true jump [] ("" :: segments) = followWith root true jump [] segments := by
    obtain ⟨entries, rfl⟩ := rooted
    simp [followWith, Entry.descend?]
  cases names using List.reverseRecOn with
  | nil =>
    have segments : Path.segments (Path.ofNames []) = ["", ""] := by decide +kernel
    rw [segments, skip, skip]
  | append_singleton names name => rw [Path.segments_ofNames names name all, skip]

section

variable (disk : Disk) (rooted : ∃ entries, disk.root = .dir entries) (names : List String)
  (all : ∀ n ∈ names, Path.IsName n)
  (clear : ∀ before, before <+: names → ∀ target, disk.root.descend? before ≠ some (.link target))
  (fit : ∀ found, disk.root.descend? names = some found → fits names = true)
include rooted all clear fit

theorem resolve_ofNames :
    (disk.resolve true (Path.ofNames names)).toOption =
      (disk.root.descend? names).map fun _ => names := by
  obtain ⟨jump, followed⟩ : ∃ jump,
      follow disk.root true linkLimit = followWith disk.root true jump := ⟨_, rfl⟩
  -- What the links lead to does not matter, since there are none on the way.
  have walked := followWith_names disk.root jump names [] disk.root rfl all clear
    fun found there => ((fits_iff names).mp (fit found there)).2.2
  rw [List.append_nil] at walked
  -- A text that is refused does not lead anywhere on the tree either.
  have nowhere (refused : ¬ fits names = true) : disk.root.descend? names = none := by
    cases found : disk.root.descend? names with
    | none => rfl
    | some found' => exact absurd (fit found' found) refused
  rw [fits_iff] at nowhere
  have written : (Path.ofNames names).isEmpty = false := by
    obtain ⟨rest, text⟩ := (Path.isAbsolute_iff _).mp (Path.isAbsolute_ofNames names)
    rw [text]
    simp
  simp only [resolve, Path.isAbsolute_ofNames, if_true, followed, written, Bool.false_eq_true,
    if_false, followWith_segments disk.root rooted jump names all]
  split
  next nul =>
    rw [nowhere fun fine => fine.1 (by simpa using nul)]
    rfl
  · split
    next long =>
      rw [nowhere fun fine => Nat.not_le.mpr fine.2.1 long]
      rfl
    · rw [toOption_map, walked, Option.map_map]
      simp only [Function.comp_def, List.reverse_reverse]

/-- Where no link lies on the way, a path of names leads where the names lead. -/
theorem entry_ofNames :
    (disk.entry (Path.ofNames names)).toOption = disk.root.descend? names := by
  rw [entry, toOption_bind, resolve_ofNames disk rooted names all clear fit]
  cases found : disk.root.descend? names with
  | none => rfl
  | some found' =>
    rw [Option.map_some, Option.bind_some, found]
    rfl

end

/-- A directory holds a tree, all paths of which can be used. -/
structure Holds (disk : Disk) (home : List String) (tree : Entry) : Prop where
  rooted : ∃ entries, disk.root = .dir entries
  proper : ∀ n ∈ home, Path.IsName n
  there : disk.root.descend? home = some tree
  fit : tree.paths.all (fun names => fits (home ++ names)) = true

theorem Holds.entry {disk : Disk} {home : List String} {tree : Entry} (holds : disk.Holds home tree)
    (free : tree.linkFree = true) (names : List String) (all : ∀ n ∈ names, Path.IsName n) :
    (disk.entry (Path.ofNames (home ++ names))).toOption = tree.descend? names := by
  have descended (below : List String) :
      disk.root.descend? (home ++ below) = tree.descend? below := by
    rw [Entry.descend_append, holds.there, Option.bind_some]
  rw [← descended]
  apply entry_ofNames disk holds.rooted
  · exact List.forall_mem_append.mpr ⟨holds.proper, all⟩
  · intro before within target link
    rcases List.prefix_or_prefix_of_prefix within (List.prefix_append home names) with
      ⟨rest, whole⟩ | ⟨below, rfl⟩
    · -- No names lead on from a link, and the tree itself is none.
      have there := holds.there
      rw [← whole, Entry.descend_append, link, Option.bind_some] at there
      cases rest with
      | nil => exact Entry.descend_ne_link free [] target there.symm
      | cons name rest => simp [Entry.descend?, Entry.child?] at there
    · exact Entry.descend_ne_link free below target (by rw [← descended, link])
  · intro found there
    rw [descended] at there
    exact List.all_eq_true.mp holds.fit names (Entry.mem_paths_of_descend there)

/-- A tree without links that two directories hold is seen alike from both. -/
theorem SameTree.of_holds {disk disk' : Disk} {home home' : List String} {tree : Entry}
    (isDir : tree.isDir = true) (free : tree.linkFree = true) (holds : disk.Holds home tree)
    (holds' : disk'.Holds home' tree) : SameTree disk disk' home home' where
  proper := holds.proper
  proper' := holds'.proper
  isDir := by
    have leads := holds.entry free [] (by simp)
    rw [List.append_nil] at leads
    rw [Disk.hasDir]
    cases found : disk.entry (Path.ofNames home) with
    | error trouble => simp [found, Except.toOption, Entry.descend?] at leads
    | ok entry =>
      simp only [found, Except.toOption, Entry.descend?, Option.some.injEq] at leads
      rw [leads]
      exact isDir
  same := fun names all =>
    .of_toOption ((holds.entry free names all).trans (holds'.entry free names all).symm)

end Disk

end UnusedMethods
