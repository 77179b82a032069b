import UnusedMethods.Proofs.ExcludedDirectories

/-!
# The order of gathered files

A walk sorts the entries of each directory, files before directories and both by name. So the files
below a base come in one order, which compares their names from the base on. The files of a project
are the listed ones, then one block in this order for each base that is walked, and no file comes
twice.
-/

namespace UnusedMethods

/-! ### Texts by their bytes -/

namespace Glob

/-- A smaller character is encoded by smaller bytes, whatever follows. -/
theorem utf8EncodeChar_lt {c d : Char} (less : c < d) (xs ys : List UInt8) :
    String.utf8EncodeChar c ++ xs < String.utf8EncodeChar d ++ ys := by
  have values : c.val.toNat < d.val.toNat := less
  have top : d.val.toNat < 1114112 := by
    have valid := d.valid
    unfold UInt32.isValidChar Nat.isValidChar at valid
    omega
  -- The bytes hold the digits of the value to the base 64.
  have digits (v : Nat) : v / 262144 = v / 4096 / 64 ∧ v / 4096 = v / 64 / 64 := by omega
  have first := digits c.val.toNat
  have second := digits d.val.toNat
  simp only [String.utf8EncodeChar]
  generalize c.val.toNat = v at *
  generalize d.val.toNat = w at *
  split_ifs
  all_goals
    simp (disch := omega) only [List.cons_append, List.nil_append, List.cons_lt_cons_iff,
      UInt8.lt_iff_toNat_lt, ← UInt8.toNat_inj, UInt8.toNat_ofNat', Nat.reducePow,
      Nat.mod_eq_of_lt]
    omega

theorem bytesOf_eq_flatMap (text : String) :
    bytesOf text = text.toList.flatMap String.utf8EncodeChar :=
  Text.toList_toUTF8 text

theorem append_lt_append (front : List UInt8) {xs ys : List UInt8} (less : xs < ys) :
    front ++ xs < front ++ ys := by
  induction front with
  | nil => exact less
  | cons b front ih => exact List.cons_lt_cons_iff.mpr (.inr ⟨rfl, ih⟩)

/-- A smaller text has smaller bytes. -/
theorem bytesOf_lt {text other : String} (less : text < other) : bytesOf text < bytesOf other := by
  rw [bytesOf_eq_flatMap, bytesOf_eq_flatMap]
  have letters : List.Lex (· < ·) text.toList other.toList := String.lt_iff.mp less
  generalize text.toList = cs at letters
  generalize other.toList = ds at letters
  induction letters with
  | @nil d ds =>
    rw [List.flatMap_nil, List.flatMap_cons]
    cases bytes : String.utf8EncodeChar d with
    | nil => exact absurd bytes String.utf8EncodeChar_ne_nil
    | cons b bs => exact List.nil_lt_cons b _
  | @cons c cs ds _ ih =>
    rw [List.flatMap_cons, List.flatMap_cons]
    exact append_lt_append _ ih
  | rel less =>
    rw [List.flatMap_cons, List.flatMap_cons]
    exact utf8EncodeChar_lt less _ _

end Glob

/-! ### The order of files below a base -/

namespace Path

/-- Names that lead to files, in the order of a walk. At the first difference a name that is the
file itself comes before one that is a directory, and otherwise the one with smaller bytes. -/
def NamesBefore : List String → List String → Prop
  | a :: names, b :: others =>
    if a = b then NamesBefore names others
    else if names.isEmpty = others.isEmpty then Glob.bytesOf a < Glob.bytesOf b
    else names.isEmpty = true
  | _, _ => False

theorem NamesBefore.irrefl (names : List String) : ¬ NamesBefore names names := by
  induction names with
  | nil => simp [NamesBefore]
  | cons a names ih => simpa [NamesBefore] using ih

/-- Two files below a base, in the order of a walk. -/
def Before (base p q : Path) : Prop :=
  ∃ names others, (∀ n ∈ names, IsName n) ∧ (∀ n ∈ others, IsName n) ∧
    p = base.below names ∧ q = base.below others ∧ NamesBefore names others

theorem Before.of_join {base p q : Path} {name : String} (proper : IsName name)
    (before : Before (join base name) p q) : Before base p q := by
  obtain ⟨names, others, all, allOthers, rfl, rfl, less⟩ := before
  refine ⟨name :: names, name :: others, List.forall_mem_cons.mpr ⟨proper, all⟩,
    List.forall_mem_cons.mpr ⟨proper, allOthers⟩, rfl, rfl, ?_⟩
  simpa [NamesBefore] using less

theorem Before.key_ne {base p q : Path} (written : base ≠ "") (before : Before base p q) :
    p.key ≠ q.key := by
  obtain ⟨names, others, all, allOthers, rfl, rfl, less⟩ := before
  rw [Ne, key_below_inj written all allOthers]
  rintro rfl
  exact NamesBefore.irrefl names less

end Path

/-! ### Sorted directories -/

/-- An entry of a directory with its files in order, each below the entry's name. -/
structure Found.Sorted (path : Path) (found : Found) : Prop where
  named : Path.IsName found.name
  sorted : ∀ files, found.files = .ok files → files.Pairwise (Path.Before path)
  below : ∀ files, found.files = .ok files → ∀ p ∈ files, ∃ names, (∀ n ∈ names, Path.IsName n) ∧
    p = path.below (found.name :: names) ∧ names.isEmpty = !found.isDir

namespace Found

theorem precedes_trans (a b c : Found) (first : precedes a b = true)
    (second : precedes b c = true) :
    precedes a c = true := by
  unfold precedes at *
  cases ha : a.isDir <;> cases hb : b.isDir <;> cases hc : c.isDir <;>
    simp only [ha, hb, hc, BEq.rfl, if_true, Bool.not_false, Bool.not_true, decide_eq_true_eq,
      reduceCtorEq, beq_iff_eq, if_false] at *
  · exact String.le_trans first second
  · exact String.le_trans first second

theorem precedes_total (a b : Found) : (precedes a b || precedes b a) = true := by
  unfold precedes
  cases ha : a.isDir <;> cases hb : b.isDir <;> simp [String.le_total]

/-- The files of an entry come before those of one that follows it under another name. -/
theorem Sorted.before {path : Path} {found other : Found} (sorted : found.Sorted path)
    (sortedOther : other.Sorted path) (order : precedes found other = true)
    (differ : found.name ≠ other.name) {files others : List Path} (met : found.files = .ok files)
    (metOther : other.files = .ok others) {p q : Path} (first : p ∈ files) (second : q ∈ others) :
    Path.Before path p q := by
  obtain ⟨names, all, rfl, file⟩ := sorted.below files met p first
  obtain ⟨namesOther, allOther, rfl, fileOther⟩ := sortedOther.below others metOther q second
  refine ⟨_, _, List.forall_mem_cons.mpr ⟨sorted.named, all⟩,
    List.forall_mem_cons.mpr ⟨sortedOther.named, allOther⟩, rfl, rfl, ?_⟩
  rw [Path.NamesBefore, if_neg differ, file, fileOther]
  unfold precedes at order
  -- Two entries of one kind stand by their names, and of two kinds the file stands first.
  by_cases kind : found.isDir = other.isDir
  · simp only [kind, BEq.rfl, if_true, decide_eq_true_eq] at order ⊢
    apply Glob.bytesOf_lt
    by_contra smaller
    exact differ (String.le_antisymm order smaller)
  · have parts : (found.isDir == other.isDir) = false := by simpa using kind
    rw [parts] at order
    rw [if_neg (by simpa using kind)]
    simpa using order

theorem pairwise_files_mergeSort {path : Path} {founds : List Found}
    (sorted : ∀ found ∈ founds, found.Sorted path) (different : (founds.map name).Nodup)
    {lists : List (List Path)}
    (traversed : (founds.mergeSort precedes).mapM (·.files) = .ok lists) :
    lists.flatten.Pairwise (Path.Before path) := by
  have all : ∀ found ∈ founds.mergeSort precedes, found.Sorted path :=
    fun found member => sorted found (List.mem_mergeSort.mp member)
  have ordered := List.pairwise_mergeSort precedes_trans precedes_total founds
  have apart : (founds.mergeSort precedes).Pairwise fun a b => a.name ≠ b.name := by
    rw [← List.pairwise_map (f := name) (R := (· ≠ ·))]
    exact ((List.mergeSort_perm founds precedes).map name).nodup_iff.mpr different
  -- Two entries of one name would each precede the other, so the names must differ as well.
  have both := List.Pairwise.and ordered apart
  apply pairwise_flatten_of_mapM traversed
  · exact fun found member => (all found member).sorted
  · refine List.Pairwise.imp_of_mem ?_ both
    intro a b first second order files others met metOther p inA q inB
    exact (all a first).before (all b second) order.1 order.2 met metOther inA inB

end Found

namespace Entry

/-- No two entries of a directory have the same name. -/
def Unambiguous (entry : Entry) : Prop :=
  ∀ names entries, entry.descend? names = some (.dir entries) → (entries.map Prod.fst).Nodup

/-- The names in an entry are different, if it is a directory. -/
def namesOnce : Entry → Bool
  | .dir entries => decide (entries.map Prod.fst).Nodup
  | _ => true

instance (entry : Entry) : Decidable entry.Unambiguous :=
  decidable_of_iff (∀ names ∈ entry.paths, (entry.descend? names).all namesOnce = true) <| by
    constructor
    · intro checked names entries descended
      have once := checked names (mem_paths_of_descend descended)
      simpa [descended, namesOnce] using once
    · intro single names _
      cases descended : entry.descend? names with
      | none => rfl
      | some found =>
        cases found with
        | dir entries => simpa [namesOnce] using single names entries descended
        | file bytes => rfl
        | link target => rfl
        | closed isDir why => rfl

theorem Unambiguous.of_descend {entry found : Entry} (single : entry.Unambiguous)
    (names : List String) (descended : entry.descend? names = some found) :
    found.Unambiguous := by
  intro more entries below
  apply single (names ++ more) entries
  rw [descend_append, descended, Option.bind_some, below]

theorem lookup_of_mem {entries : List (String × Entry)} (different : (entries.map Prod.fst).Nodup)
    {name : String} {child : Entry} (listed : (name, child) ∈ entries) :
    entries.lookup name = some child := by
  obtain ⟨before, after, rfl⟩ := List.append_of_mem listed
  refine List.lookup_eq_some_iff.mpr ⟨before, after, rfl, ?_⟩
  intro other member
  rw [List.map_append, List.map_cons, List.nodup_append'] at different
  simp only [bne_iff_ne]
  rintro rfl
  exact different.2.2 (List.mem_map_of_mem member) List.mem_cons_self

theorem Unambiguous.of_mem {entries : List (String × Entry)}
    (single : (Entry.dir entries).Unambiguous) {name : String} {child : Entry}
    (listed : (name, child) ∈ entries) : child.Unambiguous := by
  apply single.of_descend [name]
  simp [descend?, child?, lookup_of_mem (single [] entries rfl) listed]

variable {opens : Path → Except Failure Unit} {enters : Path → String → Bool}

/-- What is found at an entry has its files in order if the walk there has. -/
theorem found_sorted {path : Path} {name : String} (named : Path.IsName name) {child : Entry}
    (proper : child.Proper)
    (ordered : ∀ files, child.walk opens enters (Path.join path name) = .ok files →
      files.Pairwise (Path.Before (Path.join path name))) :
    (found opens enters path (name, child)).Sorted path := by
  refine ⟨named, fun files met => ?_, fun files met p member => ?_⟩
  · rcases found_files opens enters path name child with ⟨_, same⟩ | ⟨_, _, nothing⟩
    · exact (ordered files (same.symm.trans met)).imp fun before => before.of_join named
    · cases nothing.symm.trans met
      exact .nil
  · rcases found_files opens enters path name child with ⟨_, same⟩ | ⟨_, _, nothing⟩
    · obtain ⟨names, walks, rfl⟩ := (mem_walk (same.symm.trans met) p).mp member
      refine ⟨names, walks.proper proper, rfl, ?_⟩
      -- A file is reached by its own name alone, what lies in a directory by more names.
      cases isDir : child.isDir with
      | true => simpa [found, isDir] using walks.ne_nil isDir
      | false =>
        obtain ⟨_, _ | _, _⟩ := walks
        · simp [found, isDir]
        · cases isDir
    · cases nothing.symm.trans met
      cases member

/-- A walk meets the files in their order below the path where it starts. -/
theorem walk_pairwise (entry : Entry) (proper : entry.Proper) (single : entry.Unambiguous)
    {path : Path} {files : List Path} (walked : entry.walk opens enters path = .ok files) :
    files.Pairwise (Path.Before path) := by
  induction entry using Entry.induction generalizing path files with
  | leaf entry leaf =>
    rw [walk_leaf leaf] at walked
    obtain ⟨_, _, met⟩ := bind_eq_ok.mp walked
    cases met
    split
    · exact List.pairwise_singleton _ _
    · exact .nil
  | dir entries ih =>
    cases proper with
    | dir _ names below =>
      obtain ⟨_, lists, traversed, rfl⟩ := walk_dir_eq_ok walked
      refine Found.pairwise_files_mergeSort ?_ ?_ traversed
      · rw [List.forall_mem_map]
        rintro ⟨name, child⟩ listed
        exact found_sorted (names _ listed) (below _ listed) fun files walked =>
          ih name child listed (below _ listed) (single.of_mem listed) walked
      · rw [List.map_map]
        exact single [] entries rfl

end Entry

/-! ### Files that come once -/

namespace Path

theorem distinctBeyond_eq (seen : Std.HashSet String) (ps : List Path) :
    distinctBeyond seen ps =
      (ps.filter fun p => !seen.contains p.key).eraseDupsBy fun p q => p.key == q.key := by
  induction ps generalizing seen with
  | nil => rfl
  | cons p ps ih =>
    rw [distinctBeyond]
    split
    next met => rw [ih, List.filter_cons_of_neg (by simpa using met)]
    next new =>
      rw [ih, List.filter_cons_of_pos (by simpa using new), List.eraseDupsBy_cons,
        List.filter_filter]
      congr 3
      funext q
      rw [Std.HashSet.contains_insert]
      by_cases same : p.key = q.key
      · simp [same]
      · simp [same, Ne.symm same]

theorem distinct_eq (ps : List Path) :
    distinct ps = ps.eraseDupsBy fun p q => p.key == q.key := by
  rw [distinct, distinctBeyond_eq]
  simp

/-- Of paths with different keys those are kept that were not seen before. -/
theorem distinctBeyond_of_nodup (seen : Std.HashSet String) (ps : List Path)
    (different : (ps.map key).Nodup) :
    distinctBeyond seen ps = ps.filter fun p => !seen.contains p.key := by
  induction ps generalizing seen with
  | nil => rfl
  | cons p ps ih =>
    rw [List.map_cons, List.nodup_cons] at different
    rw [distinctBeyond]
    split
    next met => rw [ih _ different.2, List.filter_cons_of_neg (by simpa using met)]
    next new =>
      rw [ih _ different.2, List.filter_cons_of_pos (by simpa using new)]
      congr 1
      -- No later path has the key of the first.
      apply List.filter_congr
      intro q member
      have apart : p.key ≠ q.key := fun same =>
        different.1 (same ▸ List.mem_map_of_mem member)
      simp [Std.HashSet.contains_insert, apart]

end Path

namespace Gather

/-- A file that a walk from a base meets and takes. -/
def Takes (disk : Disk) (includes excludes : Glob.AnyOf) (allowJs : Bool) (base p : Path) : Prop :=
  ∃ tree names, disk.entry base = .ok tree ∧ tree.isDir = true ∧
    tree.Walks (enters excludes) base names ∧ p = base.below names ∧
    admits includes excludes allowJs p = true

/-- Files in blocks, one for each base. A block has the files that its base takes and that did not
come before, in their order below the base. -/
inductive InBlocks (takes : Path → Path → Prop) : List Path → List Path → List Path → Prop
  | nil (earlier : List Path) : InBlocks takes earlier [] []
  | cons {earlier bases block rest : List Path} {base : Path}
      (sorted : block.Pairwise (Path.Before base))
      (taken : ∀ p, p ∈ block ↔ takes base p ∧ ∀ q ∈ earlier, q.key ≠ p.key)
      (later : InBlocks takes (earlier ++ block) bases rest) :
      InBlocks takes earlier (base :: bases) (block ++ rest)

theorem walkBasesAfter_sublist (disk : Disk) (walked bases : List Path) :
    (walkBasesAfter disk walked bases).Sublist bases := by
  induction bases generalizing walked with
  | nil => exact .slnil
  | cons base bases ih =>
    rw [walkBasesAfter]
    split
    · exact (ih _).cons _
    · exact (ih _).cons_cons _

theorem ne_empty_of_entry {disk : Disk} {path : Path} {found : Entry}
    (leads : disk.entry path = .ok found) : path ≠ "" := by
  rintro rfl
  have missing : disk.entry "" = .error .missing := by
    simp [Disk.entry, Disk.resolve, bind, Except.bind]
  cases missing.symm.trans leads

theorem walk_ordered {disk : Disk} (proper : disk.Proper) (single : disk.root.Unambiguous)
    {enters : Path → String → Bool} {base : Path} {files : List Path}
    (walked : disk.walk enters base = .ok files) :
    files.Pairwise (Path.Before base) ∧ (files.map Path.key).Nodup := by
  unfold Disk.walk at walked
  split at walked
  · cases walked
  next tree leads =>
    have inside : tree.Unambiguous := by
      rw [Disk.entry, bind_eq_ok] at leads
      obtain ⟨names, _, descended⟩ := leads
      split at descended
      next present =>
        cases descended
        exact single.of_descend names present
      · cases descended
    have sorted := Entry.walk_pairwise tree (proper.entry leads) inside walked
    exact ⟨sorted, List.pairwise_map.mpr
      (sorted.imp fun before => before.key_ne (ne_empty_of_entry leads))⟩

/-- The files that are taken on a walk from a base. -/
theorem takes_iff {disk : Disk} {includes excludes : Glob.AnyOf} {allowJs : Bool} {base : Path}
    (isDir : disk.hasDir base = true) {files : List Path}
    (walked : disk.walk (enters excludes) base = .ok files) (p : Path) :
    Takes disk includes excludes allowJs base p ↔
      p ∈ files.filter (admits includes excludes allowJs) := by
  obtain ⟨tree, leads, isDir⟩ := Disk.exists_entry_of_hasDir isDir
  rw [List.mem_filter, Disk.mem_walk walked]
  constructor
  · rintro ⟨_, names, leads, _, walks, text, kept⟩
    exact ⟨⟨_, names, leads, walks, text⟩, kept⟩
  · rintro ⟨⟨_, names, leads', walks, text⟩, kept⟩
    cases leads.symm.trans leads'
    exact ⟨tree, names, leads, isDir, walks, text, kept⟩

/-- What walks add to files that came before is in blocks. -/
theorem inBlocks_distinctBeyond {disk : Disk} (proper : disk.Proper)
    (single : disk.root.Unambiguous) (includes excludes : Glob.AnyOf) (allowJs : Bool)
    {bases : List Path} (isDir : ∀ base ∈ bases, disk.hasDir base = true)
    {walks : List (List Path)} (traversed : bases.mapM (disk.walk (enters excludes)) = .ok walks)
    (earlier : List Path) (seen : Std.HashSet String)
    (known : ∀ key, key ∈ seen ↔ ∃ q ∈ earlier, q.key = key) :
    InBlocks (Takes disk includes excludes allowJs) earlier bases
      (Path.distinctBeyond seen (walks.flatten.filter (admits includes excludes allowJs))) := by
  rw [mapM_eq_ok] at traversed
  induction traversed generalizing earlier seen with
  | nil => exact .nil earlier
  | @cons base files bases walks walked _ ih =>
    obtain ⟨isDirBase, isDirLater⟩ := List.forall_mem_cons.mp isDir
    obtain ⟨sorted, different⟩ := walk_ordered proper single walked
    have once : ((files.filter (admits includes excludes allowJs)).map Path.key).Nodup :=
      different.sublist (List.filter_sublist.map _)
    rw [List.flatten_cons, List.filter_append, Path.distinctBeyond_append,
      Path.distinctBeyond_of_nodup seen _ once]
    refine .cons ((sorted.filter _).filter _) ?_ (ih isDirLater _ _ ?_)
    -- What this base adds is what it takes and no earlier file names already.
    · intro p
      rw [List.mem_filter, ← takes_iff isDirBase walked]
      simp only [Bool.not_eq_true', ← Bool.not_eq_true, Std.HashSet.contains_iff_mem, known,
        not_exists, not_and, ne_eq]
    -- The keys met so far stay those of the files listed so far, these included.
    · intro key
      rw [Discovery.mem_meet, known]
      simp only [List.mem_append, or_and_right, exists_or]

end Gather

open Gather in
/-- The gathered files are the listed ones that exist, each where it is listed first, then one block
for each base that is walked, each in its order. No file comes twice. Files are gathered if the globs
can be read and each directory that is entered can be opened, and not otherwise. -/
theorem gather_ordered {disk : Disk} (proper : disk.Proper) (single : disk.root.Unambiguous)
    (set : Config.FileSet) :
    (∀ files, gather disk set = .ok files → ∃ includes excludes listed found,
      Targets.readGlobs (set.includes.map (includeGlob disk)) = .ok includes ∧
      Targets.readGlobs (set.excludes.flatMap excludeGlobs) = .ok excludes ∧
      files = listed ++ found ∧ (files.map Path.key).Nodup ∧
      listed = (set.files.filter disk.hasFile).eraseDupsBy (fun p q => p.key == q.key) ∧
      (walkBases disk set.includes).Sublist (set.includes.map (walkBase disk)) ∧
      InBlocks (Takes disk includes excludes set.allowJs) listed
        (walkBases disk set.includes) found) ∧
      ((∃ files, gather disk set = .ok files) ↔ ∃ includes excludes,
        Targets.readGlobs (set.includes.map (includeGlob disk)) = .ok includes ∧
        Targets.readGlobs (set.excludes.flatMap excludeGlobs) = .ok excludes ∧
        ∀ base ∈ walkBases disk set.includes, disk.OpensBelow (enters excludes) base) := by
  refine ⟨fun files gathered => ?_, exists_gather_eq_ok.trans exists_met_eq_ok⟩
  obtain ⟨_, succeeded, rfl⟩ := gather_eq_ok.mp gathered
  obtain ⟨includes, excludes, walks, readIncludes, readExcludes, traversed, rfl⟩ :=
    met_eq_ok.mp succeeded
  refine ⟨includes, excludes, _, _, readIncludes, readExcludes, Path.distinctBeyond_append _ _ _,
    Path.nodup_keys_distinctBeyond _ _, Path.distinct_eq _, walkBasesAfter_sublist _ _ _,
    inBlocks_distinctBeyond proper single includes excludes set.allowJs
      (fun base => hasDir_of_mem_walkBasesAfter _ _ _ base) traversed _ _ fun key => ?_⟩
  rw [Discovery.mem_meet]
  simp

/-- Files that are listed twice or missing, and bases that overlap. -/
def listedSet : Config.FileSet where
  dir := "/p"
  files := ["/p/a/f/g.ts", "/p/missing.ts", "/p/a//f/g.ts"]
  includes := ["/p/a/**/*", "/p/**/*"]
  excludes := ["/p/out"]
  allowJs := false

open Gather in
theorem gather_ordered_listed : ∃ includes excludes found,
    gather packedDisk listedSet = .ok (["/p/a/f/g.ts"] ++ found) ∧
      ((["/p/a/f/g.ts"] ++ found).map Path.key).Nodup ∧
      InBlocks (Takes packedDisk includes excludes false) ["/p/a/f/g.ts"] ["/p/a", "/p"] found := by
  obtain ⟨includes, readIncludes⟩ := exists_eq_ok (x := Targets.readGlobs
    (listedSet.includes.map (includeGlob packedDisk))) (by decide +kernel)
  obtain ⟨excludes, readExcludes⟩ := exists_eq_ok (x := Targets.readGlobs
    (listedSet.excludes.flatMap excludeGlobs)) (by decide +kernel)
  have opened : (walkBases packedDisk listedSet.includes).all packedDisk.allOpen = true := by
    decide +kernel
  have bases : walkBases packedDisk listedSet.includes = ["/p/a", "/p"] := by decide +kernel
  have exist : listedSet.files.filter packedDisk.hasFile = ["/p/a/f/g.ts", "/p/a//f/g.ts"] := by
    decide +kernel
  have once : (["/p/a/f/g.ts", "/p/a//f/g.ts"].eraseDupsBy fun p q => Path.key p == Path.key q) =
      ["/p/a/f/g.ts"] := by
    decide +kernel
  obtain ⟨ordered, succeeds⟩ := gather_ordered packedDisk_proper (by decide +kernel) listedSet
  obtain ⟨files, gathered⟩ := succeeds.mpr ⟨includes, excludes, readIncludes, readExcludes,
    fun base walked => Disk.opensBelow_of_allOpen (List.all_eq_true.mp opened base walked) _⟩
  obtain ⟨includes, excludes, listed, found, _, _, rfl, different, rfl, _, blocks⟩ :=
    ordered files gathered
  rw [exist, once] at gathered different blocks
  rw [bases] at blocks
  exact ⟨includes, excludes, found, gathered, different, blocks⟩

end UnusedMethods
