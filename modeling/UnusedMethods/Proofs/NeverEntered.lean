import UnusedMethods.Proofs.GatheredOrder

/-!
# Directories that are never entered

A walk enters no directory of packages and none of version control, but it may start in one: the
base of an include entry is walked wherever it lies. So a file is found in such a directory exactly
if its base is there already. And since a base is not walked when an earlier one lies above it,
entries in another order may find other files. They find the same if every base that lies below
another can be opened and is reached from it through directories that are entered.
-/

namespace UnusedMethods

/-! ### What a path leads to without links -/

theorem Path.segments_below_join (p : Path) {name : String} (proper : IsName name)
    (names : List String) (all : ∀ n ∈ names, IsName n) :
    segments ((join p name).below names) = segments (join p name) ++ names := by
  induction names generalizing p name with
  | nil => simp
  | cons other names ih =>
    have properOther : IsName other := all other List.mem_cons_self
    rw [below_cons, ih (join p name) properOther fun n member =>
      all n (List.mem_cons_of_mem _ member), join_join p proper properOther.single,
      segments_append, segments_eq_self other properOther.single, List.append_assoc]
    rfl

/-- Below a path its segments go on with the names, but for an empty one at its end. -/
theorem Path.segments_below {p : Path} (written : p ≠ "") (names : List String) (some_ : names ≠ [])
    (all : ∀ n ∈ names, IsName n) :
    ∃ front, segments (p.below names) = front ++ names ∧
      (segments p = front ∨ segments p = front ++ [""]) := by
  cases names with
  | nil => exact absurd rfl some_
  | cons name names =>
    have proper : IsName name := all name List.mem_cons_self
    rw [below_cons, segments_below_join p proper names fun n member =>
      all n (List.mem_cons_of_mem _ member)]
    rw [join, isAbsolute_of_single proper.single]
    simp only [Bool.false_eq_true, if_false, beq_iff_eq, written]
    -- A path that ends in a slash has an empty last segment, whose place the first name takes.
    split
    next ended =>
      obtain ⟨start, rfl⟩ := (endsWith_slash_iff p).mp ended
      refine ⟨segments start, ?_, .inr ?_⟩
      · rw [segments_append, segments_eq_self name proper.single, List.append_assoc]
        rfl
      · have cut := segments_append start ""
        rwa [String.append_empty, segments_empty] at cut
    · refine ⟨segments p, ?_, .inl rfl⟩
      rw [segments_append, segments_eq_self name proper.single, List.append_assoc]
      rfl

theorem Path.isAbsolute_below {p : Path} (written : p ≠ "") (names : List String)
    (all : ∀ n ∈ names, IsName n) : isAbsolute (p.below names) = isAbsolute p := by
  induction names generalizing p with
  | nil => rfl
  | cons name names ih =>
    have proper : IsName name := all name List.mem_cons_self
    rw [below_cons, ih (join_ne_empty p proper) fun n member =>
      all n (List.mem_cons_of_mem _ member), join, isAbsolute_of_single proper.single]
    simp only [Bool.false_eq_true, if_false, beq_iff_eq, written]
    split
    · exact isAbsolute_append_of_ne written _
    · rw [String.append_assoc, isAbsolute_append_of_ne written]

namespace Disk

section

variable {root : Entry} (clear : ∀ names target, root.descend? names ≠ some (.link target))
  (followLast : Bool) (jump : List String → List String → Except Trouble (List String))
include clear

theorem lookup_ne_link {at_ : List String} {entries : List (String × Entry)}
    (here : root.descend? at_.reverse = some (.dir entries)) (segment : String) (target : Path) :
    entries.lookup segment ≠ some (.link target) := by
  intro found
  apply clear (at_.reverse ++ [segment]) target
  rw [Entry.descend_append, here]
  simp [Entry.descend?, Entry.child?, found]

/-- Where no link lies on the way, segments are followed one after the other. -/
theorem followWith_append (at_ xs ys : List String) :
    followWith root followLast jump at_ (xs ++ ys) =
      (followWith root followLast jump at_ xs).bind
        fun here => followWith root followLast jump here ys := by
  induction xs generalizing at_ with
  | nil => rfl
  | cons segment xs ih =>
    rw [List.cons_append, followWith, followWith]
    split
    next entries here =>
      split
      · exact ih at_
      · split
        · exact ih _
        · split
          · rfl
          · split
            · rfl
            next target found => exact absurd found (lookup_ne_link clear here segment target)
            · exact ih _
    · rfl
    · rfl
    · rfl

/-- Names that are followed are put after those that lead to where they start. -/
theorem followWith_names_eq {at_ names result : List String} (all : ∀ n ∈ names, Path.IsName n)
    (followed : followWith root followLast jump at_ names = .ok result) :
    result = names.reverse ++ at_ := by
  induction names generalizing at_ with
  | nil =>
    cases followed
    rfl
  | cons name names ih =>
    have proper : Path.IsName name := all name List.mem_cons_self
    have step : ¬ (name == "" || name == ".") = true := by simpa [Path.isStep] using proper.step
    have down : ¬ (name == "..") = true := by simpa using proper.down
    rw [followWith] at followed
    simp only [step, down, Bool.false_eq_true, if_false] at followed
    split at followed
    next entries here =>
      split at followed
      · cases followed
      · split at followed
        · cases followed
        next target found => exact absurd found (lookup_ne_link clear here name target)
        · rw [ih (fun n member => all n (List.mem_cons_of_mem _ member)) followed]
          simp
    · cases followed
    · cases followed
    · cases followed

end

/-- The names to which a path leads, if it leads to an entry. -/
theorem entry_eq_ok {disk : Disk} {path : Path} {found : Entry} :
    disk.entry path = .ok found ↔
      ∃ names, disk.resolve true path = .ok names ∧ disk.root.descend? names = some found := by
  rw [entry, bind_eq_ok]
  refine exists_congr fun names => and_congr_right fun _ => ?_
  cases disk.root.descend? names with
  | none => simp
  | some other => simp

/-- A path leads to names if its text may be a path and its segments are followed to them. -/
theorem resolve_eq_ok {disk : Disk} {path : Path} {names : List String} :
    disk.resolve true path = .ok names ↔
      '\x00' ∉ path.toList ∧ path ≠ "" ∧ path.utf8ByteSize < pathLimit ∧
        follow disk.root true linkLimit
          (if Path.isAbsolute path then [] else (stepNames disk.current).reverse)
          (Path.segments path) = .ok names.reverse := by
  constructor
  · intro resolved
    unfold resolve at resolved
    split at resolved
    · cases resolved
    next text =>
      split at resolved
      · cases resolved
      next written =>
        split at resolved
        · cases resolved
        next short =>
          refine ⟨by simpa using text, by simpa using written, Nat.lt_of_not_ge short, ?_⟩
          simp only at resolved
          cases followed : follow disk.root true linkLimit
              (if Path.isAbsolute path then [] else (stepNames disk.current).reverse)
              (Path.segments path) with
          | error trouble =>
            rw [followed] at resolved
            cases resolved
          | ok result =>
            rw [followed] at resolved
            cases resolved
            rw [List.reverse_reverse]
  · rintro ⟨text, written, short, followed⟩
    rw [resolve, if_neg (by simpa using text), if_neg (by simpa using written),
      if_neg (Nat.not_le_of_lt short)]
    simp only [followed, Except.map, List.reverse_reverse]

/-- On a disk without links the names below a path lead on from the entry that it leads to. -/
theorem descend_of_entry_below {disk : Disk} (free : disk.root.linkFree = true) {p : Path}
    {tree found : Entry} {names : List String} (all : ∀ n ∈ names, Path.IsName n)
    (leads : disk.entry p = .ok tree) (below : disk.entry (p.below names) = .ok found) :
    tree.descend? names = some found := by
  have written : p ≠ "" := Gather.ne_empty_of_entry leads
  by_cases none : names = []
  · subst none
    cases leads.symm.trans below
    rfl
  obtain ⟨here, resolved, descended⟩ := entry_eq_ok.mp leads
  obtain ⟨there, resolvedBelow, descendedBelow⟩ := entry_eq_ok.mp below
  obtain ⟨_, _, _, followed⟩ := resolve_eq_ok.mp resolved
  obtain ⟨_, _, _, followedBelow⟩ := resolve_eq_ok.mp resolvedBelow
  obtain ⟨jump, step⟩ : ∃ jump,
      follow disk.root true linkLimit = followWith disk.root true jump := ⟨_, rfl⟩
  have clear := fun names target => Entry.descend_ne_link free names target
  obtain ⟨front, segmentsBelow, ends⟩ := Path.segments_below written names none all
  rw [Path.isAbsolute_below written names all, segmentsBelow, step,
    followWith_append clear] at followedBelow
  rw [step] at followed
  generalize (if Path.isAbsolute p then [] else (stepNames disk.current).reverse) = start
    at followed followedBelow
  -- The empty segment at the end of a path leads nowhere else.
  have before : followWith disk.root true jump start front = .ok here.reverse := by
    rcases ends with same | longer
    · rw [← same, followed]
    · rw [longer, followWith_append clear] at followed
      cases reached : followWith disk.root true jump start front with
      | error trouble =>
        rw [reached] at followed
        cases followed
      | ok at_ =>
        rw [reached] at followed
        simp only [Except.bind, followWith, BEq.rfl, Bool.true_or, if_true] at followed
        split at followed
        · exact followed
        · cases followed
        · cases followed
        · cases followed
  rw [before] at followedBelow
  have result := followWith_names_eq clear true jump all followedBelow
  rw [← List.reverse_append, List.reverse_inj] at result
  rw [result, Entry.descend_append, descended, Option.bind_some] at descendedBelow
  exact descendedBelow

end Disk

/-! ### Walks that go on from a directory -/

/-- Each of the directories to which names lead is entered. -/
def Path.Entered (enters : Path → String → Bool) : Path → List String → Prop
  | _, [] => True
  | p, name :: names => enters (join p name) name = true ∧ Entered enters (join p name) names

namespace Entry

/-- Names lead on from a directory to which names lead that are entered. -/
theorem Reaches.of_descend {enters : Path → String → Bool} {path : Path} {tree below found : Entry}
    {names more : List String} (descended : tree.descend? names = some below)
    (entered : Path.Entered enters path names)
    (reaches : below.Reaches enters (path.below names) more found) :
    tree.Reaches enters path (names ++ more) found := by
  induction names generalizing path tree with
  | nil =>
    cases descended
    exact reaches
  | cons name names ih =>
    obtain ⟨child, present, rest⟩ := Option.bind_eq_some_iff.mp descended
    cases tree with
    | file bytes => cases present
    | link target => cases present
    | closed isDir why => cases present
    | dir entries => exact .on (mem_of_lookup present) (fun _ => entered.1) (ih rest entered.2 reaches)

/-- The last of the names that lead to a directory is entered. -/
theorem Reaches.exists_entered {enters : Path → String → Bool} {path : Path} {entry found : Entry}
    {names : List String} (reaches : entry.Reaches enters path names found)
    (isDir : found.isDir = true) (some_ : names ≠ []) :
    ∃ name, enters (path.below names) name = true := by
  induction reaches with
  | here => exact absurd rfl some_
  | on listed entered below ih =>
    cases below with
    | here => exact ⟨_, entered isDir⟩
    | on => exact ih isDir (by simp)

end Entry

/-! ### Files in directories that are never entered -/

namespace Gather

/-- Components that lead below a directory through one that is never entered. -/
def ThroughNeverEntered (dir : Path) (components : List Path.Component) : Prop :=
  ∃ rest, components = Path.components dir ++ rest ∧
    ∃ name ∈ neverEntered, Path.Component.name name ∈ rest

theorem reaches_dropLast {path : Path} {entry found : Entry} {names : List String}
    {excludes : Glob.AnyOf} (reaches : entry.Reaches (enters excludes) path names found) :
    ∀ n ∈ names.dropLast, n ∉ neverEntered := by
  induction reaches with
  | here => simp
  | on listed entered below ih =>
    -- Only the directories on the way were entered: the last name may be a file's own.
    cases below with
    | here => simp
    | on =>
      rw [List.dropLast_cons_of_ne_nil (by simp)]
      refine List.forall_mem_cons.mpr ⟨?_, ih⟩
      have entersHere := entered rfl
      simp only [enters, Bool.and_eq_true, Bool.not_eq_true'] at entersHere
      simpa using entersHere.1

theorem Takes.hasDir {disk : Disk} {includes excludes : Glob.AnyOf} {allowJs : Bool}
    {base p : Path} (takes : Takes disk includes excludes allowJs base p) :
    disk.hasDir base = true := by
  obtain ⟨tree, _, leads, isDir, _⟩ := takes
  rw [Disk.hasDir, leads]
  exact isDir

/-- A file lies in a directory that is never entered exactly if the base of its walk does. -/
theorem Takes.through_iff {disk : Disk} (proper : disk.Proper) {includes excludes : Glob.AnyOf}
    {allowJs : Bool} {base p : Path} (takes : Takes disk includes excludes allowJs base p)
    (dir : Path) :
    ThroughNeverEntered dir (Path.components p).dropLast ↔
      ThroughNeverEntered dir (Path.components base) := by
  obtain ⟨tree, names, leads, isDir, walks, rfl, _⟩ := takes
  have written : base ≠ "" := ne_empty_of_entry leads
  have some_ : names.map Path.Component.name ≠ [] := by simpa using walks.ne_nil isDir
  obtain ⟨_, reaches, _⟩ := walks
  have open_ := reaches_dropLast reaches
  have inside : ∀ name ∈ neverEntered, Path.Component.name name ∉ (names.map .name).dropLast := by
    intro name never member
    rw [← List.map_dropLast] at member
    obtain ⟨n, listed, same⟩ := List.mem_map.mp member
    cases same
    exact open_ name listed never
  rw [Path.components_below written names (reaches.proper (proper.entry leads)),
    List.dropLast_append_of_ne_nil some_]
  generalize (names.map Path.Component.name).dropLast = below at inside
  constructor
  · rintro ⟨rest, whole, name, never, member⟩
    rcases List.append_eq_append_iff.mp whole with ⟨more, dirText, restText⟩ |
      ⟨more, baseText, text⟩
    · -- The directory is at the base or below it, and nothing is closed from there on.
      exact absurd (restText ▸ List.mem_append_right more member) (inside name never)
    · rw [text, List.mem_append] at member
      exact ⟨more, baseText, name, never, member.resolve_right (inside name never)⟩
  · rintro ⟨rest, whole, name, never, member⟩
    exact ⟨rest ++ below, by rw [whole, List.append_assoc], name, never,
      List.mem_append_left _ member⟩

/-! ### Bases in another order -/

/-- Each base that lies below another can be opened and is reached from it through directories that
are entered. If one that is excluded cannot be opened, only a walk that starts there fails. -/
def NestedOpenly (disk : Disk) (entries : List Path) : Prop :=
  ∀ entry ∈ entries, ∀ other ∈ entries, disk.hasDir (walkBase disk entry) = true →
    disk.hasDir (walkBase disk other) = true →
    Path.startsWith (walkBase disk entry) (walkBase disk other) = true →
    ∃ names, walkBase disk entry = (walkBase disk other).below names ∧
      (∀ n ∈ names, Path.IsName n ∧ n ∉ neverEntered) ∧
      (names ≠ [] → disk.opens (walkBase disk entry) = .ok ())

theorem NestedOpenly.perm {disk : Disk} {entries entries' : List Path}
    (nested : NestedOpenly disk entries) (perm : entries'.Perm entries) :
    NestedOpenly disk entries' :=
  fun entry listed other listedOther =>
    nested entry (perm.mem_iff.mp listed) other (perm.mem_iff.mp listedOther)

/-- Plain entries have openly nested bases if none of these has a name that is never entered and all
that are there can be opened. -/
theorem nestedOpenly_of_plain (disk : Disk) {entries : List Path}
    (plain : ∀ entry ∈ entries, Path.IsPlain entry)
    (open_ : ∀ entry ∈ entries, ∀ name ∈ neverEntered,
      Path.Component.name name ∉ Path.components (walkBase disk entry))
    (opened : ∀ entry ∈ entries, disk.hasDir (walkBase disk entry) = true →
      disk.opens (walkBase disk entry) = .ok ()) :
    NestedOpenly disk entries := by
  intro entry listed other listedOther isDir _ starts
  have opens := opened entry listed isDir
  have never := open_ entry listed
  obtain ⟨names, all, text⟩ := isPlain_walkBase disk entry (plain entry listed)
  obtain ⟨others, allOthers, textOther⟩ := isPlain_walkBase disk other (plain other listedOther)
  -- Both bases are plain, so one being under the other is one list of names extending the other.
  rw [text] at starts never opens ⊢
  rw [textOther] at starts ⊢
  rw [Path.startsWith, Path.components_ofNames names all, Path.components_ofNames others allOthers,
    List.isPrefixOf_iff_prefix, List.cons_prefix_cons] at starts
  obtain ⟨more, rfl⟩ :=
    (List.prefix_map_iff_of_injective fun _ _ => Path.Component.name.inj).mp starts.2
  refine ⟨more, Path.below_append "/" others more, fun n member => ?_, fun _ => opens⟩
  have listedName : n ∈ others ++ more := List.mem_append_right _ member
  refine ⟨all n listedName, fun shut => never n shut ?_⟩
  rw [Path.components_ofNames _ all]
  exact List.mem_cons_of_mem _ (List.mem_map_of_mem listedName)

theorem covered_of_hasDir (disk : Disk) (walked bases : List Path) (base : Path)
    (listed : base ∈ bases) (isDir : disk.hasDir base = true) :
    base ∈ walkBasesAfter disk walked bases ∨
      ∃ other ∈ walked ++ walkBasesAfter disk walked bases, Path.startsWith base other = true := by
  induction bases generalizing walked with
  | nil => cases listed
  | cons first bases ih =>
    rw [walkBasesAfter]
    rcases List.mem_cons.mp listed with rfl | later
    · split
      next skipped =>
        rw [isDir] at skipped
        obtain ⟨other, before, starts⟩ := List.any_eq_true.mp (by simpa using skipped)
        exact .inr ⟨other, List.mem_append_left _ before, starts⟩
      · exact .inl List.mem_cons_self
    · split
      · exact ih walked later
      · rcases ih (walked ++ [first]) later with kept | ⟨other, before, starts⟩
        · exact .inl (List.mem_cons_of_mem _ kept)
        · exact .inr ⟨other, by simpa using before, starts⟩

section

variable {disk : Disk} {excluded : List Path} {excludes : Glob.AnyOf}
  (read : Targets.readGlobs (excluded.flatMap excludeGlobs) = .ok excludes)
include read

/-- Directories that are not left out by name are entered, or all that lies below the last of them
is excluded. -/
theorem entered_or_excluded {names : List String} (p : Path)
    (open_ : ∀ n ∈ names, Path.IsName n ∧ n ∉ neverEntered) :
    Path.Entered (enters excludes) p names ∨
      ∀ more, (∀ n ∈ more, Path.IsName n) →
        excludes.isMatch (p.below (names ++ more)).slashed = true := by
  induction names generalizing p with
  | nil => exact .inl trivial
  | cons name names ih =>
    obtain ⟨⟨named, listed⟩, later⟩ := List.forall_mem_cons.mp open_
    cases matched : excludes.isMatch (Path.join p name).slashed with
    | true =>
      refine .inr fun more all => isMatch_below_join read named matched fun n member => ?_
      exact (List.mem_append.mp member).elim (fun first => (later n first).1) (all n)
    | false =>
      refine (ih (Path.join p name) later).imp_left fun entered => ⟨?_, entered⟩
      simp [enters, listed, matched]

variable (proper : disk.Proper) (free : disk.root.linkFree = true)
include proper free

/-- What is reached from a base is reached from one above it, or it is excluded. -/
theorem reaches_or_excluded {base : Path} {tree below found : Entry} {names more : List String}
    (open_ : ∀ n ∈ names, Path.IsName n ∧ n ∉ neverEntered) (leads : disk.entry base = .ok tree)
    (leadsBelow : disk.entry (base.below names) = .ok below)
    (reaches : below.Reaches (enters excludes) (base.below names) more found) :
    tree.Reaches (enters excludes) base (names ++ more) found ∨
      excludes.isMatch (base.below (names ++ more)).slashed = true := by
  have descended := Disk.descend_of_entry_below free (fun n member => (open_ n member).1) leads
    leadsBelow
  rcases entered_or_excluded read base open_ with entered | excluded
  · exact .inl (reaches.of_descend descended entered)
  · exact .inr (excluded more (reaches.proper (proper.entry leadsBelow)))

end

theorem mem_taken_iff {disk : Disk} {entries : List Path} {includes excludes : Glob.AnyOf}
    {allowJs : Bool} {walks : List (List Path)}
    (traversed : (walkBases disk entries).mapM (disk.walk (enters excludes)) = .ok walks)
    (p : Path) : p ∈ walks.flatten.filter (admits includes excludes allowJs) ↔
      ∃ base ∈ walkBases disk entries, Takes disk includes excludes allowJs base p := by
  rw [List.mem_filter, mem_flatten_of_mapM traversed]
  constructor
  · rintro ⟨⟨base, listed, files, walked, met⟩, kept⟩
    have isDir := hasDir_of_mem_walkBasesAfter _ _ _ _ listed
    exact ⟨base, listed, (takes_iff isDir walked p).mpr (List.mem_filter.mpr ⟨met, kept⟩)⟩
  · rintro ⟨base, listed, takes⟩
    have isDir := hasDir_of_mem_walkBasesAfter _ _ _ _ listed
    obtain ⟨files, walked⟩ := exists_mapM_eq_ok.mp ⟨walks, traversed⟩ base listed
    obtain ⟨met, kept⟩ := List.mem_filter.mp ((takes_iff isDir walked p).mp takes)
    exact ⟨⟨base, listed, files, walked, met⟩, kept⟩

section

variable {disk : Disk} {entries : List Path} (nested : NestedOpenly disk entries)
include nested

/-- Each base that is there is walked, or it lies openly below one that is walked. -/
theorem walked_or_below {entry : Path} (listed : entry ∈ entries)
    (isDir : disk.hasDir (walkBase disk entry) = true) :
    walkBase disk entry ∈ walkBases disk entries ∨
      ∃ base ∈ walkBases disk entries, ∃ tree names, disk.entry base = .ok tree ∧
        tree.isDir = true ∧ walkBase disk entry = base.below names ∧
        (∀ n ∈ names, Path.IsName n ∧ n ∉ neverEntered) ∧
        (names ≠ [] → disk.opens (walkBase disk entry) = .ok ()) := by
  refine (covered_of_hasDir disk [] (entries.map (walkBase disk)) (walkBase disk entry)
    (List.mem_map_of_mem listed) isDir).imp_right ?_
  rintro ⟨base, walked, starts⟩
  rw [List.nil_append] at walked
  have isDirBase := hasDir_of_mem_walkBasesAfter _ _ _ _ walked
  obtain ⟨tree, leads, isDirTree⟩ := Disk.exists_entry_of_hasDir isDirBase
  obtain ⟨other, listedOther, rfl⟩ := List.mem_map.mp (mem_of_mem_walkBasesAfter _ _ _ _ walked)
  obtain ⟨names, text, open_, opens⟩ := nested entry listed other listedOther isDir isDirBase starts
  exact ⟨_, walked, tree, names, leads, isDirTree, text, open_, opens⟩

variable (proper : disk.Proper) (free : disk.root.linkFree = true) {excluded : List Path}
  {excludes : Glob.AnyOf} (read : Targets.readGlobs (excluded.flatMap excludeGlobs) = .ok excludes)
include proper free read

/-- The bases that are walked can be opened below exactly if all bases can be that are there. -/
theorem opensBelow_walkBases_iff :
    (∀ base ∈ walkBases disk entries, disk.OpensBelow (enters excludes) base) ↔
      ∀ entry ∈ entries, disk.hasDir (walkBase disk entry) = true →
        disk.OpensBelow (enters excludes) (walkBase disk entry) := by
  constructor
  · intro opened entry listed isDir
    rcases walked_or_below nested listed isDir with
      walked | ⟨base, walked, tree, names, leads, _, text, open_, opens⟩
    · exact opened _ walked
    · rw [text] at opens ⊢
      intro below more found leadsBelow reaches isDirFound
      rw [← Path.below_append]
      rcases reaches_or_excluded read proper free open_ leads leadsBelow reaches with
        further | matched
      · exact opened base walked tree _ found leads further isDirFound
      · -- Below an excluded directory nothing is entered, so the base itself is to be opened.
        by_cases at_ : more = []
        · subst at_
          rw [List.append_nil]
          by_cases same : names = []
          · subst same
            exact opened base walked tree [] tree leads (.here ..) ‹_›
          · exact opens same
        · obtain ⟨name, entered⟩ := reaches.exists_entered isDirFound at_
          rw [← Path.below_append] at entered
          simp [enters, matched] at entered
  · intro opened base walked
    have isDir := hasDir_of_mem_walkBasesAfter _ _ _ _ walked
    obtain ⟨entry, listed, rfl⟩ := List.mem_map.mp (mem_of_mem_walkBasesAfter _ _ _ _ walked)
    exact opened entry listed isDir

/-- What is taken from the bases that are walked is what could be taken from all of them. -/
theorem exists_takes_iff {includes : Glob.AnyOf} {allowJs : Bool} (p : Path) :
    (∃ base ∈ walkBases disk entries, Takes disk includes excludes allowJs base p) ↔
      ∃ entry ∈ entries, Takes disk includes excludes allowJs (walkBase disk entry) p := by
  constructor
  · rintro ⟨base, walked, takes⟩
    obtain ⟨entry, listed, rfl⟩ := List.mem_map.mp (mem_of_mem_walkBasesAfter _ _ _ _ walked)
    exact ⟨entry, listed, takes⟩
  · rintro ⟨entry, listed, takes⟩
    rcases walked_or_below nested listed takes.hasDir with
      walked | ⟨base, walked, tree, names, leads, isDirTree, text, open_, _⟩
    · exact ⟨_, walked, takes⟩
    · rw [text] at takes
      obtain ⟨below, more, leadsBelow, _, ⟨found, reaches, isFile⟩, rfl, kept⟩ := takes
      rw [← Path.below_append] at kept ⊢
      rcases reaches_or_excluded read proper free open_ leads leadsBelow reaches with
        further | matched
      · exact ⟨base, walked, tree, _, leads, isDirTree, ⟨found, further, isFile⟩, rfl, kept⟩
      · simp [admits, matched] at kept

/-- Walks for entries in another order end together and take the same files. -/
theorem walks_perm {entries' : List Path} (perm : entries'.Perm entries) (includes : Glob.AnyOf)
    (allowJs : Bool) :
    SucceedTogether (fun walks walks' => ∀ p, p ∈ walks.flatten.filter
        (admits includes excludes allowJs) ↔
          p ∈ walks'.flatten.filter (admits includes excludes allowJs))
      ((walkBases disk entries).mapM (disk.walk (enters excludes)))
      ((walkBases disk entries').mapM (disk.walk (enters excludes))) := by
  have nested' := nested.perm perm
  have ends : (∃ walks, (walkBases disk entries).mapM (disk.walk (enters excludes)) = .ok walks) ↔
      ∃ walks, (walkBases disk entries').mapM (disk.walk (enters excludes)) = .ok walks := by
    rw [exists_walks_eq_ok, exists_walks_eq_ok, opensBelow_walkBases_iff nested proper free read,
      opensBelow_walkBases_iff nested' proper free read]
    simp only [perm.mem_iff]
  apply SucceedTogether.of_ok
  · intro walks traversed
    obtain ⟨walks', traversed'⟩ := ends.mp ⟨walks, traversed⟩
    refine ⟨walks', traversed', fun p => ?_⟩
    -- Both orders take what can be taken from any of the bases.
    rw [mem_taken_iff traversed, mem_taken_iff traversed',
      exists_takes_iff nested proper free read, exists_takes_iff nested' proper free read]
    simp only [perm.mem_iff]
  · exact fun walks' traversed' => ends.mpr ⟨walks', traversed'⟩

end

/-- Globs in another order match the same. -/
theorem readGlobs_perm {texts texts' : List String} (perm : texts.Perm texts') :
    SucceedTogether (fun any any' : Glob.AnyOf => ∀ text, any.isMatch text = any'.isMatch text)
      (Targets.readGlobs texts) (Targets.readGlobs texts') := by
  -- One direction is enough, since a permutation turns round.
  have onward {texts texts' : List String} (perm : texts.Perm texts') (any : Glob.AnyOf)
      (read : Targets.readGlobs texts = .ok any) : ∃ any', Targets.readGlobs texts' = .ok any' ∧
        ∀ text, any.isMatch text = any'.isMatch text := by
    rw [Targets.readGlobs_eq_ok, Glob.AnyOf.ofTexts_eq_ok] at read
    obtain ⟨globs, read', reordered⟩ := List.perm_comp_forall₂ perm.symm read
    refine ⟨⟨globs⟩, (Targets.readGlobs_eq_ok _ _).mpr ((Glob.AnyOf.ofTexts_eq_ok _ _).mpr read'),
      fun text => ?_⟩
    rw [Glob.AnyOf.isMatch, Glob.AnyOf.isMatch]
    exact (reordered.any_eq).symm
  apply SucceedTogether.of_ok
  · exact onward perm
  · intro any' read
    obtain ⟨any, again, _⟩ := onward perm.symm any' read
    exact ⟨any, again⟩

end Gather

theorem Path.mem_keys_distinct (ps : List Path) (k : String) :
    k ∈ (distinct ps).map key ↔ k ∈ ps.map key := by
  simp only [List.mem_map]
  constructor
  · rintro ⟨p, kept, rfl⟩
    exact ⟨p, mem_of_mem_distinctBeyond _ _ _ kept, rfl⟩
  · rintro ⟨p, member, rfl⟩
    exact exists_key_of_mem ∅ ps p member (by simp)

theorem Path.perm_keys_distinct {ps qs : List Path} (same : ∀ k, k ∈ ps.map key ↔ k ∈ qs.map key) :
    ((distinct ps).map key).Perm ((distinct qs).map key) := by
  refine (List.perm_ext_iff_of_nodup (nodup_keys_distinctBeyond _ _)
    (nodup_keys_distinctBeyond _ _)).mpr fun k => ?_
  exact (mem_keys_distinct ps k).trans ((same k).trans (mem_keys_distinct qs k).symm)

open Gather in
/-- Include entries in another order describe the same files, if their bases are nested openly. -/
theorem gather_perm {disk : Disk} (proper : disk.Proper) (free : disk.root.linkFree = true)
    (set : Config.FileSet) (nested : NestedOpenly disk set.includes) {includes : List Path}
    (perm : includes.Perm set.includes) :
    SucceedTogether (fun files files' => (files.map Path.key).Perm (files'.map Path.key))
      (gather disk set) (gather disk { set with includes := includes }) := by
  have all : SucceedTogether (fun found found' => ∀ k, k ∈ found.map Path.key ↔
      k ∈ found'.map Path.key) (met disk set enters)
      (met disk { set with includes := includes } enters) := by
    refine (readGlobs_perm (perm.symm.map _)).bind fun any any' same => ?_
    cases read : Targets.readGlobs (set.excludes.flatMap excludeGlobs) with
    | error failure => exact .failed trivial
    | ok excludes =>
      have admitted : admits any excludes set.allowJs = admits any' excludes set.allowJs := by
        funext p
        simp only [admits, same]
      refine (walks_perm nested proper free read perm any' set.allowJs).bind ?_
      refine fun walks walks' taken => .done fun k => ?_
      rw [admitted]
      simp only [List.map_append, List.mem_append, List.mem_map, taken]
  exact all.bind fun found found' same => .done (Path.perm_keys_distinct same)

open Gather in
/-- A file that is found lies in a directory that is never entered exactly if its base does. The
order of the include entries does not matter if their bases are nested openly. -/
theorem gather_neverEntered {disk : Disk} (proper : disk.Proper) (free : disk.root.linkFree = true)
    (set : Config.FileSet) :
    (∀ files, gather disk set = .ok files →
      ∃ found, files = Path.distinct (set.files.filter disk.hasFile) ++ found ∧
        ∀ p ∈ found, ∃ base ∈ walkBases disk set.includes, Path.startsWith p base = true ∧
          (ThroughNeverEntered set.dir (Path.components p).dropLast ↔
            ThroughNeverEntered set.dir (Path.components base))) ∧
      (NestedOpenly disk set.includes → ∀ includes, includes.Perm set.includes →
        SucceedTogether (fun files files' => (files.map Path.key).Perm (files'.map Path.key))
          (gather disk set) (gather disk { set with includes := includes })) := by
  refine ⟨fun files gathered => ?_,
    fun nested includes perm => gather_perm proper free set nested perm⟩
  obtain ⟨_, succeeded, rfl⟩ := gather_eq_ok.mp gathered
  obtain ⟨includes, excludes, walks, _, _, traversed, rfl⟩ := met_eq_ok.mp succeeded
  refine ⟨_, Path.distinctBeyond_append _ _ _, fun p member => ?_⟩
  obtain ⟨base, walked, takes⟩ :=
    (mem_taken_iff traversed p).mp (Path.mem_of_mem_distinctBeyond _ _ _ member)
  refine ⟨base, walked, ?_, takes.through_iff proper set.dir⟩
  obtain ⟨tree, names, leads, _, walks, rfl, _⟩ := takes
  rw [Path.startsWith, Path.components_below (ne_empty_of_entry leads) names
    (walks.proper (proper.entry leads)), List.isPrefixOf_iff_prefix]
  exact List.prefix_append _ _

-- An excluded base that cannot be opened is not looked at once the one above it was walked.
example : gather shutDisk { packedSet with includes := ["/p/**/*", "/p/out/*"] } = .ok [] ∧
    gather shutDisk { packedSet with includes := ["/p/out/*", "/p/**/*"] } =
      .error (.unreadable "/p/out" "Permission denied (os error 13)") := by
  decide +kernel

/-! ### Bases that are nested openly, and bases that are not -/

open Gather in
theorem gather_neverEntered_listed :
    (∀ files, gather packedDisk listedSet = .ok files →
      ∃ found, files = Path.distinct (listedSet.files.filter packedDisk.hasFile) ++ found ∧
        ∀ p ∈ found, ∃ base ∈ ["/p/a", "/p"], Path.startsWith p base = true ∧
          (ThroughNeverEntered "/p" (Path.components p).dropLast ↔
            ThroughNeverEntered "/p" (Path.components base))) ∧
      (gather packedDisk listedSet).isOk = true ∧
      SucceedTogether (fun files files' => (files.map Path.key).Perm (files'.map Path.key))
        (gather packedDisk listedSet)
        (gather packedDisk { listedSet with includes := ["/p/**/*", "/p/a/**/*"] }) := by
  have plain : ∀ entry ∈ listedSet.includes, Path.IsPlain entry := by
    refine List.forall_mem_cons.mpr ⟨⟨["p", "a", "**", "*"], ?_⟩,
      List.forall_mem_singleton.mpr ⟨["p", "**", "*"], ?_⟩⟩
    · decide +kernel
    · decide +kernel
  have nested : NestedOpenly packedDisk listedSet.includes :=
    nestedOpenly_of_plain packedDisk plain (by decide +kernel) (by decide +kernel)
  obtain ⟨files, gathered⟩ := exists_gather_eq_ok.mpr (exists_met_of_allOpen packedDisk listedSet
    (by decide +kernel) (by decide +kernel) (by decide +kernel) enters)
  have result := gather_neverEntered packedDisk_proper (by decide +kernel) listedSet
  have bases : walkBases packedDisk listedSet.includes = ["/p/a", "/p"] := by decide +kernel
  rw [bases] at result
  exact ⟨result.1, by rw [gathered]; rfl, result.2 nested _ (List.Perm.swap _ _ _)⟩

/-- A package and nothing else. -/
def libraryDisk : Disk :=
  ⟨.dir [("p", .dir [("node_modules", .dir [("lib", .dir [("a.ts", .file "".toUTF8)])])])], "/"⟩

/-- All sources of a project and, in the given order, those of a package in it. -/
def librarySet (includes : List Path) : Config.FileSet where
  dir := "/p"
  files := []
  includes := includes
  excludes := []
  allowJs := false

open Gather in
/-- A base in a directory that is never entered is walked, unless one above it was walked before. -/
theorem gather_enters_library :
    libraryDisk.root.linkFree = true ∧
      gather libraryDisk (librarySet ["/p/**/*", "/p/node_modules/lib/*"]) = .ok [] ∧
      gather libraryDisk (librarySet ["/p/node_modules/lib/*", "/p/**/*"]) =
        .ok ["/p/node_modules/lib/a.ts"] ∧
      ThroughNeverEntered "/p" (Path.components "/p/node_modules/lib/a.ts").dropLast := by
  have outer : met libraryDisk (librarySet ["/p/**/*", "/p/node_modules/lib/*"]) enters =
      .ok [] := by
    decide +kernel
  have inner : met libraryDisk (librarySet ["/p/node_modules/lib/*", "/p/**/*"]) enters =
      .ok ["/p/node_modules/lib/a.ts"] := by
    decide +kernel
  refine ⟨by decide +kernel, ?_, ?_, ?_⟩
  · exact gather_eq_ok.mpr ⟨_, outer, rfl⟩
  · refine gather_eq_ok.mpr ⟨_, inner, ?_⟩
    simp [Path.distinct, Path.distinctBeyond]
  · exact ⟨[.name "node_modules", .name "lib"], by decide +kernel, "node_modules", by decide,
      by simp⟩

end UnusedMethods
