import UnusedMethods.Proofs.Outcome
import UnusedMethods.Proofs.PlainPath

/-!
# The files that a walk meets

A walk meets a file by the names that lead to it from where the walk starts. Which names these are
is said without the order in which they are met: each directory on the way is one that the walk
enters, and no link lies on the way. The walk comes to an end if each directory that it enters can
be opened, and otherwise fails as opening one of them does.
-/

namespace UnusedMethods

namespace Path

/-! ### Paths below a path -/

/-- The path to which names lead from a path. -/
def below (p : Path) (names : List String) : Path :=
  names.foldl join p

@[simp] theorem below_nil (p : Path) : p.below [] = p := rfl

@[simp] theorem below_cons (p : Path) (name : String) (names : List String) :
    p.below (name :: names) = (join p name).below names := rfl

theorem below_append (p : Path) (names more : List String) :
    p.below (names ++ more) = (p.below names).below more := by
  simp [below]

theorem steps_below (p : Path) (names : List String) (all : ∀ n ∈ names, IsName n) :
    steps (p.below names) = steps p ++ names.map .name := by
  induction names generalizing p with
  | nil => simp
  | cons name names ih =>
    have proper : IsName name := all name List.mem_cons_self
    rw [below_cons, ih _ fun n member => all n (List.mem_cons_of_mem _ member),
      steps_join _ _ (isAbsolute_of_single proper.single), proper.steps_eq, List.map_cons,
      List.append_assoc]
    rfl

theorem below_inj {p : Path} {names others : List String} (all : ∀ n ∈ names, IsName n)
    (allOthers : ∀ n ∈ others, IsName n) : p.below names = p.below others ↔ names = others := by
  constructor
  · intro same
    have parts := congrArg steps same
    rw [steps_below p names all, steps_below p others allOthers,
      List.append_cancel_left_eq] at parts
    exact List.map_injective_iff.mpr (fun _ _ => Component.name.inj) parts
  · exact congrArg p.below

theorem isAbsolute_append_of_ne {p : Path} (written : p ≠ "") (s : String) :
    isAbsolute (p ++ s) = isAbsolute p := by
  rw [Bool.eq_iff_iff, isAbsolute_iff, isAbsolute_iff]
  constructor
  · rintro ⟨rest, whole⟩
    have letters := congrArg String.toList whole
    rw [String.toList_append, String.toList_append] at letters
    cases text : p.toList with
    | nil => exact absurd (String.toList_eq_nil_iff.mp text) written
    | cons c cs =>
      rw [text] at letters
      refine ⟨String.ofList cs, String.toList_inj.mp ?_⟩
      rw [text, String.toList_append, String.toList_ofList]
      simp at letters ⊢
      exact letters.1
  · rintro ⟨rest, rfl⟩
    exact ⟨rest ++ s, String.append_assoc⟩

theorem join_ne_empty (p : Path) {name : String} (proper : IsName name) : join p name ≠ "" := by
  intro empty
  have steps := steps_join p name (isAbsolute_of_single proper.single)
  rw [empty, proper.steps_eq, show Path.steps "" = [] from rfl] at steps
  simp at steps

theorem join_open (p : Path) {name : String} (proper : IsName name) :
    (join p name).endsWith "/" = false := by
  rw [← Bool.not_eq_true, endsWith_slash_iff]
  rintro ⟨start, ends⟩
  -- The last segment is the name, and after a slash it would be empty.
  have last : ∃ before, segments (join p name) = before ++ [name] := by
    rw [join, isAbsolute_of_single proper.single]
    simp only [Bool.false_eq_true, if_false, beq_iff_eq]
    split
    · exact ⟨[], segments_eq_self name proper.single⟩
    · split
      next ended =>
        obtain ⟨front, rfl⟩ := (endsWith_slash_iff p).mp ended
        exact ⟨segments front, by rw [segments_append, segments_eq_self name proper.single]⟩
      · exact ⟨segments p, by rw [segments_append, segments_eq_self name proper.single]⟩
  obtain ⟨before, parts⟩ := last
  have cut := segments_append start ""
  rw [String.append_empty, ← ends, parts, segments_empty] at cut
  exact proper.ne_empty (List.singleton_inj.mp (List.append_inj' cut rfl).2)

/-- What lies below a name is divided from it by one slash. -/
theorem join_join (p : Path) {name : String} (proper : IsName name) {other : String}
    (single : '/' ∉ other.toList) : join (join p name) other = join p name ++ "/" ++ other := by
  rw [join, isAbsolute_of_single single, join_open p proper]
  simp [join_ne_empty p proper]

theorem exists_below_join (p : Path) {name : String} (proper : IsName name) {names : List String}
    (some_ : names ≠ []) (all : ∀ n ∈ names, IsName n) :
    ∃ rest, (join p name).below names = join p name ++ "/" ++ rest := by
  induction names generalizing p name with
  | nil => exact absurd rfl some_
  | cons other names ih =>
    have properOther : IsName other := all other List.mem_cons_self
    rw [below_cons]
    by_cases last : names = []
    · rw [last, below_nil]
      exact ⟨other, join_join p proper properOther.single⟩
    · obtain ⟨rest, text⟩ := ih (join p name) properOther last
        fun n member => all n (List.mem_cons_of_mem _ member)
      refine ⟨other ++ "/" ++ rest, ?_⟩
      rw [text, join_join p proper properOther.single]
      simp [String.append_assoc]

theorem components_join {p : Path} (written : p ≠ "") {name : String} (proper : IsName name) :
    components (join p name) = components p ++ [.name name] := by
  have relative := isAbsolute_of_single proper.single
  have joined := steps_join p name relative
  rw [proper.steps_eq] at joined
  -- The first segment and the slash in front stay as they are.
  have front : isAbsolute (join p name) = isAbsolute p ∧
      (segments (join p name)).head? = (segments p).head? := by
    rw [join, relative]
    simp only [Bool.false_eq_true, if_false, beq_iff_eq, written]
    split
    next ended =>
      obtain ⟨start, rfl⟩ := (endsWith_slash_iff p).mp ended
      refine ⟨isAbsolute_append_of_ne written name, ?_⟩
      have cut := segments_append start ""
      rw [String.append_empty] at cut
      rw [segments_append, cut]
      cases parts : segments start with
      | nil => simp [segments, splitText, pieces_ne_nil] at parts
      | cons first rest => rfl
    · refine ⟨?_, ?_⟩
      · rw [String.append_assoc, isAbsolute_append_of_ne written]
      · rw [segments_append]
        cases parts : segments p with
        | nil => simp [segments, splitText, pieces_ne_nil] at parts
        | cons first rest => rfl
  change (segments (join p name)).filterMap stepOf =
    (segments p).filterMap stepOf ++ [.name name] at joined
  simp only [components, front, joined]
  split
  · rfl
  · split
    · rfl
    · rfl

theorem IsPlain.below {p : Path} (plain : p.IsPlain) {names : List String}
    (all : ∀ n ∈ names, IsName n) : (p.below names).IsPlain := by
  induction names generalizing p with
  | nil => exact plain
  | cons name names ih =>
    exact ih (plain.join (all name List.mem_cons_self)) fun n member =>
      all n (List.mem_cons_of_mem _ member)

theorem components_below {p : Path} (written : p ≠ "") (names : List String)
    (all : ∀ n ∈ names, IsName n) :
    components (p.below names) = components p ++ names.map .name := by
  induction names generalizing p with
  | nil => simp
  | cons name names ih =>
    have proper : IsName name := all name List.mem_cons_self
    rw [below_cons, ih (join_ne_empty p proper) fun n member =>
      all n (List.mem_cons_of_mem _ member), components_join written proper]
    simp

theorem key_below {p : Path} (written : p ≠ "") (names : List String)
    (all : ∀ n ∈ names, IsName n) :
    key (p.below names) = below (key p) names := by
  rw [key, components_below written names all, ofComponents, List.foldl_append, List.foldl_map]
  rfl

/-- Different names lead to different files. -/
theorem key_below_inj {p : Path} (written : p ≠ "") {names others : List String}
    (all : ∀ n ∈ names, IsName n) (allOthers : ∀ n ∈ others, IsName n) :
    key (p.below names) = key (p.below others) ↔ names = others := by
  rw [key_below written names all, key_below written others allOthers, below_inj all allOthers]

end Path

instance : DecidablePred Path.IsName := fun name =>
  decidable_of_iff (Path.isStep name = true ∧ name ≠ ".." ∧ '/' ∉ name.toList)
    ⟨fun ⟨step, down, single⟩ => ⟨step, down, single⟩,
      fun proper => ⟨proper.step, proper.down, proper.single⟩⟩

/-! ### Proper trees -/

/-- A tree whose entries have proper names. -/
inductive Entry.Proper : Entry → Prop
  | file (bytes : ByteArray) : Proper (.file bytes)
  | link (target : Path) : Proper (.link target)
  | closed (isDir : Bool) (why : Trouble) : Proper (.closed isDir why)
  | dir (entries : List (String × Entry)) (names : ∀ e ∈ entries, Path.IsName e.1)
      (below : ∀ e ∈ entries, Proper e.2) : Proper (.dir entries)

/-- A disk as systems keep them: the names of entries are proper, the root is a directory that can
be opened, and the current directory is absolute. -/
structure Disk.Proper (disk : Disk) : Prop where
  entries : disk.root.Proper
  rooted : ∃ entries, disk.root = .dir entries
  current : Path.isAbsolute disk.current = true

namespace Entry

theorem mem_of_lookup {entries : List (String × Entry)} {name : String} {child : Entry}
    (present : entries.lookup name = some child) : (name, child) ∈ entries := by
  obtain ⟨before, after, rfl, _⟩ := List.lookup_eq_some_iff.mp present
  exact List.mem_append_right _ List.mem_cons_self

theorem Proper.of_descend {entry found : Entry} {names : List String} (proper : entry.Proper)
    (descended : entry.descend? names = some found) : found.Proper := by
  induction names generalizing entry with
  | nil =>
    cases descended
    exact proper
  | cons name names ih =>
    obtain ⟨child, present, rest⟩ := Option.bind_eq_some_iff.mp descended
    cases proper with
    | file bytes => cases present
    | link target => cases present
    | closed isDir why => cases present
    | dir entries _ below => exact ih (below _ (mem_of_lookup present)) rest

end Entry

theorem Disk.Proper.entry {disk : Disk} (proper : disk.Proper) {path : Path} {found : Entry}
    (leads : disk.entry path = .ok found) : found.Proper := by
  rw [Disk.entry, bind_eq_ok] at leads
  obtain ⟨names, _, descended⟩ := leads
  split at descended
  next present =>
    cases descended
    exact proper.entries.of_descend present
  · cases descended

/-! ### Lists in order -/

/-- Lists that are related one by one stay so when both are sorted, if related elements are ordered
alike. -/
theorem forall₂_mergeSort {α β : Type} {together : α → β → Prop} (le : α → α → Bool)
    (le' : β → β → Bool)
    (agree : ∀ a b a' b', together a a' → together b b' → le a b = le' a' b') {xs : List α}
    {ys : List β} (related : List.Forall₂ together xs ys) :
    List.Forall₂ together (xs.mergeSort le) (ys.mergeSort le') := by
  -- Both are sorted as the list of their pairs is.
  obtain ⟨same, each⟩ := List.forall₂_iff_zip.mp related
  have left := List.map_mergeSort (r := fun a b => le a.1 b.1) (s := le) (f := Prod.fst)
    (l := xs.zip ys) fun _ _ _ _ => rfl
  have right := List.map_mergeSort (r := fun a b => le a.1 b.1) (s := le') (f := Prod.snd)
    (l := xs.zip ys) fun a first b second => agree _ _ _ _ (each first) (each second)
  rw [List.map_fst_zip (Nat.le_of_eq same)] at left
  rw [List.map_snd_zip (Nat.le_of_eq same.symm)] at right
  rw [← left, ← right, List.forall₂_map_left_iff, List.forall₂_map_right_iff, List.forall₂_same]
  intro pair member
  exact each (List.mem_mergeSort.mp member)

/-! ### Names that a walk takes -/

namespace Entry

/-- Induction on a tree, where a directory may assume what it is about of each of its entries. -/
@[elab_as_elim] theorem induction {motive : Entry → Prop}
    (leaf : ∀ entry, (∀ entries, entry ≠ .dir entries) → motive entry)
    (dir : ∀ entries, (∀ name child, (name, child) ∈ entries → motive child) →
      motive (.dir entries)) : ∀ entry, motive entry
  | .file bytes => leaf _ fun _ => nofun
  | .link target => leaf _ fun _ => nofun
  | .closed isDir why => leaf _ fun _ => nofun
  | .dir entries => dir entries fun _ child _ => induction leaf dir child
decreasing_by
  have smaller := List.sizeOf_lt_of_mem ‹_ ∈ entries›
  simp only [Prod.mk.sizeOf_spec, Entry.dir.sizeOf_spec] at smaller ⊢
  omega

/-- Names lead from an entry to another, and each directory that they lead to on the way is
entered. -/
inductive Reaches (enters : Path → String → Bool) : Path → Entry → List String → Entry → Prop
  | here (path : Path) (entry : Entry) : Reaches enters path entry [] entry
  | on {path : Path} {entries : List (String × Entry)} {name : String} {child found : Entry}
      {names : List String} (listed : (name, child) ∈ entries)
      (entered : child.isDir = true → enters (Path.join path name) name = true)
      (below : Reaches enters (Path.join path name) child names found) :
      Reaches enters path (.dir entries) (name :: names) found

/-- Names lead from an entry to a file through directories that are entered. -/
def Walks (enters : Path → String → Bool) (path : Path) (entry : Entry) (names : List String) :
    Prop :=
  ∃ found, entry.Reaches enters path names found ∧ found.isFile = true

variable {opens : Path → Except Failure Unit} {enters : Path → String → Bool}

theorem Reaches.proper {path : Path} {entry found : Entry} {names : List String}
    (reaches : entry.Reaches enters path names found) (proper : entry.Proper) :
    ∀ n ∈ names, Path.IsName n := by
  induction reaches with
  | here => simp
  | on listed entered below ih =>
    cases proper with
    | dir entries isName inside =>
      exact List.forall_mem_cons.mpr ⟨isName _ listed, ih (inside _ listed)⟩

theorem Walks.proper {path : Path} {entry : Entry} {names : List String}
    (walks : entry.Walks enters path names) (proper : entry.Proper) :
    ∀ n ∈ names, Path.IsName n := by
  obtain ⟨_, reaches, _⟩ := walks
  exact reaches.proper proper

theorem Walks.ne_nil {path : Path} {entry : Entry} {names : List String}
    (walks : entry.Walks enters path names) (isDir : entry.isDir = true) : names ≠ [] := by
  obtain ⟨found, reaches, isFile⟩ := walks
  cases reaches with
  | here => cases entry <;> simp_all [Entry.isDir, Entry.isFile]
  | on => simp

/-! ### What a walk comes to -/

/-- What a walk finds at an entry of a directory. -/
def found (opens : Path → Except Failure Unit) (enters : Path → String → Bool) (path : Path)
    (e : String × Entry) : Found where
  isDir := e.2.isDir
  name := e.1
  files :=
    if e.2.isDir && !enters (Path.join path e.1) e.1 then .ok []
    else e.2.walk opens enters (Path.join path e.1)

theorem walkAll_eq_map (path : Path) (entries : List (String × Entry)) :
    walkAll opens enters path entries = entries.map (found opens enters path) := by
  induction entries with
  | nil => rw [walkAll]; rfl
  | cons e entries ih => rw [walkAll, ih]; rfl

theorem walk_dir (path : Path) (entries : List (String × Entry)) :
    (dir entries).walk opens enters path = (do
      opens path
      let founds := (entries.map (found opens enters path)).mergeSort Found.precedes
      return (← founds.mapM (·.files)).flatten) := by
  rw [walk, walkAll_eq_map]

/-- Two walks sort the entries of a directory alike, so that what they find is related one by one
if it is related at each entry. -/
theorem forall₂_mergeSort_found {opens' : Path → Except Failure Unit}
    {enters' : Path → String → Bool} {path path' : Path} {entries : List (String × Entry)}
    {related : Except Failure (List Path) → Except Failure (List Path) → Prop}
    (each : ∀ e ∈ entries, related (found opens enters path e).files
      (found opens' enters' path' e).files) :
    List.Forall₂ (fun found found' => related found.files found'.files)
      ((entries.map (found opens enters path)).mergeSort Found.precedes)
      ((entries.map (found opens' enters' path')).mergeSort Found.precedes) := by
  have alike : List.Forall₂ (fun found found' : Found =>
      (found.isDir = found'.isDir ∧ found.name = found'.name) ∧ related found.files found'.files)
      (entries.map (found opens enters path)) (entries.map (found opens' enters' path')) := by
    rw [List.forall₂_map_left_iff, List.forall₂_map_right_iff, List.forall₂_same]
    exact fun e listed => ⟨⟨rfl, rfl⟩, each e listed⟩
  refine (forall₂_mergeSort Found.precedes Found.precedes ?_ alike).imp fun _ _ found => found.2
  rintro a b a' b' ⟨⟨kind, name⟩, _⟩ ⟨⟨kind', name'⟩, _⟩
  simp only [Found.precedes, kind, name, kind', name']

theorem found_files_of_entered {path : Path} {name : String} {child : Entry}
    (entered : child.isDir = true → enters (Path.join path name) name = true) :
    (found opens enters path (name, child)).files =
      child.walk opens enters (Path.join path name) :=
  if_neg (by simpa using entered)

/-- At an entry that is entered a walk finds what is below it, and nothing at another. -/
theorem found_files (opens : Path → Except Failure Unit) (enters : Path → String → Bool)
    (path : Path) (name : String) (child : Entry) :
    ((child.isDir = true → enters (Path.join path name) name = true) ∧
        (found opens enters path (name, child)).files =
          child.walk opens enters (Path.join path name)) ∨
      child.isDir = true ∧ enters (Path.join path name) name = false ∧
        (found opens enters path (name, child)).files = .ok [] := by
  by_cases entered : child.isDir = true → enters (Path.join path name) name = true
  · exact .inl ⟨entered, found_files_of_entered entered⟩
  · simp only [Classical.not_imp, Bool.not_eq_true] at entered
    exact .inr ⟨entered.1, entered.2, if_pos (by simp [entered])⟩

theorem walk_dir_eq_ok {path : Path} {entries : List (String × Entry)} {files : List Path}
    (walked : (dir entries).walk opens enters path = .ok files) :
    opens path = .ok () ∧ ∃ lists,
      ((entries.map (found opens enters path)).mergeSort Found.precedes).mapM (·.files) =
        .ok lists ∧ files = lists.flatten := by
  rw [walk_dir] at walked
  obtain ⟨_, opened, walked⟩ := bind_eq_ok.mp walked
  obtain ⟨lists, traversed, result⟩ := bind_eq_ok.mp walked
  cases result
  exact ⟨opened, lists, traversed, rfl⟩

/-- Where there are no entries below, there is at most a directory to open and a file to meet. -/
theorem walk_leaf {entry : Entry} (leaf : ∀ entries, entry ≠ .dir entries) (path : Path) :
    entry.walk opens enters path = (if entry.isDir then opens path else .ok ()) >>= fun _ =>
      .ok (if entry.isFile then [path] else []) := by
  cases entry with
  | file bytes => rw [walk]; rfl
  | link target => rw [walk]; rfl
  | closed isDir why => cases isDir <;> rw [walk] <;> rfl
  | dir entries => exact absurd rfl (leaf entries)

/-- No names lead on from an entry that holds no others. -/
theorem reaches_leaf {entry : Entry} (leaf : ∀ entries, entry ≠ .dir entries) {path : Path}
    {names : List String} {found : Entry} :
    entry.Reaches enters path names found ↔ names = [] ∧ found = entry := by
  constructor
  · rintro (_ | _)
    · exact ⟨rfl, rfl⟩
    · exact absurd rfl (leaf _)
  · rintro ⟨rfl, rfl⟩
    exact .here ..

theorem walks_leaf {entry : Entry} (leaf : ∀ entries, entry ≠ .dir entries) {path : Path}
    {names : List String} :
    entry.Walks enters path names ↔ names = [] ∧ entry.isFile = true := by
  simp [Walks, reaches_leaf leaf, and_assoc]

/-- From a directory names lead to a file through one of its entries. -/
theorem walks_dir {path : Path} {entries : List (String × Entry)} {names : List String} :
    (dir entries).Walks enters path names ↔ ∃ name child more, (name, child) ∈ entries ∧
      (child.isDir = true → enters (Path.join path name) name = true) ∧
      child.Walks enters (Path.join path name) more ∧ names = name :: more := by
  constructor
  · rintro ⟨found, _ | ⟨listed, entered, below⟩, isFile⟩
    · cases isFile
    · exact ⟨_, _, _, listed, entered, ⟨found, below, isFile⟩, rfl⟩
  · rintro ⟨name, child, more, listed, entered, ⟨found, below, isFile⟩, rfl⟩
    exact ⟨found, .on listed entered below, isFile⟩

/-- A walk that goes through a directory goes through each entry that it enters there. -/
theorem exists_walk_of_walk_dir {path : Path} {entries : List (String × Entry)} {files : List Path}
    (walked : (dir entries).walk opens enters path = .ok files) {name : String} {child : Entry}
    (listed : (name, child) ∈ entries)
    (entered : child.isDir = true → enters (Path.join path name) name = true) :
    ∃ ps, child.walk opens enters (Path.join path name) = .ok ps ∧ ps ⊆ files := by
  obtain ⟨_, lists, traversed, rfl⟩ := walk_dir_eq_ok walked
  have sorted : found opens enters path (name, child) ∈
      (entries.map (found opens enters path)).mergeSort Found.precedes :=
    List.mem_mergeSort.mpr (List.mem_map_of_mem listed)
  obtain ⟨ps, met⟩ := exists_mapM_eq_ok.mp ⟨lists, traversed⟩ _ sorted
  refine ⟨ps, (found_files_of_entered entered).symm.trans met, fun p member => ?_⟩
  exact (mem_flatten_of_mapM traversed p).mpr ⟨_, sorted, ps, met, member⟩

/-- A walk meets the files to which names lead through directories that it enters. -/
theorem mem_walk {path : Path} {entry : Entry} {files : List Path}
    (walked : entry.walk opens enters path = .ok files) (p : Path) :
    p ∈ files ↔ ∃ names, entry.Walks enters path names ∧ p = path.below names := by
  induction entry using Entry.induction generalizing path files with
  | leaf entry leaf =>
    rw [walk_leaf leaf] at walked
    obtain ⟨_, _, met⟩ := bind_eq_ok.mp walked
    cases met
    cases isFile : entry.isFile <;> simp [walks_leaf leaf, isFile]
  | dir entries ih =>
    simp only [walks_dir]
    constructor
    · intro member
      obtain ⟨_, lists, traversed, rfl⟩ := walk_dir_eq_ok walked
      obtain ⟨_, sorted, ps, met, inside⟩ := (mem_flatten_of_mapM traversed p).mp member
      obtain ⟨⟨name, child⟩, listed, rfl⟩ := List.mem_map.mp (List.mem_mergeSort.mp sorted)
      rcases found_files opens enters path name child with ⟨entered, same⟩ | ⟨_, _, nothing⟩
      · obtain ⟨more, walks, rfl⟩ := (ih name child listed (same.symm.trans met)).mp inside
        exact ⟨_, ⟨name, child, more, listed, entered, walks, rfl⟩, rfl⟩
      · cases nothing.symm.trans met
        cases inside
    · rintro ⟨_, ⟨name, child, more, listed, entered, walks, rfl⟩, rfl⟩
      obtain ⟨ps, below, inside⟩ := exists_walk_of_walk_dir walked listed entered
      exact inside ((ih name child listed below).mpr ⟨more, walks, rfl⟩)

/-! ### Whether a walk comes to an end -/

/-- A walk that comes to an end has opened each directory that it enters. -/
theorem opens_of_walk {path : Path} {entry found : Entry} {names : List String}
    (reaches : entry.Reaches enters path names found) (isDir : found.isDir = true)
    {files : List Path} (walked : entry.walk opens enters path = .ok files) :
    opens (path.below names) = .ok () := by
  induction reaches generalizing files with
  | here path entry =>
    cases entry with
    | file bytes => cases isDir
    | link target => cases isDir
    | dir entries => exact (walk_dir_eq_ok walked).1
    | closed isDir' why =>
      cases isDir
      rw [walk] at walked
      exact (bind_eq_ok.mp walked).choose_spec.1
  | on listed entered below ih =>
    obtain ⟨ps, walkedBelow, _⟩ := exists_walk_of_walk_dir walked listed entered
    exact ih isDir walkedBelow

/-- A walk fails as opening a directory fails that it enters. -/
theorem exists_of_walk_eq_error {path : Path} {entry : Entry} {failure : Failure}
    (failed : entry.walk opens enters path = .error failure) :
    ∃ names found, entry.Reaches enters path names found ∧ found.isDir = true ∧
      opens (path.below names) = .error failure := by
  induction entry using Entry.induction generalizing path with
  | leaf entry leaf =>
    rw [walk_leaf leaf] at failed
    rcases bind_eq_error.mp failed with shut | ⟨_, _, ⟨⟩⟩
    split at shut
    next isDir => exact ⟨[], entry, .here .., isDir, shut⟩
    · cases shut
  | dir entries ih =>
    rw [walk_dir] at failed
    rcases bind_eq_error.mp failed with shut | ⟨_, _, failed⟩
    · exact ⟨[], _, .here .., rfl, shut⟩
    · rcases bind_eq_error.mp failed with failed | ⟨_, _, ⟨⟩⟩
      obtain ⟨_, sorted, met⟩ := mapM_eq_error failed
      obtain ⟨⟨name, child⟩, listed, rfl⟩ := List.mem_map.mp (List.mem_mergeSort.mp sorted)
      rcases found_files opens enters path name child with ⟨entered, same⟩ | ⟨_, _, nothing⟩
      · obtain ⟨names, found, reaches, isDir, shut⟩ := ih name child listed (same.symm.trans met)
        exact ⟨name :: names, found, .on listed entered reaches, isDir, shut⟩
      · cases nothing.symm.trans met

end Entry

namespace Disk

/-- Each directory that a walk from a base enters can be opened. -/
def OpensBelow (disk : Disk) (enters : Path → String → Bool) (base : Path) : Prop :=
  ∀ tree names found, disk.entry base = .ok tree → tree.Reaches enters base names found →
    found.isDir = true → disk.opens (base.below names) = .ok ()

variable {disk : Disk} {enters : Path → String → Bool} {base : Path}

theorem exists_entry_of_hasDir {path : Path} (isDir : disk.hasDir path = true) :
    ∃ tree, disk.entry path = .ok tree ∧ tree.isDir = true := by
  unfold hasDir at isDir
  split at isDir
  next tree leads => exact ⟨tree, leads, isDir⟩
  · cases isDir

theorem exists_of_opens_eq_error {path : Path} {failure : Failure}
    (shut : disk.opens path = .error failure) : ∃ why, failure = .unreadable path why := by
  unfold opens at shut
  split at shut
  · cases shut
    exact ⟨_, rfl⟩
  · cases shut
    exact ⟨_, rfl⟩
  · cases shut

/-- A walk of a disk meets the files to which names lead from the base. -/
theorem mem_walk {files : List Path} (walked : disk.walk enters base = .ok files) (p : Path) :
    p ∈ files ↔ ∃ tree names, disk.entry base = .ok tree ∧ tree.Walks enters base names ∧
      p = base.below names := by
  unfold walk at walked
  split at walked
  · cases walked
  next tree leads =>
    rw [Entry.mem_walk walked, leads]
    constructor
    · rintro ⟨names, walks, text⟩
      exact ⟨_, names, rfl, walks, text⟩
    · rintro ⟨_, names, ⟨⟩, walks, text⟩
      exact ⟨names, walks, text⟩

/-- A walk fails at a directory that it enters and that cannot be opened. -/
theorem exists_of_walk_eq_error {failure : Failure} (isDir : disk.hasDir base = true)
    (failed : disk.walk enters base = .error failure) :
    ∃ tree names found, disk.entry base = .ok tree ∧ tree.Reaches enters base names found ∧
      found.isDir = true ∧ disk.opens (base.below names) = .error failure := by
  obtain ⟨tree, leads, _⟩ := exists_entry_of_hasDir isDir
  rw [walk, leads] at failed
  obtain ⟨names, found, reaches, isDir, shut⟩ := Entry.exists_of_walk_eq_error failed
  exact ⟨tree, names, found, leads, reaches, isDir, shut⟩

/-- A walk comes to an end exactly if it can open each directory that it enters. -/
theorem exists_walk_eq_ok (isDir : disk.hasDir base = true) :
    (∃ files, disk.walk enters base = .ok files) ↔ disk.OpensBelow enters base := by
  constructor
  · rintro ⟨files, walked⟩ tree names found leads reaches isDir
    rw [walk, leads] at walked
    exact Entry.opens_of_walk reaches isDir walked
  · intro opened
    cases walked : disk.walk enters base with
    | ok files => exact ⟨files, rfl⟩
    | error failure =>
      obtain ⟨tree, names, found, leads, reaches, isDir, shut⟩ :=
        exists_of_walk_eq_error isDir walked
      cases (opened tree names found leads reaches isDir).symm.trans shut

theorem Proper.walk (proper : disk.Proper) (plain : base.IsPlain) {files : List Path}
    (walked : disk.walk enters base = .ok files) {p : Path} (member : p ∈ files) : p.IsPlain := by
  obtain ⟨tree, names, leads, walks, rfl⟩ := (mem_walk walked p).mp member
  exact plain.below (walks.proper (proper.entry leads))

end Disk

end UnusedMethods
