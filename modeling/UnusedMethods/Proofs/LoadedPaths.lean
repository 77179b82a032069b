import UnusedMethods.Proofs.Loading
import UnusedMethods.Proofs.Walks

/-!
# The paths of a loaded project are plain

Whatever gives a project a path cleans it first: the entries of manifests, the walks from them, and
the requests of files. So on a disk whose entries have proper names all files of a project lie at
plain paths, and two files of one cleaned path are one file.
-/

namespace UnusedMethods

/-! ### Requests -/

namespace Path

/-- A text of three characters or more is neither empty nor one of the dots that go nowhere or
up. -/
theorem isName_of_long (name : String) (single : '/' ∉ name.toList)
    (long : 3 ≤ name.toList.length) : IsName name where
  step := by
    simp only [isStep, Bool.and_eq_true, bne_iff_ne, ne_eq]
    constructor
    · rintro rfl
      simp at long
    · rintro rfl
      simp at long
  down := by
    rintro rfl
    simp at long
  single := single

/-- What may end the name of a source file. -/
structure IsEnding (suffix : String) : Prop where
  single : '/' ∉ suffix.toList
  long : 3 ≤ suffix.toList.length

theorem IsEnding.isName_append {suffix : String} (ending : IsEnding suffix) (stem : String)
    (single : '/' ∉ stem.toList) : IsName (stem ++ suffix) := by
  apply isName_of_long
  · rw [String.toList_append, List.mem_append, not_or]
    exact ⟨single, ending.single⟩
  · rw [String.toList_append, List.length_append]
    exact Nat.le_trans ending.long (Nat.le_add_left _ _)

theorem join_append (p : Path) (stem suffix : String) (relative : isAbsolute stem = false)
    (whole : isAbsolute (stem ++ suffix) = false) :
    join p stem ++ suffix = join p (stem ++ suffix) := by
  rw [join, join, relative, whole]
  simp only [Bool.false_eq_true, if_false]
  split
  · rfl
  · split
    · rw [String.append_assoc]
    · rw [String.append_assoc]

/-- A plain path stays plain if a text is put after its last name or after its stem. -/
theorem IsPlain.join_append {p : Path} (plain : IsPlain p) {suffix : String}
    (ending : IsEnding suffix) (stem : String) (single : '/' ∉ stem.toList) :
    IsPlain (Path.join p stem ++ suffix) := by
  have proper := ending.isName_append stem single
  rw [Path.join_append p stem suffix (isAbsolute_of_single single)
    (isAbsolute_of_single proper.single)]
  exact plain.join proper

theorem IsPlain.append {p : Path} (plain : IsPlain p) {suffix : String} (ending : IsEnding suffix) :
    IsPlain (p ++ suffix) := by
  obtain ⟨names, all, rfl⟩ := plain
  cases names using List.reverseRecOn with
  | nil =>
    -- After the root the suffix is a name of its own.
    have proper : IsName suffix := isName_of_long suffix ending.single ending.long
    refine ⟨[suffix], by simpa using proper, ?_⟩
    exact (join_slash suffix ending.single).symm
  | append_singleton names name =>
    have before : IsPlain (ofNames names) :=
      ⟨names, fun n member => all n (List.mem_append_left _ member), rfl⟩
    rw [ofNames_concat]
    exact before.join_append ending name (all name (by simp)).single

theorem splitName_single (name : String) (single : '/' ∉ name.toList) :
    '/' ∉ (splitName name).1.toList := by
  simp only [splitName]
  split
  · exact single
  · intro member
    rw [String.toList_ofList, List.mem_reverse] at member
    exact single (List.mem_reverse.mp (List.mem_of_mem_drop member))

theorem IsPlain.dropExtension_append {p : Path} (plain : IsPlain p) {suffix : String}
    (ending : IsEnding suffix) : IsPlain (p.dropExtension ++ suffix) := by
  unfold dropExtension
  split
  · exact plain.append ending
  next name named =>
    split
    · exact plain.append ending
    next dir parent =>
      apply (plain.parent parent).join_append ending
      apply splitName_single
      -- The file name is a step of the path.
      unfold fileName? at named
      split at named
      next text last =>
        cases named
        have member := List.mem_of_getLast? last
        rw [components_of_isAbsolute p plain.isAbsolute, List.mem_cons] at member
        rcases member with root | step
        · cases root
        · rcases mem_steps p _ step with up | ⟨name, proper, same⟩
          · cases up
          · cases same
            exact proper.single
      · cases named

end Path

namespace Imports

theorem isEnding_of_mem_suffixes (allowJs : Bool) (suffix : String)
    (member : suffix ∈ suffixes allowJs) : Path.IsEnding suffix := by
  have known : suffix ∈ typedSuffixes ++ plainSuffixes := by
    unfold suffixes at member
    split at member
    · exact member
    · exact List.mem_append_left _ member
  simp only [typedSuffixes, plainSuffixes, List.cons_append, List.nil_append, List.mem_cons,
    List.not_mem_nil, or_false] at known
  rcases known with rfl | rfl | rfl | rfl | rfl | rfl | rfl | rfl | rfl
  all_goals exact ⟨by simp, by simp⟩

theorem isEnding_of_mem_sourceSuffixes (extension : Option String) (suffix : String)
    (member : suffix ∈ sourceSuffixes extension) : Path.IsEnding suffix := by
  unfold sourceSuffixes at member
  split at member
  all_goals simp only [List.mem_cons, List.not_mem_nil, or_false] at member
  · rcases member with rfl | rfl | rfl
    all_goals exact ⟨by simp, by simp⟩
  · rcases member with rfl | rfl | rfl
    all_goals exact ⟨by simp, by simp⟩
  · rcases member with rfl | rfl
    all_goals exact ⟨by simp, by simp⟩
  · rcases member with rfl | rfl
    all_goals exact ⟨by simp, by simp⟩

/-- All that a request for a plain path may mean is plain. -/
theorem isPlain_of_mem_candidates (base : Path) (plain : base.IsPlain) (allowJs : Bool)
    (path : Path) (member : path ∈ candidates base allowJs) : path.IsPlain := by
  simp only [candidates, List.cons_append, List.mem_cons, List.mem_append, List.mem_map] at member
  rcases member with rfl | (⟨suffix, listed, rfl⟩ | ⟨suffix, listed, rfl⟩) | ⟨suffix, listed, rfl⟩
  · exact plain
  · exact plain.dropExtension_append (isEnding_of_mem_sourceSuffixes _ _ listed)
  · exact plain.append (isEnding_of_mem_suffixes _ _ listed)
  · have ending := isEnding_of_mem_suffixes _ _ listed
    exact plain.join (ending.isName_append "index" (by simp))

/-- The requests of a file at a plain path lead to plain paths. -/
theorem isPlain_of_resolveFrom (disk : Disk) (allowJs : Bool) (f g : Path) (plain : f.IsPlain)
    (request : String) (resolved : resolveFrom? disk allowJs f request = some g) : g.IsPlain := by
  obtain ⟨dir, parent, found⟩ := Option.bind_eq_some_iff.mp resolved
  obtain ⟨base, asked, chosen⟩ := Option.bind_eq_some_iff.mp found
  have baseEq : base = Path.clean (Path.join dir request) := by
    unfold requested? at asked
    split at asked
    · cases asked
    · simp only at asked
      split at asked
      · cases asked
      · exact (Option.some.inj asked).symm
  subst baseEq
  -- The request is cleaned after it is put below the directory of the file.
  have absolute := Path.isAbsolute_join dir request (plain.parent parent).isAbsolute
  exact isPlain_of_mem_candidates _ (Path.isPlain_clean _ absolute) allowJs g
    (List.mem_of_find?_eq_some chosen)

end Imports

namespace Gather

/-- The part of a plain path before the first wildcard is a shorter path from the root. -/
theorem takeWhile_components (names : List String) (all : ∀ n ∈ names, Path.IsName n) :
    (Path.components (Path.ofNames names)).takeWhile (fun c => !hasWildcard c.text) =
      .root :: (names.takeWhile fun name => !hasWildcard name).map .name := by
  have slash : hasWildcard Path.Component.root.text = false := by decide
  rw [Path.components_ofNames names all, List.takeWhile_cons, List.takeWhile_map, slash]
  rfl

theorem isPlain_walkBase (disk : Disk) (entry : Path) (plain : entry.IsPlain) :
    (walkBase disk entry).IsPlain := by
  obtain ⟨names, all, rfl⟩ := plain
  have base : Path.IsPlain (Path.ofComponents ((Path.components (Path.ofNames names)).takeWhile
      fun c => !hasWildcard c.text)) := by
    rw [takeWhile_components names all, Path.ofComponents_root]
    exact ⟨_, fun name member => all name (List.takeWhile_subset _ member), rfl⟩
  unfold walkBase
  simp only
  split
  · exact base
  · cases parent : Path.parent? (Path.ofComponents ((Path.components (Path.ofNames names)).takeWhile
      fun c => !hasWildcard c.text)) with
    | none => exact base
    | some dir => exact base.parent parent

theorem mem_of_mem_walkBasesAfter (disk : Disk) (walked bases : List Path) (base : Path)
    (member : base ∈ walkBasesAfter disk walked bases) : base ∈ bases := by
  induction bases generalizing walked with
  | nil => exact member
  | cons first bases ih =>
    rw [walkBasesAfter] at member
    split at member
    · exact List.mem_cons_of_mem _ (ih _ member)
    · rcases List.mem_cons.mp member with rfl | later
      · exact List.mem_cons_self
      · exact List.mem_cons_of_mem _ (ih _ later)

end Gather

/-- A file set whose entries are plain. -/
structure Config.FileSet.Plain (set : Config.FileSet) : Prop where
  files : ∀ p ∈ set.files, Path.IsPlain p
  includes : ∀ p ∈ set.includes, Path.IsPlain p

/-- Files are gathered at plain paths. -/
theorem isPlain_of_gather {disk : Disk} (proper : disk.Proper) {set : Config.FileSet}
    (plain : set.Plain) {initial : List Path} (gathered : gather disk set = .ok initial) (p : Path)
    (member : p ∈ initial) : p.IsPlain := by
  obtain ⟨_, met, rfl⟩ := gather_eq_ok.mp gathered
  obtain ⟨_, _, walks, _, _, traversed, rfl⟩ := Gather.met_eq_ok.mp met
  -- A file is listed in the manifest or met on a walk from the base of an entry.
  rcases List.mem_append.mp (Path.mem_of_mem_distinctBeyond _ _ _ member) with listed | found
  · exact plain.files p (List.mem_of_mem_filter listed)
  · obtain ⟨base, base_, files, walked, inside⟩ :=
      (mem_flatten_of_mapM traversed p).mp (List.mem_of_mem_filter found)
    obtain ⟨entry, included, rfl⟩ :=
      List.mem_map.mp (Gather.mem_of_mem_walkBasesAfter disk [] _ base base_)
    exact proper.walk (Gather.isPlain_walkBase disk entry (plain.includes entry included)) walked
      inside

/-! ### Manifests -/

theorem Disk.Proper.resolve_slash {disk : Disk} (proper : disk.Proper) :
    disk.resolve true "/" = .ok [] := by
  obtain ⟨entries, root⟩ := proper.rooted
  have segments : Path.segments "/" = ["", ""] := by decide +kernel
  have written : ("/" : String).isEmpty = false := by decide
  have short : ¬ ("/" : String).utf8ByteSize ≥ pathLimit := by decide
  simp [Disk.resolve, written, short, Path.isAbsolute_slash, segments, Disk.follow, Disk.linkLimit,
    Disk.followWith, root, Entry.descend?, Except.map]

namespace Config

/-- A manifest that is read does not lie at the root itself, which is a directory. -/
theorem ne_slash_of_read {disk : Disk} (proper : disk.Proper) {path : Path} {manifest : Manifest}
    (read : Manifest.read disk path = .ok manifest) : path ≠ "/" := by
  rintro rfl
  obtain ⟨entries, root⟩ := proper.rooted
  have entry : disk.entry "/" = .ok (.dir entries) := by
    rw [Disk.entry, proper.resolve_slash, ← root]
    rfl
  have failed : disk.readText "/" = .error .isDirectory := by
    rw [Disk.readText, Disk.read, entry]
    rfl
  rw [Manifest.read, failed] at read
  cases read

/-- The directory of a plain path other than the root is plain. -/
theorem isPlain_directoryOf {path : Path} (plain : path.IsPlain) (below : path ≠ "/") :
    (directoryOf path).IsPlain := by
  obtain ⟨names, all, rfl⟩ := plain
  cases names using List.reverseRecOn with
  | nil => exact absurd rfl below
  | append_singleton names name =>
    rw [directoryOf, Path.parent_ofNames names name all]
    exact ⟨names, fun n member => all n (List.mem_append_left _ member), rfl⟩

theorem isAbsolute_of_mem_ancestorsAux (fuel : Nat) (p ancestor : Path) (plain : p.IsPlain)
    (member : ancestor ∈ Path.ancestorsAux fuel p) : Path.isAbsolute ancestor = true := by
  induction fuel generalizing p with
  | zero =>
    rw [Path.ancestorsAux, List.mem_singleton] at member
    exact member ▸ plain.isAbsolute
  | succ fuel ih =>
    rw [Path.ancestorsAux] at member
    split at member
    · exact List.mem_singleton.mp member ▸ plain.isAbsolute
    next dir parent =>
      rcases List.mem_cons.mp member with rfl | above
      · exact plain.isAbsolute
      · exact ih dir (plain.parent parent) above

theorem isAbsolute_of_mem_baseForms (base path : Path) (absolute : Path.isAbsolute base = true)
    (member : path ∈ baseForms base) : Path.isAbsolute path = true := by
  have forms : path = base ∨ path = base ++ ".json" ∨ path = Path.join base "tsconfig.json" := by
    unfold baseForms at member
    simp only at member
    split at member
    all_goals
      simp only [List.cons_append, List.nil_append, List.mem_cons, List.not_mem_nil,
        or_false] at member
      tauto
  rcases forms with rfl | rfl | rfl
  · exact absolute
  · exact Path.isAbsolute_append _ _ absolute
  · exact Path.isAbsolute_join _ _ absolute

/-- The manifests that a manifest at a plain path extends have absolute paths. -/
theorem isAbsolute_of_findBase {disk : Disk} {dir base : Path} {entry : String}
    (plain : dir.IsPlain) (found : findBase? disk dir entry = some base) :
    Path.isAbsolute base = true := by
  have member := List.mem_of_find?_eq_some found
  unfold baseCandidates at member
  split at member
  · exact isAbsolute_of_mem_baseForms _ _ (Path.isAbsolute_join _ _ plain.isAbsolute) member
  · obtain ⟨ancestor, above, form⟩ := List.mem_flatMap.mp member
    have absolute := isAbsolute_of_mem_ancestorsAux _ dir ancestor plain above
    exact isAbsolute_of_mem_baseForms _ _
      (Path.isAbsolute_join _ _ (Path.isAbsolute_join _ _ absolute)) form

/-- A layer whose entries are plain. -/
structure Layer.Plain (layer : Layer) : Prop where
  files : ∀ paths, layer.files = some paths → ∀ p ∈ paths, Path.IsPlain p
  includes : ∀ paths, layer.includes = some paths → ∀ p ∈ paths, Path.IsPlain p

theorem eq_some_of_orElse {α : Type} {upper lower : Option α} {value : α}
    (set : (upper <|> lower) = some value) : upper = some value ∨ lower = some value := by
  cases upper with
  | none => exact Or.inr set
  | some own => exact Or.inl set

theorem Layer.Plain.upon {upper lower : Layer} (above : upper.Plain) (beneath : lower.Plain) :
    (upper.upon lower).Plain where
  files := fun paths set =>
    (eq_some_of_orElse set).elim (above.files paths) (beneath.files paths)
  includes := fun paths set =>
    (eq_some_of_orElse set).elim (above.includes paths) (beneath.includes paths)

theorem Layer.plain_ofManifest (dir : Path) (plain : dir.IsPlain) (manifest : Manifest) :
    (Layer.ofManifest dir manifest).Plain := by
  have placed (entries : List String) :
      ∀ p ∈ entries.map (fun entry => Path.clean (Path.join dir entry)), Path.IsPlain p := by
    intro p member
    obtain ⟨entry, _, rfl⟩ := List.mem_map.mp member
    exact Path.isPlain_clean _ (Path.isAbsolute_join _ _ plain.isAbsolute)
  constructor
  · intro paths set
    obtain ⟨entries, _, rfl⟩ := Option.map_eq_some_iff.mp set
    exact placed entries
  · intro paths set
    obtain ⟨entries, _, rfl⟩ := Option.map_eq_some_iff.mp set
    exact placed entries

/-- The layer of a manifest at an absolute path, with all that it extends, is plain. -/
theorem plain_of_layerFrom {disk : Disk} (proper : disk.Proper) (fuel : Nat)
    (seen seen' : List Path) (path : Path) (absolute : Path.isAbsolute path = true) (layer : Layer)
    (loaded : layerFrom disk fuel seen path = .ok (layer, seen')) : layer.Plain := by
  induction fuel generalizing seen path layer seen' with
  | zero => cases loaded
  | succ fuel ih =>
    rw [layerFrom] at loaded
    split at loaded
    · cases loaded
    simp only [bind_eq_ok] at loaded
    obtain ⟨manifest, read, ⟨lower, known⟩, folded, result⟩ := loaded
    cases result
    have dirPlain : (directoryOf path.clean).IsPlain :=
      isPlain_directoryOf (Path.isPlain_clean path absolute) (ne_slash_of_read proper read)
    refine (Layer.plain_ofManifest _ dirPlain manifest).upon ?_
    -- What is extended is folded up from below, and each manifest met on the way is plain itself.
    refine foldlM_keeps (fun state => state.1.Plain) _ ?_ _ _ ?_ folded
    · rintro entry _ ⟨lower, seen⟩ ⟨lower', seen'⟩ beneath stepped
      simp only at stepped
      split at stepped
      · cases stepped
        exact beneath
      next base found =>
        obtain ⟨⟨layer, seen''⟩, deeper, combined⟩ := bind_eq_ok.mp stepped
        cases combined
        exact (ih _ _ base (isAbsolute_of_findBase dirPlain found) layer deeper).upon beneath
    · exact ⟨by rintro _ ⟨⟩, by rintro _ ⟨⟩⟩

theorem isName_stars : ∀ n ∈ ["**", "*"], Path.IsName n :=
  List.forall_mem_cons.mpr ⟨⟨by decide, by decide, by simp⟩,
    List.forall_mem_singleton.mpr ⟨by decide, by decide, by simp⟩⟩

/-- The pattern for all that is below a directory has the text that joining its two names one after
the other gives. -/
theorem join_all (names : List String) (all : ∀ n ∈ names, Path.IsName n) :
    Path.join (Path.ofNames names) "**/*" = Path.ofNames (names ++ ["**", "*"]) := by
  have deep := isName_stars "**" (by simp)
  have any := isName_stars "*" (by simp)
  have ends := Path.segments_ofNames names "**"
    (List.forall_mem_append.mpr ⟨all, List.forall_mem_singleton.mpr deep⟩)
  rw [← List.cons_append] at ends
  have twice : Path.ofNames (names ++ ["**", "*"]) =
      Path.join (Path.ofNames (names ++ ["**"])) "*" := by
    rw [← Path.ofNames_concat, List.append_assoc]
    rfl
  rw [twice, Path.join_of_last _ _ "**" "*" ends (by decide) any.single, Path.ofNames_concat,
    String.append_assoc, Path.join_append _ "**" ("/" ++ "*")
      (Path.isAbsolute_of_single deep.single) (by decide +kernel)]
  rfl

theorem isPlain_join_all {dir : Path} (plain : dir.IsPlain) : (Path.join dir "**/*").IsPlain := by
  obtain ⟨names, all, rfl⟩ := plain
  exact ⟨names ++ ["**", "*"], List.forall_mem_append.mpr ⟨all, isName_stars⟩, join_all names all⟩

/-- The file set of a manifest at a plain path is plain. -/
theorem FileSet.plain_of_load {disk : Disk} (proper : disk.Proper) {path : Path}
    (plain : path.IsPlain) (below : path ≠ "/") {set : FileSet}
    (loaded : FileSet.load disk path = .ok set) : set.Plain := by
  obtain ⟨⟨layer, seen⟩, layered, result⟩ := bind_eq_ok.mp loaded
  cases result
  have layerPlain := plain_of_layerFrom proper _ _ _ path plain.isAbsolute layer layered
  constructor
  · intro p member
    cases files : layer.files with
    | none => simp [ofLayer, files] at member
    | some paths => exact layerPlain.files paths files p (by simpa [ofLayer, files] using member)
  · intro p member
    cases includes : layer.includes with
    | some paths =>
      exact layerPlain.includes paths includes p (by simpa [ofLayer, includes] using member)
    | none =>
      cases files : layer.files with
      | some paths => simp [ofLayer, includes, files] at member
      | none =>
        -- A manifest that lists nothing takes all that is below its directory.
        have all : p = Path.join (directoryOf path) "**/*" := by
          simpa [ofLayer, includes, files] using member
        exact all ▸ isPlain_join_all (isPlain_directoryOf plain below)

end Config

/-! ### Projects -/

/-- The manifest of a project that is located lies at a plain path. -/
theorem Whereabouts.isPlain_manifest {disk : Disk} (proper : disk.Proper) {path : Path}
    {place : Whereabouts} (located : Whereabouts.locate disk path = .ok place) :
    place.manifest.IsPlain ∧ place.manifest ≠ "/" := by
  have named : Path.IsName manifestName := ⟨by decide, by decide, by simp [manifestName]⟩
  have whole : (disk.absolute path).IsPlain := by
    apply Path.isPlain_clean
    split
    · assumption
    · exact Path.isAbsolute_join _ _ proper.current
  have manifest : ∃ root : Path, root.IsPlain ∧ place.manifest = Path.join root manifestName := by
    unfold locate at located
    simp only at located
    split at located
    · cases located
    next root sourceDir found =>
      have rootPlain : root.IsPlain := by
        unfold rootAndSource? at found
        split at found
        · cases found
          exact whole
        · obtain ⟨dir, parent, same⟩ := Option.map_eq_some_iff.mp found
          cases same
          exact whole.parent (Option.filter_eq_some_iff.mp parent).1
      split at located
      · cases located
        exact ⟨root, rootPlain, rfl⟩
      · cases located
  obtain ⟨root, rootPlain, equal⟩ := manifest
  refine ⟨equal ▸ rootPlain.join named, ?_⟩
  intro slash
  -- A manifest ends with its name.
  obtain ⟨names, all, rfl⟩ := rootPlain
  rw [equal] at slash
  have steps := congrArg Path.steps slash
  rw [Path.steps_join _ _ (Path.isAbsolute_of_single named.single), named.steps_eq] at steps
  simp [show Path.steps "/" = [] by decide +kernel] at steps

/-- The files that are discovered from plain paths lie at plain paths. -/
theorem Discovery.Discovers.isPlain {disk : Disk} {allowJs : Bool} {requests : Path → List String}
    {initial order : List Path}
    (discovered : Discovers requests (Imports.resolveFrom? disk allowJs) initial order)
    (plain : ∀ p ∈ initial, p.IsPlain) (p : Path) (member : p ∈ order) : p.IsPlain := by
  refine discovered.least {p | p.IsPlain} plain ?_ p member
  rintro f plainFile _ g ⟨request, _, resolved⟩
  exact Imports.isPlain_of_resolveFrom disk allowJs f g plainFile request resolved

/-- Files discovered at plain paths are told apart by their paths. -/
theorem Discovery.Discovers.nodup {requests : Path → List String}
    {resolve : Path → String → Option Path} {initial order : List Path}
    (discovered : Discovers requests resolve initial order) : order.Nodup :=
  discovered.distinct.of_map

end UnusedMethods
