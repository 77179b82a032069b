import UnusedMethods.Proofs.Placement

/-!
# When files are gathered

Files are gathered if the globs of the entries can be read and each directory that a walk enters can
be opened. Nothing else can fail: the bases of the walks are directories, and a listed file that is
missing is left out.
-/

namespace UnusedMethods

/-! ### Directories that can be opened -/

theorem Entry.Reaches.mem_paths {enters : Path → String → Bool} {path : Path} {entry found : Entry}
    {names : List String} (reaches : entry.Reaches enters path names found) :
    names ∈ entry.paths := by
  induction reaches with
  | here _ entry => cases entry <;> simp [paths]
  | on listed _ _ ih => exact List.mem_cons_of_mem _ (mem_pathsIn listed ih)

namespace Disk

/-- All that lies below a base can be opened, whether or not a walk enters it. -/
def allOpen (disk : Disk) (base : Path) : Bool :=
  match disk.entry base with
  | .ok tree => tree.paths.all fun names => (disk.opens (base.below names)).isOk
  | .error _ => true

theorem opensBelow_of_allOpen {disk : Disk} {base : Path} (opened : disk.allOpen base = true)
    (enters : Path → String → Bool) : disk.OpensBelow enters base := by
  intro tree names found leads reaches _
  rw [allOpen, leads] at opened
  obtain ⟨⟨⟩, opens⟩ := exists_eq_ok (List.all_eq_true.mp opened names reaches.mem_paths)
  exact opens

end Disk

/-! ### The bases that are walked -/

namespace Gather

theorem hasDir_of_mem_walkBasesAfter (disk : Disk) (walked bases : List Path) (base : Path)
    (member : base ∈ walkBasesAfter disk walked bases) : disk.hasDir base = true := by
  induction bases generalizing walked with
  | nil => cases member
  | cons first bases ih =>
    rw [walkBasesAfter] at member
    split at member
    · exact ih _ member
    next kept =>
      rcases List.mem_cons.mp member with rfl | later
      · by_contra missing
        simp [missing] at kept
      · exact ih _ later

/-- The walks from the bases of entries come to an end exactly if each directory that they enter can
be opened. -/
theorem exists_walks_eq_ok {disk : Disk} {entries : List Path} {enters : Path → String → Bool} :
    (∃ walks, (walkBases disk entries).mapM (disk.walk enters) = .ok walks) ↔
      ∀ base ∈ walkBases disk entries, disk.OpensBelow enters base := by
  rw [exists_mapM_eq_ok]
  exact forall₂_congr fun base walked =>
    Disk.exists_walk_eq_ok (hasDir_of_mem_walkBasesAfter _ _ _ _ walked)

theorem exists_met_eq_ok {disk : Disk} {set : Config.FileSet}
    {enters : Glob.AnyOf → Path → String → Bool} :
    (∃ found, met disk set enters = .ok found) ↔ ∃ includes excludes,
      Targets.readGlobs (set.includes.map (includeGlob disk)) = .ok includes ∧
      Targets.readGlobs (set.excludes.flatMap excludeGlobs) = .ok excludes ∧
      ∀ base ∈ walkBases disk set.includes, disk.OpensBelow (enters excludes) base := by
  simp only [← exists_walks_eq_ok, met_eq_ok]
  constructor
  · rintro ⟨_, includes, excludes, walks, readIncludes, readExcludes, traversed, _⟩
    exact ⟨includes, excludes, readIncludes, readExcludes, walks, traversed⟩
  · rintro ⟨includes, excludes, readIncludes, readExcludes, walks, traversed⟩
    exact ⟨_, includes, excludes, walks, readIncludes, readExcludes, traversed, rfl⟩

/-- Whether walks come to an end can be seen by evaluation, without the order of the entries. -/
theorem exists_met_of_allOpen (disk : Disk) (set : Config.FileSet)
    (readIncludes : (Targets.readGlobs (set.includes.map (includeGlob disk))).isOk = true)
    (readExcludes : (Targets.readGlobs (set.excludes.flatMap excludeGlobs)).isOk = true)
    (opened : (walkBases disk set.includes).all disk.allOpen = true)
    (enters : Glob.AnyOf → Path → String → Bool) : ∃ found, met disk set enters = .ok found := by
  obtain ⟨includes, readIncludes⟩ := exists_eq_ok readIncludes
  obtain ⟨excludes, readExcludes⟩ := exists_eq_ok readExcludes
  refine exists_met_eq_ok.mpr ⟨includes, excludes, readIncludes, readExcludes, ?_⟩
  exact fun base walked =>
    Disk.opensBelow_of_allOpen (List.all_eq_true.mp opened base walked) (enters excludes)

end Gather

theorem exists_gather_eq_ok {disk : Disk} {set : Config.FileSet} :
    (∃ files, gather disk set = .ok files) ↔
      ∃ found, Gather.met disk set Gather.enters = .ok found := by
  simp only [gather_eq_ok]
  constructor
  · rintro ⟨_, found, succeeded, _⟩
    exact ⟨found, succeeded⟩
  · rintro ⟨found, succeeded⟩
    exact ⟨_, found, succeeded, rfl⟩

end UnusedMethods
