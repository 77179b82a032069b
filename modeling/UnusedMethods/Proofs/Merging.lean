import UnusedMethods.Proofs.Bases

/-!
# Each setting is decided by the last manifest that sets it

The manifests that a manifest builds on, directly or not, are listed with it so that each comes
after its bases. Of the settings of a file set each is decided on its own: it has the value that the
last manifest of the list gives it, with paths taken from that manifest's own directory. Only what
none of them sets takes a default, and the defaults look at the manifest at the top alone.
-/

namespace UnusedMethods.Config

/-- The value of a setting as the last of some manifests that sets it gives it; none if no one sets
it. A setting is read from a manifest and its directory. -/
def LastSets {α : Type} (setting : Path → Manifest → Option α) (configs : List (Path × Manifest)) :
    Option α → Prop
  | none => ∀ config ∈ configs, setting (directoryOf config.1) config.2 = none
  | some value => ∃ before config after, configs = before ++ config :: after ∧
      setting (directoryOf config.1) config.2 = some value ∧
      ∀ later ∈ after, setting (directoryOf later.1) later.2 = none

/-- Entries of a manifest as paths from its directory. -/
def placed (dir : Path) (entries : List String) : List Path :=
  entries.map fun entry => Path.clean (Path.join dir entry)

/-- A layer in which each setting has the value that the last of some manifests gives it. -/
structure Merges (configs : List (Path × Manifest)) (merged : Layer) : Prop where
  files : LastSets (fun dir manifest => manifest.files.map (placed dir)) configs merged.files
  includes : LastSets (fun dir manifest => manifest.includes.map (placed dir)) configs
    merged.includes
  excludes : LastSets (fun dir manifest => manifest.excludes.map (placed dir)) configs
    merged.excludes
  allowJs : LastSets (fun _ manifest => manifest.options.bind (·.allowJs)) configs merged.allowJs
  outDir : LastSets (fun dir manifest => (manifest.options.bind (·.outDir)).map fun entry =>
    Path.clean (Path.join dir entry)) configs merged.outDir

/-- A file set with the settings of a layer. Without patterns it has all that is below the
directory, unless there are files; without exclusions the usual ones and the output directory. -/
structure FillsIn (home : Path) (merged : Layer) (set : FileSet) : Prop where
  dir : set.dir = home
  files : set.files = merged.files.getD []
  includes : set.includes = merged.includes.getD
    (if merged.files.isSome then [] else [Path.join home "**/*"])
  excludes : set.excludes = merged.excludes.getD
    (["node_modules", "bower_components", "jspm_packages"].map (Path.join home) ++
      merged.outDir.toList)
  allowJs : set.allowJs = merged.allowJs.getD false

/-- A setting that a layer takes from its manifest, and leaves to the layer below where the manifest
does not set it, is decided by the last manifest. -/
theorem lastSets_ofAll {α : Type} (field : Layer → Option α)
    (setting : Path → Manifest → Option α) (unset : field Layer.empty = none)
    (own : ∀ dir manifest, field (Layer.ofManifest dir manifest) = setting dir manifest)
    (falls : ∀ upper lower, field (upper.upon lower) = (field upper <|> field lower))
    (configs : List (Path × Manifest)) :
    LastSets setting configs (field (Layer.ofAll configs)) := by
  induction configs using List.reverseRecOn with
  | nil =>
    rw [show field (Layer.ofAll []) = none from unset]
    intro config member
    cases member
  | append_singleton configs config ih =>
    rw [Layer.ofAll_append, falls, Layer.ofAll_singleton, own]
    cases set : setting (directoryOf config.1) config.2 with
    | some value => exact ⟨configs, config, [], rfl, set, by simp⟩
    | none =>
      -- The last manifest leaves the setting to those before it.
      change LastSets setting _ (field (Layer.ofAll configs))
      cases merged : field (Layer.ofAll configs) with
      | none =>
        rw [merged] at ih
        intro other member
        rcases List.mem_append.mp member with earlier | last
        · exact ih other earlier
        · rw [List.mem_singleton.mp last]
          exact set
      | some value =>
        rw [merged] at ih
        obtain ⟨before, setter, after, rfl, gives, silent⟩ := ih
        refine ⟨before, setter, after ++ [config], by simp, gives, ?_⟩
        intro later member
        rcases List.mem_append.mp member with between | last
        · exact silent later between
        · rw [List.mem_singleton.mp last]
          exact set

theorem merges_ofAll (configs : List (Path × Manifest)) : Merges configs (Layer.ofAll configs) where
  files := lastSets_ofAll Layer.files _ rfl (fun _ _ => rfl) (fun _ _ => rfl) configs
  includes := lastSets_ofAll Layer.includes _ rfl (fun _ _ => rfl) (fun _ _ => rfl) configs
  excludes := lastSets_ofAll Layer.excludes _ rfl (fun _ _ => rfl) (fun _ _ => rfl) configs
  allowJs := lastSets_ofAll Layer.allowJs _ rfl (fun _ _ => rfl) (fun _ _ => rfl) configs
  outDir := lastSets_ofAll Layer.outDir _ rfl (fun _ _ => rfl) (fun _ _ => rfl) configs

theorem fillsIn_ofLayer (dir : Path) (merged : Layer) :
    FillsIn dir merged (FileSet.ofLayer dir merged) where
  dir := rfl
  files := rfl
  includes := by
    unfold FileSet.ofLayer
    cases merged.includes with
    | some includes => rfl
    | none => cases merged.files <;> rfl
  excludes := rfl
  allowJs := rfl

/-- A file set that is loaded has for each setting the value that the last manifest of the list
gives it, and a default for what none of them sets. -/
theorem load_eq_last_set {disk : Disk} {path : Path} {set : FileSet}
    (loaded : FileSet.load disk path = .ok set) :
    ∃ configs, Listing disk [path.clean] configs ∧
      (∀ others, Listing disk [path.clean] others → others = configs) ∧
      (configs.map (·.1)).Nodup ∧
      ∃ merged, Merges configs merged ∧ FillsIn (directoryOf path) merged set := by
  obtain ⟨⟨layer, seen⟩, layered, result⟩ := bind_eq_ok.mp loaded
  cases result
  obtain ⟨configs, listed, layer_eq, met, nodup⟩ := layered_of_layerFrom _ layered
  rw [Layer.upon_empty] at layer_eq
  have once : (configs.map (·.1)).Nodup := by
    have all := met.nodup_iff.mp (nodup .nil)
    rwa [List.append_nil] at all
  refine ⟨configs, listed, fun others other => other.unique listed, once, layer, ?_,
    fillsIn_ofLayer _ layer⟩
  have merges := merges_ofAll configs
  rwa [← layer_eq] at merges

/-- A manifest that builds on another, which builds on a third. The entry before them leads
nowhere. -/
def chainedDisk : Disk where
  root := .dir [("p", .dir [
    ("a", .dir [("tsconfig.json",
      .file "\x7b\"extends\":[\"./x\",\"../b\"],\"files\":[]\x7d".toUTF8)]),
    ("b.json", .file "\x7b\"extends\":\"./c\",\"include\":[\"l\"]\x7d".toUTF8),
    ("c.json", .file "\x7b\"include\":[],\"exclude\":[]\x7d".toUTF8)])]
  current := "/"

def chainedSet : FileSet :=
  ⟨"/p/a", [], ["/p/l"], [], false⟩

theorem chainedSet_load : FileSet.load chainedDisk "/p/a/tsconfig.json" = .ok chainedSet := by
  decide +kernel

theorem load_eq_last_set_chained :
    FileSet.load chainedDisk "/p/a/tsconfig.json" = .ok chainedSet ∧
      ∃ configs, Listing chainedDisk [Path.clean "/p/a/tsconfig.json"] configs ∧
        (∀ others, Listing chainedDisk [Path.clean "/p/a/tsconfig.json"] others →
          others = configs) ∧
        (configs.map (·.1)).Nodup ∧
        ∃ merged, Merges configs merged ∧
          FillsIn (directoryOf "/p/a/tsconfig.json") merged chainedSet :=
  ⟨chainedSet_load, load_eq_last_set chainedSet_load⟩

end UnusedMethods.Config
