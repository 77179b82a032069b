import UnusedMethods.Proofs.Loading

/-!
# The manifests that a manifest builds on

A manifest extends others by entries that lead to files, and these may extend others again. Here
this is said without the work that loads them: which manifests one builds on, and how all of them
are listed so that each comes after its own bases. A work that succeeds has come to each manifest of
the list once, and its layer is made of the layers of the list, the later ones above.
-/

namespace UnusedMethods.Config

/-- The manifests that a manifest at a path builds on, in the order of its entries. Entries that
lead nowhere are passed over. -/
def Manifest.basesAt (manifest : Manifest) (disk : Disk) (config : Path) : List Path :=
  (manifest.baseEntries.filterMap (findBase? disk (directoryOf config))).map Path.clean

/-- The manifests that some manifests build on, and they themselves, each after its bases and the
bases in order. -/
inductive Listing (disk : Disk) : List Path → List (Path × Manifest) → Prop
  | nil : Listing disk [] []
  | cons {config : Path} {manifest : Manifest} {others : List Path}
      {below after : List (Path × Manifest)} (read : Manifest.read disk config = .ok manifest)
      (bases : Listing disk (manifest.basesAt disk config) below)
      (rest : Listing disk others after) :
      Listing disk (config :: others) (below ++ (config, manifest) :: after)

/-- There is one such list. -/
theorem Listing.unique {disk : Disk} {roots : List Path} {configs configs' : List (Path × Manifest)}
    (first : Listing disk roots configs) (second : Listing disk roots configs') :
    configs = configs' := by
  induction first generalizing configs' with
  | nil =>
    cases second
    rfl
  | cons read _ _ inBases inRest =>
    cases second with
    | cons read' bases' rest' =>
      obtain rfl := Except.ok.inj (read.symm.trans read')
      rw [inBases bases', inRest rest']

theorem Listing.append {disk : Disk} {roots others : List Path}
    {configs after : List (Path × Manifest)} (first : Listing disk roots configs)
    (second : Listing disk others after) : Listing disk (roots ++ others) (configs ++ after) := by
  induction first with
  | nil => exact second
  | cons read bases _ _ ih =>
    rw [List.append_assoc, List.cons_append, List.cons_append]
    exact .cons read bases ih

/-- What is listed can be read. -/
theorem Listing.read_of_mem {disk : Disk} {roots : List Path} {configs : List (Path × Manifest)}
    (listing : Listing disk roots configs) {entry : Path × Manifest} (member : entry ∈ configs) :
    Manifest.read disk entry.1 = .ok entry.2 := by
  induction listing with
  | nil => cases member
  | cons read _ _ inBases inRest =>
    rcases List.mem_append.mp member with below | here
    · exact inBases below
    · rcases List.mem_cons.mp here with rfl | after
      · exact read
      · exact inRest after

/-- A manifest that can be read lies at a path within the limits of the disk. -/
theorem isShort_of_read {disk : Disk} {config : Path} {manifest : Manifest}
    (read : Manifest.read disk config = .ok manifest) : config.IsShort := by
  unfold Manifest.read at read
  split at read
  · cases read
  next text present =>
    obtain ⟨bytes, present, _⟩ := bind_eq_ok.mp present
    exact disk.isShort_of_read config bytes present

/-! ### Layers upon layers -/

namespace Layer

theorem upon_assoc (a b c : Layer) : (a.upon b).upon c = a.upon (b.upon c) := by
  have orElse_assoc {α : Type} (x y z : Option α) : ((x <|> y) <|> z) = (x <|> (y <|> z)) := by
    cases x <;> rfl
  simp only [upon, orElse_assoc]

theorem upon_empty (layer : Layer) : layer.upon empty = layer := by
  have orElse_none {α : Type} (x : Option α) : (x <|> none) = x := by
    cases x <;> rfl
  simp only [upon, empty, orElse_none]

/-- The layers of some manifests, the later ones above. -/
def ofAll (configs : List (Path × Manifest)) : Layer :=
  configs.foldl (fun lower config => (ofManifest (directoryOf config.1) config.2).upon lower) empty

theorem ofAll_append (configs others : List (Path × Manifest)) :
    ofAll (configs ++ others) = (ofAll others).upon (ofAll configs) := by
  -- The layers that are folded up lie upon whatever the fold starts with.
  have upon_start (start : Layer) :
      others.foldl (fun lower config => (ofManifest (directoryOf config.1) config.2).upon lower)
        start = (ofAll others).upon start := by
    unfold ofAll
    induction others using List.reverseRecOn with
    | nil => rfl
    | append_singleton others config ih =>
      rw [List.foldl_append, List.foldl_append, List.foldl_cons, List.foldl_cons, List.foldl_nil,
        List.foldl_nil, ih, upon_assoc]
  rw [ofAll, List.foldl_append, upon_start]
  rfl

theorem ofAll_singleton (config : Path × Manifest) :
    ofAll [config] = ofManifest (directoryOf config.1) config.2 :=
  upon_empty _

end Layer

/-! ### Loading layers -/

/-- What is said of a manifest that is reached again. -/
def circular (config : Path) : Failure :=
  .badManifest config "Circular extends dependency detected"

/-- One base after another: its layer goes upon those before it. -/
def layerBase (disk : Disk) (fuel : Nat) (state : Layer × List Path) (base : Path) :
    Except Failure (Layer × List Path) := do
  let (layer, seen) ← layerFrom disk fuel state.2 base
  pure (layer.upon state.1, seen)

theorem layerFrom_succ (disk : Disk) (fuel : Nat) (seen : List Path) (path : Path) :
    layerFrom disk (fuel + 1) seen path =
      if path.clean ∈ seen then .error (circular path.clean)
      else Manifest.read disk path.clean >>= fun manifest =>
        (manifest.baseEntries.filterMap (findBase? disk (directoryOf path.clean))).foldlM
          (layerBase disk fuel) (Layer.empty, path.clean :: seen) >>= fun state =>
            .ok ((Layer.ofManifest (directoryOf path.clean) manifest).upon state.1, state.2) := by
  rw [layerFrom]
  simp only [List.contains_iff_mem]
  split
  · rfl
  · refine bind_congr fun manifest => ?_
    rw [List.foldlM_filterMap]
    refine congrArg₂ _ (congrArg (fun step => List.foldlM step _ _) ?_) rfl
    funext state entry
    cases findBase? disk (directoryOf path.clean) entry <;> rfl

/-- What a work over some manifests makes of a layer and of the manifests seen: the layers of the
manifests listed lie upon the layer, and each of the manifests has been seen once. -/
def Layered (disk : Disk) (roots : List Path) (start result : Layer × List Path) : Prop :=
  ∃ configs, Listing disk roots configs ∧ result.1 = (Layer.ofAll configs).upon start.1 ∧
    result.2.Perm (configs.map (·.1) ++ start.2) ∧ (start.2.Nodup → result.2.Nodup)

theorem Layered.append {disk : Disk} {roots others : List Path}
    {start next result : Layer × List Path} (first : Layered disk roots start next)
    (second : Layered disk others next result) : Layered disk (roots ++ others) start result := by
  obtain ⟨configs, listed, layer, met, fresh⟩ := first
  obtain ⟨after, listed', layer', met', fresh'⟩ := second
  -- What the second work saw before was what the first one left.
  refine ⟨configs ++ after, listed.append listed', ?_, ?_, fun nodup => fresh' (fresh nodup)⟩
  · rw [layer', layer, Layer.ofAll_append, Layer.upon_assoc]
  · refine met'.trans ((met.append_left _).trans ?_)
    rw [List.map_append, ← List.append_assoc]
    exact List.perm_append_comm.append_right _

theorem Layered.of_layerBase {disk : Disk} {fuel : Nat}
    (each : ∀ seen path result, layerFrom disk fuel seen path = .ok result →
      Layered disk [path.clean] (Layer.empty, seen) result)
    {start result : Layer × List Path} {base : Path}
    (stepped : layerBase disk fuel start base = .ok result) :
    Layered disk [base.clean] start result := by
  obtain ⟨deeper, loaded, combined⟩ := bind_eq_ok.mp stepped
  cases combined
  obtain ⟨configs, listed, layer, met, nodup⟩ := each _ _ _ loaded
  refine ⟨configs, listed, ?_, met, nodup⟩
  rw [layer, Layer.upon_empty]

theorem layered_of_foldlM {disk : Disk} {fuel : Nat}
    (each : ∀ seen path result, layerFrom disk fuel seen path = .ok result →
      Layered disk [path.clean] (Layer.empty, seen) result)
    (bases : List Path) {start result : Layer × List Path}
    (folded : bases.foldlM (layerBase disk fuel) start = .ok result) :
    Layered disk (bases.map Path.clean) start result := by
  induction bases generalizing start with
  | nil =>
    cases folded
    exact ⟨[], .nil, rfl, .refl _, id⟩
  | cons base bases ih =>
    rw [List.foldlM_cons, bind_eq_ok] at folded
    obtain ⟨next, stepped, rest⟩ := folded
    exact (Layered.of_layerBase each stepped).append (ih rest)

/-- A work that succeeds is made of its list. -/
theorem layered_of_layerFrom {disk : Disk} (fuel : Nat) {seen : List Path} {path : Path}
    {result : Layer × List Path} (loaded : layerFrom disk fuel seen path = .ok result) :
    Layered disk [path.clean] (Layer.empty, seen) result := by
  induction fuel generalizing seen path result with
  | zero => cases loaded
  | succ fuel ih =>
    rw [layerFrom_succ] at loaded
    split at loaded
    · cases loaded
    next fresh =>
      simp only [bind_eq_ok] at loaded
      obtain ⟨manifest, read, lower, folded, combined⟩ := loaded
      cases combined
      obtain ⟨below, listed, layer, met, nodup⟩ :=
        layered_of_foldlM (fun _ _ _ deeper => ih deeper) _ folded
      -- The manifest itself comes last, above the layers of its bases.
      refine ⟨below ++ [(path.clean, manifest)], .cons read listed .nil, ?_, ?_, ?_⟩
      · rw [layer, Layer.ofAll_append, Layer.ofAll_singleton, Layer.upon_empty, Layer.upon_empty]
      · rw [List.map_append, List.append_assoc]
        exact met
      · exact fun seenOnce => nodup (List.nodup_cons.mpr ⟨fresh, seenOnce⟩)

end UnusedMethods.Config
