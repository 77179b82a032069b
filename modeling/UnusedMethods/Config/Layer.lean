import UnusedMethods.Config.Manifest
import UnusedMethods.Disk
import UnusedMethods.Failure

/-!
# Layers of manifests

A manifest may extend others. Each manifest gives a layer of settings, already resolved against its
directory; the layers of the manifests that it extends lie below its own, later ones above earlier
ones. What no layer sets takes a default.

No manifest is read twice: one that is reached again is a circle. So the depth is bounded by the
number of paths.
-/

namespace UnusedMethods.Config

/-- Settings that may be left open. -/
structure Layer where
  files : Option (List Path)
  includes : Option (List Path)
  excludes : Option (List Path)
  allowJs : Option Bool
  outDir : Option Path
deriving DecidableEq, Repr

namespace Layer

def empty : Layer :=
  ⟨none, none, none, none, none⟩

/-- A layer upon another: what it sets counts. -/
def upon (upper lower : Layer) : Layer where
  files := upper.files <|> lower.files
  includes := upper.includes <|> lower.includes
  excludes := upper.excludes <|> lower.excludes
  allowJs := upper.allowJs <|> lower.allowJs
  outDir := upper.outDir <|> lower.outDir

/-- The settings of a manifest in a directory. -/
def ofManifest (dir : Path) (manifest : Manifest) : Layer :=
  let place (entry : String) : Path := Path.clean (Path.join dir entry)
  let options := manifest.options
  { files := manifest.files.map (·.map place)
    includes := manifest.includes.map (·.map place)
    excludes := manifest.excludes.map (·.map place)
    allowJs := options.bind (·.allowJs)
    outDir := (options.bind (·.outDir)).map place }

end Layer

def directoryOf (path : Path) : Path :=
  (Path.parent? path).getD "."

/-- The manifests that a manifest extends, in order. -/
def Manifest.baseEntries (manifest : Manifest) : List String :=
  manifest.bases.elim [] Bases.entries

def Manifest.read (disk : Disk) (path : Path) : Except Failure Manifest :=
  match disk.readText path with
  | .error trouble => .error (.unreadable path trouble.message)
  | .ok text => Manifest.parse path text

/-- The paths that an extended manifest may have: as it is named, with an extension, or in a
directory of the name. -/
def baseForms (base : Path) : List Path :=
  let named := if Path.extension? base == some "json" then [base] else [base, base ++ ".json"]
  named ++ [Path.join base "tsconfig.json"]

/-- All paths where an extended manifest is sought, in order. A relative or absolute entry is taken
from the directory; any other is a package, sought upwards. -/
def baseCandidates (dir : Path) (entry : String) : List Path :=
  if entry.startsWith "./" || entry.startsWith "../" || Path.isAbsolute entry then
    baseForms (Path.join dir entry)
  -- All forms in one directory come before any in the directory above.
  else (Path.ancestors dir).flatMap fun ancestor =>
    baseForms (Path.join (Path.join ancestor "node_modules") entry)

/-- The manifest that an entry names, if there is one. -/
def findBase? (disk : Disk) (dir : Path) (entry : String) : Option Path :=
  (baseCandidates dir entry).find? disk.hasFile

/-- The layer of a manifest with those that it extends, and the manifests seen so far. The fuel
bounds the number of manifests on the way. -/
def layerFrom (disk : Disk) : Nat → List Path → Path → Except Failure (Layer × List Path)
  | 0, _, path => .error (.badManifest (Path.clean path) "Circular extends dependency detected")
  | fuel + 1, seen, path => do
    let path := Path.clean path
    if seen.contains path then
      throw (.badManifest path "Circular extends dependency detected")
    let manifest ← Manifest.read disk path
    let dir := directoryOf path
    -- What was seen below one entry counts as seen for the entries after it.
    let (lower, seen) ← manifest.baseEntries.foldlM (fun (lower, seen) entry =>
      match findBase? disk dir entry with
      | none => pure (lower, seen)
      | some base => do
        let (layer, seen) ← layerFrom disk fuel seen base
        pure (layer.upon lower, seen)) (Layer.empty, path :: seen)
    pure ((Layer.ofManifest dir manifest).upon lower, seen)

structure FileSet where
  /-- The directory of the manifest. -/
  dir : Path
  /-- Files that belong to the project in any case. -/
  files : List Path
  includes : List Path
  excludes : List Path
  allowJs : Bool
deriving DecidableEq, Repr

/-- The directories that are left out if a manifest does not say otherwise. -/
def defaultExcludes : List String :=
  ["node_modules", "bower_components", "jspm_packages"]

/-- A layer with its open settings filled in. Without any files or patterns all below the manifest
is meant. -/
def FileSet.ofLayer (dir : Path) (layer : Layer) : FileSet where
  dir := dir
  files := layer.files.getD []
  includes := match layer.includes, layer.files with
    | some includes, _ => includes
    | none, some _ => []
    | none, none => [Path.join dir "**/*"]
  excludes := layer.excludes.getD
    (defaultExcludes.map (Path.join dir ·) ++ layer.outDir.toList)
  allowJs := layer.allowJs.getD false

/-- What the manifest at a path says that its project consists of. -/
def FileSet.load (disk : Disk) (path : Path) : Except Failure FileSet := do
  let (layer, _) ← layerFrom disk Disk.pathCount [] path
  pure (FileSet.ofLayer (directoryOf path) layer)

end UnusedMethods.Config
