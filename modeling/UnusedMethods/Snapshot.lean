import UnusedMethods.Loading

/-!
# Snapshots of the real disk

An analysis works on a `Disk`, a value. Here the part of the real disk that an analysis looks at is
copied into such a value: the manifests, the directories that the include entries name, the listed
files, and the files that imports lead to. Nothing is decided here; the copy is made with the same
functions that the analysis uses to find its files.
-/

namespace UnusedMethods.Snapshot

def troubleOf : IO.Error → Trouble
  | .noFileOrDirectory .. => .missing
  | .permissionDenied .. => .denied
  | other => .other (toString other)

/-- What a path of the real disk leads to, without following a last link, or why that cannot be
told. -/
def kindOf (path : Path) : IO (Except Trouble IO.FS.FileType) := do
  try
    let place := (← IO.currentDir) / path
    return .ok (← place.symlinkMetadata).type
  catch error => return .error (troubleOf error)

def targetOf (path : Path) : IO (Option Path) := do
  try return some (← IO.FS.realPath path).toString catch _ => return none

/-- Copy a file. One that cannot be read is kept with the reason. -/
def fileAt (path : Path) : IO Entry := do
  try return .file (← IO.FS.readBinFile path)
  catch error => return .closed false (troubleOf error)

/-- The names in a directory, or why it cannot be opened. -/
def namesIn (path : Path) : IO (Except Trouble (List String)) := do
  try
    let place := (← IO.currentDir) / path
    return .ok ((← place.readDir).toList.map (·.fileName))
  catch error => return .error (troubleOf error)

/-- What is copied for a listed name whose kind cannot be told. Here its text has to tell files from
directories. -/
def unknownAt (path : Path) (why : Trouble) : Entry :=
  .closed path.extension?.isNone why

/-- Copy a tree of the real disk. Directories that a walk never enters stay empty, and so do files
that are neither sources nor manifests. A directory that cannot be opened is kept with the reason. -/
partial def treeAt (path : Path) : IO (Option Entry) := do
  match ← kindOf path with
  | .ok .dir =>
    match ← namesIn path with
    | .error why => return some (.closed true why)
    | .ok names =>
      let entries ← names.filterMapM fun name => do
        if Gather.neverEntered.contains name then return some (name, Entry.dir [])
        return (← treeAt (Path.join path name)).map (name, ·)
      return some (.dir entries)
  | .ok .file =>
    let wanted := Path.isSource path true || path.extension? == some "json"
    return some (← if wanted then fileAt path else pure (.file .empty))
  | .ok .symlink => return (← targetOf path).map .link
  | .ok _ => return none
  | .error why => return some (unknownAt path why)

/-- Copy what an absolute path leads to, link by link: a file with its bytes, a directory without
its entries. -/
partial def fetch (disk : Disk) (path : Path) : IO Disk := do
  let steps := Path.components path
  let rec go (disk : Disk) (done : Path) : List Path.Component → IO Disk
    | [] => return disk
    | step :: rest => do
      let here := Path.join done step.text
      match ← kindOf here with
      | .ok .symlink =>
        match ← targetOf here with
        | none => return disk
        | some target =>
          -- The rest of the path is sought below the target.
          let disk := disk.insert here (.link target)
          fetch disk (rest.foldl (fun p c => Path.join p c.text) target)
      | .ok .dir =>
        go (if disk.hasDir here then disk else disk.insert here (.dir [])) here rest
      | .ok .file => return disk.insert here (← fileAt here)
      | .ok _ => return disk
      -- Nothing can be looked up in a directory that is closed.
      | .error .denied => return disk.insert done (.closed true .denied)
      | .error _ => return disk
  go disk "" steps

/-- Copy the first of some paths that leads to a file, and what the others lead to before it. -/
def fetchFirst (disk : Disk) (paths : List Path) : IO Disk := do
  let mut disk := disk
  for path in paths do
    if disk.hasFile path then return disk
    disk ← fetch disk path
    if disk.hasFile path then return disk
  return disk

partial def fetchManifest (disk : Disk) (done : List Path) (path : Path) : IO Disk := do
  if done.contains path then return disk
  let mut disk ← fetch disk path
  match Config.Manifest.read disk path with
  | .error _ => return disk
  | .ok manifest =>
    let dir := Config.directoryOf path
    for entry in manifest.baseEntries do
      disk ← fetchFirst disk (Config.baseCandidates dir entry)
      if let some base := Config.findBase? disk dir entry then
        disk ← fetchManifest disk (path :: done) (Path.clean base)
    return disk

/-- Copy the tree to which a path leads, in place of the directory that is there. -/
def fetchTree (disk : Disk) (path : Path) : IO Disk := do
  let disk ← fetch disk path
  match disk.resolve true path with
  | .error _ => return disk
  | .ok names =>
    match ← treeAt (names.foldl Path.join "/") with
    | some tree => return { disk with root := disk.root.insert tree names }
    | none => return disk

def fetchFileSet (disk : Disk) (set : Config.FileSet) : IO Disk := do
  let mut disk := disk
  for entry in set.includes do
    disk ← fetch disk entry
    let base := Gather.walkBase disk entry
    disk ← fetch disk base
  -- An outer directory comes first, since its copy leaves out what is never entered from it.
  let bases := (Gather.walkBases disk set.includes).mergeSort fun a b =>
    decide (a.components.length ≤ b.components.length)
  for base in bases do
    disk ← fetchTree disk base
  for file in set.files do
    disk ← fetch disk file
  return disk

/-- Copy the files that imports lead to, until there are no more of them. -/
partial def fetchImports (disk : Disk) (place : Whereabouts) (set : Config.FileSet)
    (loaded : Nat) : IO Disk := do
  match Project.load disk place (Config.Scan.standard.withKeepGoing true) with
  | .error _ => return disk
  | .ok project =>
    -- No file more than last time, so all that is asked for is there.
    if project.files.length == loaded then return disk
    let mut disk := disk
    for file in project.files do
      for request in file.requests do
        let base? := (Path.parent? file.path).bind (Imports.requested? · request)
        if let some base := base? then
          disk ← fetchFirst disk (Imports.candidates base set.allowJs)
    fetchImports disk place set project.files.length

/-- The part of the real disk that an analysis of a path looks at. -/
def take (current : Path) (path : Path) : IO Disk := do
  let mut disk : Disk := ⟨.dir [], current⟩
  let start := disk.absolute path
  for dir in start :: (Path.parent? start).toList do
    disk ← fetch disk dir
    disk ← fetchManifest disk [] (Path.join dir Whereabouts.manifestName)
    disk ← fetch disk (Path.join dir Whereabouts.usualSource)
  match Whereabouts.locate disk path with
  | .error _ => return disk
  | .ok place =>
    match Config.FileSet.load disk place.manifest with
    | .error _ => return disk
    | .ok set =>
      disk ← fetchFileSet disk set
      fetchImports (← fetchManifest disk [] place.manifest) place set 0

end UnusedMethods.Snapshot
