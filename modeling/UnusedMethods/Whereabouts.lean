import UnusedMethods.Disk
import UnusedMethods.Failure

/-!
# Whereabouts of a project

A project is named by its root, the directory that holds its manifest, or by a source directory
directly below the root. A root alone stands for its usual source directory.
-/

namespace UnusedMethods

/-- Where a project lies and what part of it is searched. -/
structure Whereabouts where
  /-- The directory of the manifest. -/
  root : Path
  /-- The directory whose files are searched. -/
  sourceDir : Path
  manifest : Path
deriving DecidableEq, Repr

namespace Whereabouts

def manifestName : String := "tsconfig.json"

/-- The source directory of a project that is named by its root. -/
def usualSource : String := "src"

def isRoot (disk : Disk) (dir : Path) : Bool :=
  disk.has (Path.join dir manifestName)

/-- The root and the source directory that an absolute path stands for. A path that holds a manifest
is a root even if its parent is one too. -/
def rootAndSource? (disk : Disk) (path : Path) : Option (Path × Path) :=
  if isRoot disk path then some (path, Path.join path usualSource)
  else ((Path.parent? path).filter (isRoot disk)).map fun root => (root, path)

def locate (disk : Disk) (path : Path) : Except Failure Whereabouts :=
  let path := disk.absolute path
  match rootAndSource? disk path with
  | none => .error (.manifestNotFound path)
  | some (root, sourceDir) =>
    -- The usual source directory need not exist.
    if disk.hasDir sourceDir then .ok ⟨root, sourceDir, Path.join root manifestName⟩
    else .error (.sourceDirMissing sourceDir)

end Whereabouts

end UnusedMethods
