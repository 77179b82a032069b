import UnusedMethods.Config.Scan
import UnusedMethods.Failure
import UnusedMethods.Glob.Match

/-!
# Scan targets

Which files are searched: those below the source directory whose path relative to it matches an
include glob and no exclude glob.
-/

namespace UnusedMethods

/-- The globs of a scan configuration, made ready for a source directory. -/
structure Targets where
  sourceDir : Path
  includes : Glob.AnyOf
  excludes : Glob.AnyOf

namespace Targets

def readGlobs (globs : List String) : Except Failure Glob.AnyOf :=
  (Glob.AnyOf.ofTexts globs).mapError fun bad => .badArgument bad.message

/-- The targets below a directory. Bad include globs are reported before bad exclude globs. -/
def ofScan (sourceDir : Path) (scan : Config.Scan) : Except Failure Targets := do
  let includes ← readGlobs scan.includes
  let excludes ← readGlobs scan.excludes
  return ⟨sourceDir, includes, excludes⟩

def contains (targets : Targets) (path : Path) : Bool :=
  match path.relativeTo? targets.sourceDir with
  | none => false
  | some rest => targets.includes.isMatch rest.slashed && !targets.excludes.isMatch rest.slashed

end Targets

end UnusedMethods
