import Std.Data.HashSet
import UnusedMethods.Config.Layer
import UnusedMethods.Targets

/-!
# Gathering a project's files

A file set is turned into the list of files that it describes: the listed files that exist, then
those that its include entries match. For each include entry the directories below its literal part
are walked, unless an earlier walk has covered them. No path is listed twice.
-/

namespace UnusedMethods

namespace Path

/-- A text that is the same for paths of the same components. -/
def key (p : Path) : String :=
  ofComponents (components p)

/-- The paths that are not among the given keys, each where it occurs first. -/
def distinctBeyond (seen : Std.HashSet String) : List Path → List Path
  | [] => []
  | p :: rest =>
    if seen.contains p.key then distinctBeyond seen rest
    else p :: distinctBeyond (seen.insert p.key) rest

def distinct (paths : List Path) : List Path :=
  distinctBeyond ∅ paths

end Path

namespace Gather

/-- A segment that is a pattern rather than a name. -/
def hasWildcard (segment : String) : Bool :=
  segment.toList.any fun c => c == '*' || c == '?' || c == '[' || c == '\x7b'

/-- A text without the slashes at its end. -/
def withoutEndSlashes (text : String) : String :=
  String.ofList (text.toList.reverse.dropWhile (· == '/')).reverse

/-- Whether an include entry names a directory: its last segment is no pattern, and has no dot or
leads to a directory. -/
def namesDir (disk : Disk) (entry : Path) : Bool :=
  let last := (Path.segments entry.slashed).getLastD ""
  !hasWildcard last && (!last.contains '.' || disk.hasDir entry)

/-- The glob of an include entry. A directory stands for all that is below it. -/
def includeGlob (disk : Disk) (entry : Path) : String :=
  if namesDir disk entry then withoutEndSlashes entry.slashed ++ "/**/*" else entry.slashed

/-- The globs of an exclude entry: what is below it, and itself. -/
def excludeGlobs (entry : Path) : List String :=
  let text := withoutEndSlashes entry.slashed
  [text ++ "/**", text]

/-- The directory from which the matches of an include entry are sought: its part before the first
pattern. An entry without a pattern is itself a directory, or a file in one. -/
def walkBase (disk : Disk) (entry : Path) : Path :=
  let components := Path.components entry
  let literal := components.takeWhile fun c => !hasWildcard c.text
  let base := Path.ofComponents literal
  -- Here only the disk decides what is a directory, while `namesDir` also goes by the name.
  if literal.length < components.length || disk.hasDir entry then base
  else (Path.parent? base).getD base

/-- The directories to walk, given those walked before: each that exists and that no earlier walk
covers. -/
def walkBasesAfter (disk : Disk) (walked : List Path) : List Path → List Path
  | [] => []
  | base :: rest =>
    if !disk.hasDir base || walked.any (Path.startsWith base ·) then
      walkBasesAfter disk walked rest
    else base :: walkBasesAfter disk (walked ++ [base]) rest

def walkBases (disk : Disk) (entries : List Path) : List Path :=
  walkBasesAfter disk [] (entries.map (walkBase disk))

def neverEntered : List String :=
  ["node_modules", ".git"]

def enters (excludes : Glob.AnyOf) (path : Path) (name : String) : Bool :=
  !neverEntered.contains name && !excludes.isMatch path.slashed

/-- Whether a file that a walk meets belongs to the project. -/
def admits (includes excludes : Glob.AnyOf) (allowJs : Bool) (path : Path) : Bool :=
  path.isSource allowJs && includes.isMatch path.slashed && !excludes.isMatch path.slashed

/-- The files that a file set describes, in order and as often as they are met. The directories to
enter are told by the exclude globs. Bad include globs are reported before bad exclude globs. -/
def met (disk : Disk) (set : Config.FileSet) (enters : Glob.AnyOf → Path → String → Bool) :
    Except Failure (List Path) := do
  let includes ← Targets.readGlobs (set.includes.map (includeGlob disk))
  let excludes ← Targets.readGlobs (set.excludes.flatMap excludeGlobs)
  -- Listed files are taken whatever their extension and whatever is excluded.
  let listed := set.files.filter disk.hasFile
  let walks ← (walkBases disk set.includes).mapM (disk.walk (enters excludes))
  return listed ++ walks.flatten.filter (admits includes excludes set.allowJs)

theorem met_eq_ok {disk : Disk} {set : Config.FileSet}
    {enters : Glob.AnyOf → Path → String → Bool} {found : List Path} :
    met disk set enters = .ok found ↔ ∃ includes excludes walks,
      Targets.readGlobs (set.includes.map (includeGlob disk)) = .ok includes ∧
      Targets.readGlobs (set.excludes.flatMap excludeGlobs) = .ok excludes ∧
      (walkBases disk set.includes).mapM (disk.walk (enters excludes)) = .ok walks ∧
      set.files.filter disk.hasFile ++
        walks.flatten.filter (admits includes excludes set.allowJs) = found := by
  simp [met, bind_eq_ok, pure, Except.pure]

end Gather

/-- The files that a file set describes, in order. It is an error if a directory that is entered on
the way cannot be opened. -/
def gather (disk : Disk) (set : Config.FileSet) : Except Failure (List Path) := do
  return Path.distinct (← Gather.met disk set Gather.enters)

theorem gather_eq_ok {disk : Disk} {set : Config.FileSet} {files : List Path} :
    gather disk set = .ok files ↔
      ∃ found, Gather.met disk set Gather.enters = .ok found ∧ Path.distinct found = files := by
  simp [gather, bind_eq_ok, pure, Except.pure]

end UnusedMethods
