import UnusedMethods.Gather
import UnusedMethods.Imports
import UnusedMethods.Reading
import UnusedMethods.Text.Lossy
import UnusedMethods.Whereabouts

/-!
# Loading a project

The files that the manifest describes are read in order. A file that is read may ask for others,
which are read after those already waiting. Every path waits at most once, so the work ends.

A project that keeps going leaves out the files that cannot be parsed.
-/

namespace UnusedMethods

def sizeLimit : Nat := 10000000

/-- The outline of a file that holds the given bytes. Bytes that are no valid text are replaced. -/
def SourceFile.ofBytes (path : Path) (bytes : ByteArray) : Except Failure SourceFile :=
  if bytes.size > sizeLimit then
    .error (.badSource path ("file too large (" ++ toString bytes.size ++ " bytes, max " ++
      toString sizeLimit ++ ")") none)
  else readSource path (Text.decodeLossy bytes)

/-- A file that is outlined holds text that is read. -/
theorem SourceFile.readSource_of_ofBytes {path : Path} {bytes : ByteArray} {file : SourceFile}
    (returned : SourceFile.ofBytes path bytes = .ok file) :
    readSource path (Text.decodeLossy bytes) = .ok file := by
  unfold SourceFile.ofBytes at returned
  split at returned
  · cases returned
  · exact returned

theorem SourceFile.ofBytes_path {path : Path} {bytes : ByteArray} {file : SourceFile}
    (returned : SourceFile.ofBytes path bytes = .ok file) : file.path = path := by
  obtain ⟨_, _, _, _, rfl⟩ := readSource_eq_ok (readSource_of_ofBytes returned)
  rfl

structure SourceParser where
  parse : Path → ByteArray → Except Failure SourceFile
  path_eq : ∀ {path bytes file}, parse path bytes = .ok file → file.path = path

/-- The outlines of files by their texts. -/
def SourceParser.standard : SourceParser :=
  ⟨SourceFile.ofBytes, SourceFile.ofBytes_path⟩

/-- Read a source file from a disk. -/
def SourceParser.read (parser : SourceParser) (disk : Disk) (path : Path) :
    Except Failure SourceFile :=
  match disk.read path with
  | .error trouble => .error (.unreadable path trouble.message)
  | .ok bytes => parser.parse path bytes

/-- Read a source file from a disk and outline its text. -/
def SourceFile.read (disk : Disk) (path : Path) : Except Failure SourceFile :=
  SourceParser.standard.read disk path

namespace Loading

/-- The keys of paths, added to those already met. -/
def meet (met : Std.HashSet String) (paths : List Path) : Std.HashSet String :=
  paths.foldl (fun met path => met.insert path.key) met

/-- Read the waiting files and those that they lead to, for at most `fuel` files. A recoverable
failure is passed over if the work keeps going. -/
def drain (read : Path → Except Failure SourceFile) (leads : Path → SourceFile → List Path)
    (keepGoing : Bool) :
    Nat → Std.HashSet String → List Path → List SourceFile → Except Failure (List SourceFile)
  | 0, _, _, done => .ok done.reverse
  | _, _, [], done => .ok done.reverse
  | fuel + 1, met, path :: waiting, done =>
    match read path with
    -- A file that is passed over stays met, so that no later request brings it back.
    | .error failure =>
      if keepGoing && failure.isRecoverable then drain read leads keepGoing fuel met waiting done
      else .error failure
    | .ok file =>
      let new := Path.distinctBeyond met (leads path file)
      drain read leads keepGoing fuel (meet met new) (waiting ++ new) (file :: done)

/-- The files that a file leads to by its requests. -/
def leads (disk : Disk) (allowJs : Bool) (path : Path) (file : SourceFile) : List Path :=
  file.requests.filterMap (Imports.resolveFrom? disk allowJs path)

/-- A file marked as searched or not. -/
def mark (targets : Targets) (file : SourceFile) : SourceFile :=
  { file with isTarget := targets.contains file.path }

end Loading

open Loading in
/-- Load the project at a place, its files outlined in the given way. -/
def Project.loadWith (parser : SourceParser) (disk : Disk) (place : Whereabouts)
    (scan : Config.Scan) : Except Failure Project := do
  let set ← Config.FileSet.load disk place.manifest
  let targets ← Targets.ofScan place.sourceDir scan
  let initial ← gather disk set
  let files ← drain (parser.read disk) (leads disk set.allowJs) scan.keepGoing Disk.pathCount
    (meet ∅ initial) initial []
  -- Links are made last: a default export may be behind a file that is read later.
  return ⟨Imports.linkDefaults disk set.allowJs (files.map (mark targets))⟩

def Project.load (disk : Disk) (place : Whereabouts) (scan : Config.Scan) :
    Except Failure Project :=
  Project.loadWith .standard disk place scan

end UnusedMethods
