import UnusedMethods.Detection
import UnusedMethods.Loading

/-!
# Analysis of a project

From a path to the unused methods of the project that it stands for: the project is located, loaded
and searched.
-/

namespace UnusedMethods

structure Analysis where
  place : Whereabouts
  /-- The number of files that were loaded, searched or not. -/
  filesLoaded : Nat
  detection : Detection
deriving DecidableEq, Repr

/-- Why an analysis stopped, and in the course of what. -/
structure Stop where
  doing : Option String
  failure : Failure
deriving DecidableEq, Repr

/-- What to tell about a stop, from what was being done to what lies behind it. -/
def Stop.chain (stop : Stop) : List String :=
  stop.doing.toList ++ stop.failure.chain

namespace Analysis

/-- A failure in the course of something. -/
def during {α : Type} (doing : String) (result : Except Failure α) : Except Stop α :=
  result.mapError (⟨some doing, ·⟩)

def ofProject (place : Whereabouts) (project : Project) (keepGoing : Bool) :
    Except Failure Analysis := do
  let index := References.Index.ofProject project
  let detection ← Detection.run project (References.find index) keepGoing
  return ⟨place, project.files.length, detection⟩

/-- Find the unused methods of the project that a path stands for. -/
def run (disk : Disk) (path : Path) (scan : Config.Scan) : Except Stop Analysis := do
  -- A project that is not found needs no word about what was being done.
  let place ← (Whereabouts.locate disk path).mapError (⟨none, ·⟩)
  let project ← during ("Failed to load project at " ++ place.root) (Project.load disk place scan)
  during "Failed to resolve method references" (ofProject place project scan.keepGoing)

def hasFindings (analysis : Analysis) : Bool :=
  !analysis.detection.findings.isEmpty

end Analysis

end UnusedMethods
