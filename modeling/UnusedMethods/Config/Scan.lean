import UnusedMethods.Json.Decode

/-!
# Scan configuration

Which files of a project are searched for unused methods, as globs relative to the source
directory, and whether an analysis keeps going past files and queries that fail.
-/

namespace UnusedMethods.Config

structure Scan where
  includes : List String
  excludes : List String
  keepGoing : Bool
deriving DecidableEq, Repr

namespace Scan

/-- All typed sources, but no controllers, whose methods a framework calls, and no declaration
files. -/
def standard : Scan :=
  ⟨["**/*.ts"], ["**/*.controller.ts", "**/*.d.ts"], false⟩

def withExcludes (scan : Scan) (globs : List String) : Scan :=
  { scan with excludes := scan.excludes ++ globs }

def withKeepGoing (scan : Scan) (enabled : Bool) : Scan :=
  { scan with keepGoing := enabled }

def fields : List (Json.Field Scan) :=
  [⟨"include", fun scan => return { scan with includes := ← Json.listOf Json.text }⟩,
   ⟨"exclude", fun scan => return { scan with excludes := ← Json.listOf Json.text }⟩,
   ⟨"keepGoing", fun scan => return { scan with keepGoing := ← Json.bool }⟩]

/-- Read a scan configuration from JSON; what is not written is as in `standard`. -/
def parse (text : String) : Except Json.Fault Scan :=
  Json.parse (Json.record "struct ScanConfig" false fields standard) text

end Scan

end UnusedMethods.Config
