import UnusedMethods.Json.Decode
import UnusedMethods.Config.Decorated
import UnusedMethods.Failure

/-!
# Manifests

The part of a project's manifest that decides which files belong to the project, and which other
manifests it builds on. Manifests are decorated JSON.
-/

namespace UnusedMethods.Config

/-- The manifests that a manifest builds on: one entry, or a list. -/
inductive Bases where
  | one (entry : String)
  | many (entries : List String)
deriving DecidableEq, Repr

def Bases.entries : Bases → List String
  | .one entry => [entry]
  | .many entries => entries

/-- The compiler options that matter for the set of files. -/
structure CompilerOptions where
  allowJs : Option Bool
  outDir : Option String
deriving DecidableEq, Repr

structure Manifest where
  bases : Option Bases
  files : Option (List String)
  includes : Option (List String)
  excludes : Option (List String)
  options : Option CompilerOptions
deriving DecidableEq, Repr

def CompilerOptions.empty : CompilerOptions :=
  ⟨none, none⟩

def CompilerOptions.fields : List (Json.Field CompilerOptions) :=
  [⟨"allowJs", fun o => return { o with allowJs := ← Json.optional Json.bool }⟩,
   ⟨"outDir", fun o => return { o with outDir := ← Json.optional Json.text }⟩]

def CompilerOptions.reader : Json.Reader CompilerOptions :=
  Json.record "struct CompilerOptions" true fields empty

def Bases.reader : Json.Reader Bases := do
  -- The alternatives are told apart only after the whole value is read.
  let depth := (← get).depth
  match ← Json.content depth with
  | .text entry => return .one entry
  | .list values =>
    match Json.textsOf values with
    | some entries => return .many entries
    | none => Json.failUnplaced (.noAlternative "Extends")
  | .other => Json.failUnplaced (.noAlternative "Extends")

namespace Manifest

def empty : Manifest :=
  ⟨none, none, none, none, none⟩

def fields : List (Json.Field Manifest) :=
  [⟨"extends", fun m => return { m with bases := ← Json.optional Bases.reader }⟩,
   ⟨"files", fun m => return { m with files := ← Json.optional (Json.listOf Json.text) }⟩,
   ⟨"include", fun m => return { m with includes := ← Json.optional (Json.listOf Json.text) }⟩,
   ⟨"exclude", fun m => return { m with excludes := ← Json.optional (Json.listOf Json.text) }⟩,
   ⟨"compilerOptions",
     fun m => return { m with options := ← Json.optional CompilerOptions.reader }⟩]

/-- Read a manifest from JSON without decoration. -/
def ofJson (text : String) : Except Json.Fault Manifest :=
  Json.parse (Json.record "struct TsConfig" true fields empty) text

/-- Read a manifest from decorated JSON; the path appears in failures only. -/
def parse (path : Path) (text : String) : Except Failure Manifest :=
  match ofJson (undecorated text) with
  | .ok manifest => .ok manifest
  | .error fault => .error (.badManifest path fault.message)

end Manifest

end UnusedMethods.Config
