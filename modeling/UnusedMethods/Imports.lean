import UnusedMethods.Disk
import UnusedMethods.Model

/-!
# Imports between files

A relative module request leads to a source file: the file it names, the typed source that its
script is made from, the file it names without extension, or the index of the directory it names.
Packages are not followed, and neither is anything inside a package directory.
-/

namespace UnusedMethods.Imports

/-- The suffixes of typed sources that a request may leave out, in the order they are tried. -/
def typedSuffixes : List String :=
  [".ts", ".tsx", ".d.ts", ".mts", ".cts"]

/-- The suffixes of plain scripts that a request may leave out. -/
def plainSuffixes : List String :=
  [".js", ".jsx", ".mjs", ".cjs"]

def suffixes (allowJs : Bool) : List String :=
  if allowJs then typedSuffixes ++ plainSuffixes else typedSuffixes

/-- The suffixes of the typed sources from which a script is made, by its extension. -/
def sourceSuffixes (extension : Option String) : List String :=
  match extension with
  -- Both kinds of scripts are made from either kind of source.
  | some "js" | some "jsx" => [".ts", ".tsx", ".d.ts"]
  | some "mjs" => [".mts", ".d.mts"]
  | some "cjs" => [".cts", ".d.cts"]
  | _ => []

/-- The paths that a request for a path may mean, in the order they are tried. -/
def candidates (base : Path) (allowJs : Bool) : List Path :=
  base :: (sourceSuffixes base.extension?).map (base.dropExtension ++ ·)
    ++ (suffixes allowJs).map (base ++ ·)
    ++ (suffixes allowJs).map (fun suffix => Path.join base ("index" ++ suffix))

def isRelative (request : String) : Bool :=
  request.startsWith "./" || request.startsWith "../"

/-- The path that a relative request names, unless it lies inside a package directory. -/
def requested? (dir : Path) (request : String) : Option Path :=
  if !isRelative request then none
  else
    let base := Path.clean (Path.join dir request)
    -- The directory of the file counts here too, not only what the request adds to it.
    if base.components.contains (.name "node_modules") then none else some base

/-- The source file that a request from a directory leads to. -/
def resolve? (disk : Disk) (allowJs : Bool) (dir : Path) (request : String) : Option Path :=
  (requested? dir request).bind fun base =>
    (candidates base allowJs).find? fun path => disk.hasFile path && path.isSource allowJs

def resolveFrom? (disk : Disk) (allowJs : Bool) (file : Path) (request : String) : Option Path :=
  (Path.parent? file).bind fun dir => resolve? disk allowJs dir request

/-- The names that files give to their default exports, by their cleaned paths; of two files with
one path the later comes first. -/
def defaultNames (files : List SourceFile) : List (Path × String) :=
  (files.filterMap fun file => file.exported.map fun name => (Path.clean file.path, name)).reverse

/-- An import of a default export, bound to the name that the other file gives it. -/
def linkBinding (disk : Disk) (allowJs : Bool) (defaults : List (Path × String)) (file : Path)
    (binding : ImportBinding) : ImportBinding :=
  if binding.imported != defaultExport then binding
  else match (resolveFrom? disk allowJs file binding.source).bind (defaults.lookup ·) with
    | some name => { binding with imported := name }
    | none => binding

/-- Bind every import of a default export to the name that the exporting file gives it, as far as
that file is among the files. -/
def linkDefaults (disk : Disk) (allowJs : Bool) (files : List SourceFile) : List SourceFile :=
  let defaults := defaultNames files
  files.map fun file =>
    { file with imports := file.imports.map (linkBinding disk allowJs defaults file.path) }

end UnusedMethods.Imports
