import UnusedMethods.Path

/-!
# Dialects

The extension of a file says how its text is read: with types or without, with markup or without,
as a module or as a script, and whether it only declares what is defined elsewhere.
-/

namespace UnusedMethods.Script

/-- How a source text is read. -/
structure Dialect where
  /-- Types may be written. -/
  typed : Bool
  /-- Markup elements may be written. -/
  markup : Bool
  /-- The text is a module: strict, and `await` is an operator everywhere. -/
  isModule : Bool
  /-- The text only declares what is defined elsewhere. -/
  ambient : Bool
deriving DecidableEq, Repr

namespace Dialect

/-- Whether the part of a file name before its extension marks a declaration file. -/
def isDeclarationStem (stem : String) (extension : String) : Bool :=
  match extension with
  -- `a.d.ts` declares, and so does `a.d.css.ts`, but of the other extensions only the plain form.
  | "ts" => ((Path.splitText '.' stem).reverse.take 2).contains "d"
  | "mts" => stem.endsWith ".d"
  | "cts" => stem.endsWith ".d"
  | _ => false

/-- The dialect of a file, if its extension names one. -/
def ofPath? (path : Path) : Option Dialect :=
  match Path.fileName? path, Path.extension? path with
  | some name, some extension =>
    let ambient := isDeclarationStem (Path.splitName name).1 extension
    match extension with
    | "ts" => some ⟨true, false, true, ambient⟩
    | "mts" => some ⟨true, false, true, ambient⟩
    | "cts" => some ⟨true, false, false, ambient⟩
    | "tsx" => some ⟨true, true, true, false⟩
    | "js" => some ⟨false, false, true, false⟩
    | "mjs" => some ⟨false, false, true, false⟩
    | "cjs" => some ⟨false, false, false, false⟩
    | "jsx" => some ⟨false, true, true, false⟩
    | _ => none
  | _, _ => none

end Dialect

end UnusedMethods.Script
