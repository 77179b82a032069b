import UnusedMethods.Detection

/-!
# Reports

The text that tells a reader which methods are unused: a heading and one entry for each.
-/

namespace UnusedMethods

def Finding.describe (f : Finding) : String :=
  f.className ++ "." ++ f.method ++ " in " ++ f.file.slashed ++ ":" ++ toString f.line

def report (findings : List Finding) : String :=
  if findings.isEmpty then "No unused methods found.\n"
  else
    "Potentially unused methods:\n" ++
      String.join (findings.map fun f => "- " ++ f.describe ++ "\n")

end UnusedMethods
