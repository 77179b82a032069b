import UnusedMethods.Command
import UnusedMethods.Snapshot

/-!
# The program

Reads the arguments, copies the part of the disk that they concern, and prints what the command
says.
-/

open UnusedMethods

def main (arguments : List String) : IO UInt32 := do
  let current := (← IO.currentDir).toString
  let disk ← match Arguments.parse arguments with
    | .ok ⟨some path, _, _⟩ => Snapshot.take current path
    | _ => pure ⟨.dir [], current⟩
  let outcome := Command.run disk arguments
  IO.print outcome.output
  IO.eprint outcome.errors
  return outcome.code.toUInt32
