import UnusedMethods.Failure
import UnusedMethods.Script.Outline
import UnusedMethods.Script.Parser
import UnusedMethods.Script.Early

/-!
# Reading sources

A source text is parsed, checked and reduced to its outline. The first fault makes the file
unreadable; it is reported with its line and column.
-/

namespace UnusedMethods

open Text (LineTable)

def readSource (path : Path) (text : String) : Except Failure SourceFile :=
  match Script.Dialect.ofPath? path with
  | none => .error (.badSource path "unsupported file extension" none)
  | some dialect =>
    let bytes := text.toUTF8
    let lines := LineTable.ofBytes bytes
    let refuse (fault : Script.Diagnostic) : Except Failure SourceFile :=
      .error (.badSource path fault.complaint.message (some (lines.lineColumn bytes fault.place)))
    match Script.parseProgram dialect text with
    | .error fault => refuse fault
    | .ok program =>
      -- A tree with an early fault is as good as none: the file is refused whole.
      match Script.earlyError? dialect text program with
      | some fault => refuse fault
      | none => .ok (Script.outline path lines program)

/-- The outline of a text that is read is that of a tree to which the text is parsed. -/
theorem readSource_eq_ok {path : Path} {text : String} {file : SourceFile}
    (returned : readSource path text = .ok file) :
    ∃ dialect program, Script.Dialect.ofPath? path = some dialect ∧
      Script.parseProgram dialect text = .ok program ∧
      file = Script.outline path (LineTable.ofBytes text.toUTF8) program := by
  unfold readSource at returned
  split at returned
  · cases returned
  next dialect known =>
    simp only at returned
    split at returned
    · cases returned
    next program parsed =>
      split at returned
      · cases returned
      · exact ⟨dialect, program, known, parsed, (Except.ok.inj returned).symm⟩

end UnusedMethods
