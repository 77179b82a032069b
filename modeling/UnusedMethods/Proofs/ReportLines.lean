import UnusedMethods.Proofs.Overloads
import UnusedMethods.Proofs.PlainPath
import UnusedMethods.Proofs.StandardTargets
import UnusedMethods.Report

/-!
# Lines of a report

A report is written with a newline after its heading and after each entry, and whatever an entry is
made of is written as it is. So a report is divided into its heading and the pieces of its entries,
and each entry is one line exactly if none of the names in it has a newline. The name of a method
may have one: it is the value of the method's key, which can be a string.
-/

namespace UnusedMethods

open UnusedMethods.Path (splitText)
open Script

/-! ### Entries -/

/-- The line that is meant for a finding. -/
def Finding.entry (f : Finding) : String :=
  "- " ++ f.className ++ "." ++ f.method ++ " in " ++ f.file.slashed ++ ":" ++ toString f.line

/-- A finding has no newline in its names. -/
structure Finding.FitsLine (f : Finding) : Prop where
  className : '\n' ∉ f.className.toList
  method : '\n' ∉ f.method.toList
  file : '\n' ∉ f.file.toList

theorem newline_not_mem_toString (n : Nat) : '\n' ∉ (toString n).toList := by
  rw [Nat.toString_eq_repr, Nat.repr_eq_ofList_toDigits, String.toList_ofList]
  intro member
  exact absurd (Nat.isDigit_of_mem_toDigits (by decide) (by decide) member) (by decide)

theorem newline_mem_slashed (p : Path) : '\n' ∈ p.slashed.toList ↔ '\n' ∈ p.toList := by
  rw [Path.slashed, String.toList_map, List.mem_map]
  constructor
  · rintro ⟨c, member, same⟩
    split at same
    · cases same
    · exact same ▸ member
  · intro member
    exact ⟨'\n', member, rfl⟩

theorem Finding.newline_not_mem_entry (f : Finding) : '\n' ∉ f.entry.toList ↔ f.FitsLine := by
  have number := newline_not_mem_toString f.line
  simp only [entry, String.toList_append, List.mem_append, newline_mem_slashed, number, not_or]
  constructor
  · rintro ⟨⟨⟨⟨⟨⟨⟨_, className⟩, _⟩, method⟩, _⟩, file⟩, _⟩, _⟩
    exact ⟨className, method, file⟩
  · rintro ⟨className, method, file⟩
    simp [className, method, file]

/-! ### Pieces of a report -/

theorem splitText_newline (text more : String) :
    splitText '\n' (text ++ "\n" ++ more) = splitText '\n' text ++ splitText '\n' more := by
  have spelled : (text ++ "\n" ++ more).toList = text.toList ++ '\n' :: more.toList := by
    simp
  rw [splitText, spelled, Path.pieces_append, List.map_append]
  rfl

theorem splitText_eq_self {text : String} (single : '\n' ∉ text.toList) :
    splitText '\n' text = [text] := by
  rw [splitText, Path.pieces_eq_self _ _ single, List.map_singleton, String.ofList_toList]

theorem not_mem_of_mem_splitText {text piece : String} (member : piece ∈ splitText '\n' text) :
    '\n' ∉ piece.toList := by
  obtain ⟨letters, inside, rfl⟩ := List.mem_map.mp member
  rw [String.toList_ofList]
  exact Path.not_mem_of_mem_pieces _ _ _ inside

/-- A report is its heading and then the pieces of its entries. -/
theorem splitText_report {findings : List Finding} (some_ : findings ≠ []) :
    splitText '\n' (report findings) =
      "Potentially unused methods:" ::
        findings.flatMap (fun f => splitText '\n' f.entry) ++ [""] := by
  -- Every entry ends in a newline, which leaves an empty piece behind the last.
  have entries (findings : List Finding) :
      splitText '\n' (String.join (findings.map fun f => "- " ++ f.describe ++ "\n")) =
        findings.flatMap (fun f => splitText '\n' f.entry) ++ [""] := by
    induction findings with
    | nil => rfl
    | cons f findings ih =>
      have entry : "- " ++ f.describe = f.entry := by
        simp only [Finding.describe, Finding.entry, String.append_assoc]
      rw [List.map_cons, String.join_cons, entry, splitText_newline, ih, List.flatMap_cons,
        List.append_assoc]
  have heading : splitText '\n' "Potentially unused methods:" = ["Potentially unused methods:"] :=
    splitText_eq_self (by decide)
  rw [report, if_neg (by simpa using some_),
    show "Potentially unused methods:\n" = "Potentially unused methods:" ++ "\n" from rfl,
    splitText_newline, heading, entries]
  rfl

/-- A report has one line for each finding exactly if each finding fits a line. -/
theorem splitText_report_iff {findings : List Finding} (some_ : findings ≠ []) :
    splitText '\n' (report findings) =
        "Potentially unused methods:" :: findings.map Finding.entry ++ [""] ↔
      ∀ f ∈ findings, f.FitsLine := by
  constructor
  · intro lines f member
    -- The entry is one of the lines, and a line has no newline.
    have piece : f.entry ∈ splitText '\n' (report findings) := by
      rw [lines]
      simp [List.mem_map_of_mem member]
    exact f.newline_not_mem_entry.mp (not_mem_of_mem_splitText piece)
  · intro fits
    rw [splitText_report some_, List.map_eq_flatMap, List.flatMap_congr fun f member =>
      splitText_eq_self (f.newline_not_mem_entry.mpr (fits f member))]

/-! ### What entries name -/

/-- A finding tells of a class at the top of a file on a disk and of a method that it declares by a
key. -/
structure Finding.TellsOf (f : Finding) (disk : Disk) (key : Node) : Prop where
  declared : ∃ program cls member, disk.tree? f.file = some program ∧
    cls ∈ program.children.filterMap topClass? ∧ boundText? (cls.part 1) = some f.className ∧
    member ∈ (cls.part 6).children ∧ member.part 1 = key
  named : key.keyName? = some f.method

/-- A file of a loaded project declares the classes of its tree. -/
theorem Project.exists_tree_of_mem {disk : Disk} {place : Whereabouts} {scan : Config.Scan}
    {project : Project} (loaded : Project.load disk place scan = .ok project) {file : SourceFile}
    (member : file ∈ project.files) : ∃ lines program, disk.tree? file.path = some program ∧
      file.classes = (program.children.filterMap topClass?).map (classOutline lines) := by
  obtain ⟨set, targets, _, _, files, _, _, _, read, _, linked⟩ := exists_of_loadWith _ _ _ _ loaded
  rw [linked, Imports.linkDefaults] at member
  obtain ⟨marked, inside, rfl⟩ := List.mem_map.mp member
  obtain ⟨file, present, rfl⟩ := List.mem_map.mp inside
  obtain ⟨lines, program, parses, outlined⟩ := exists_outline_of_read (read file present)
  exact ⟨lines, program, parses, congrArg SourceFile.classes outlined⟩

/-- All that an analysis finds are methods of parsed files. -/
theorem Analysis.exists_key {disk : Disk} {path : Path} {scan : Config.Scan} {analysis : Analysis}
    (ran : run disk path scan = .ok analysis) {f : Finding}
    (member : f ∈ analysis.detection.findings) : ∃ key, f.TellsOf disk key := by
  obtain ⟨project, loaded, found⟩ := exists_project ran
  rw [found] at member
  obtain ⟨file, listed, inside⟩ := List.mem_flatMap.mp member
  obtain ⟨lines, program, parses, classes⟩ :=
    Project.exists_tree_of_mem loaded (List.mem_of_mem_filter listed)
  obtain ⟨cls, declared, name, called, m, method, _, rfl⟩ :=
    Detection.exists_of_mem_foundInFile inside
  rw [classes] at declared
  obtain ⟨node, held, rfl⟩ := List.mem_map.mp declared
  obtain ⟨part, inBody, _, declares⟩ := mem_declared_of_mem_methods method
  refine ⟨part.part 1, ⟨program, node, part, parses, held, called, inBody, rfl⟩, ?_⟩
  cases declares with
  | @intro _ _ _ key _ _ _ _ parts _ named =>
    have second : part.part 1 = key := by simp [Node.part, parts]
    exact second ▸ named

/-- The report of an analysis that finds something has the heading as its first line and then one
line for each finding, exactly if no finding has a newline in the name of its class, in that of its
method or in its path. The pieces of an entry stand in its place otherwise. All entries are of
classes and methods of parsed files. -/
theorem Analysis.report_lines {disk : Disk} {path : Path} {scan : Config.Scan} {analysis : Analysis}
    (ran : Analysis.run disk path scan = .ok analysis) (finds : analysis.hasFindings = true) :
    (splitText '\n' (report analysis.detection.findings) =
        "Potentially unused methods:" :: analysis.detection.findings.map Finding.entry ++ [""] ↔
      ∀ f ∈ analysis.detection.findings, f.FitsLine) ∧
    splitText '\n' (report analysis.detection.findings) =
      "Potentially unused methods:" ::
        analysis.detection.findings.flatMap (fun f => splitText '\n' f.entry) ++ [""] ∧
    ∀ f ∈ analysis.detection.findings, ∃ key, f.TellsOf disk key := by
  have some_ : analysis.detection.findings ≠ [] := by simpa [hasFindings] using finds
  exact ⟨splitText_report_iff some_, splitText_report some_, fun _ => exists_key ran⟩

open Project in
theorem Analysis.report_lines_keyed :
    ∃ analysis, Analysis.run keyedDisk "/p" .standard = .ok analysis ∧
      analysis.detection.findings = [⟨"A", "1", "/p/src/a.ts", 1⟩] ∧
      splitText '\n' (report analysis.detection.findings) =
        ["Potentially unused methods:", "- A.1 in /p/src/a.ts:1", ""] ∧
      ∀ f ∈ analysis.detection.findings, ∃ key, f.TellsOf keyedDisk key := by
  have located : Whereabouts.locate keyedDisk "/p" = .ok pairPlace := by decide +kernel
  obtain ⟨d, ran, found⟩ := run_of_load located keyedProject_load
  have only : d.findings = [⟨"A", "1", "/p/src/a.ts", 1⟩] := by
    rw [found]
    decide +kernel
  obtain ⟨lines, _, keys⟩ := report_lines ran (by simp [hasFindings, only])
  refine ⟨_, ran, only, (lines.mpr ?_).trans ?_, keys⟩
  · simp only [only, List.mem_singleton, forall_eq]
    exact ⟨by decide, by decide, by decide⟩
  · simp only [only]
    decide +kernel

/-! ### A key with a newline -/

/-- A project of one file. The key of the only method is a string with a newline in it. -/
def brokenDisk : Disk where
  root := .dir [("p", .dir [
    ("tsconfig.json", .file "\x7b\"files\":[\"src/a.ts\"],\"exclude\":[]\x7d".toUTF8),
    ("src", .dir [("a.ts", .file "class A\x7b'a\\nb'()\x7b\x7d\x7d".toUTF8)])])]
  current := "/"

def brokenFile : SourceFile where
  path := "/p/src/a.ts"
  classes := [⟨some "A", none, 1, [⟨"a\nb", .pub, false, .method, 1, 8⟩]⟩]
  refs := []
  imports := []
  requests := []
  exported := none
  isTarget := false

def brokenProject : Project :=
  ⟨[{ brokenFile with isTarget := true }]⟩

theorem brokenSet_load : Config.FileSet.load brokenDisk Project.pairPlace.manifest =
    .ok ⟨"/p", ["/p/src/a.ts"], [], [], false⟩ := by
  decide +kernel

theorem brokenFile_read : SourceFile.read brokenDisk "/p/src/a.ts" = .ok brokenFile := by
  decide +kernel

/-- The entry for a method whose key has a newline takes two lines. -/
theorem Analysis.report_broken :
    ∃ analysis, Analysis.run brokenDisk "/p" .standard = .ok analysis ∧
      analysis.detection.findings = [⟨"A", "a\nb", "/p/src/a.ts", 1⟩] ∧
      splitText '\n' (report analysis.detection.findings) =
        ["Potentially unused methods:", "- A.a", "b in /p/src/a.ts:1", ""] ∧
      splitText '\n' (report analysis.detection.findings) ≠
        "Potentially unused methods:" :: analysis.detection.findings.map Finding.entry ++ [""] := by
  have located : Whereabouts.locate brokenDisk "/p" = .ok Project.pairPlace := by decide +kernel
  have loaded : Project.load brokenDisk Project.pairPlace .standard = .ok brokenProject :=
    Project.load_alone brokenSet_load (by decide +kernel) brokenFile_read rfl (by decide +kernel)
  obtain ⟨d, ran, found⟩ := run_of_load located loaded
  have only : d.findings = [⟨"A", "a\nb", "/p/src/a.ts", 1⟩] := by
    rw [found]
    decide +kernel
  refine ⟨_, ran, only, ?_, ?_⟩
  all_goals
    simp only [only]
    decide +kernel

end UnusedMethods
