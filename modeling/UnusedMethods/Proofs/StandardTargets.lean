import UnusedMethods.Analysis
import UnusedMethods.Proofs.GlobLanguage
import UnusedMethods.Proofs.GlobStem
import UnusedMethods.Proofs.LastStep
import UnusedMethods.Proofs.LiteralKeys
import UnusedMethods.Proofs.TargetSelection

/-!
# What is searched by default

The standard configuration names endings of files in any directory. Such a glob matches the texts
that end in its ending, whatever comes before: its two stars take all up to the last separator, and
its one star what is left before the ending. An ending without slashes is a matter of the last step
of a path, so it does not matter how the path below the source directory is written.
-/

namespace UnusedMethods

theorem endsWith_iff {text ending : String} :
    text.endsWith ending = true ↔ ending.toList <:+ text.toList := by
  rw [← String.endsWith_toSlice, String.Slice.endsWith_string_iff, String.copy_toSlice]

namespace Glob

/-! ### Globs for endings -/

/-- The pieces of a glob for an ending of files in any directory. -/
def endingPieces (ending : String) : List Piece :=
  .leading :: .star :: ending.toList.map .literal

theorem parse_ending (ending : String) (plain : ∀ c ∈ ending.toList, isSpecial c = false) :
    parse ("**/*" ++ ending) = .ok (endingPieces ending) := by
  -- The star after the slash is a single one, as no star begins the ending.
  have single : readFrom ⟨⟨[], [.leading]⟩, [], some '/'⟩ ('*' :: ending.toList) =
      readFrom ⟨⟨[], [.star, .leading]⟩, [], some '*'⟩ ending.toList := by
    rw [readFrom.eq_def]
    cases letters : ending.toList with
    | nil => simp [State.push]
    | cons c cs =>
      have other : c ≠ '*' := by
        rintro rfl
        have special := plain '*' (letters ▸ List.mem_cons_self)
        cases special
      simp [State.push, other]
  have stars : parse ("**/*" ++ ending) =
      readFrom ⟨⟨[], [.leading]⟩, [], some '/'⟩ ('*' :: ending.toList) := by
    rw [parse, String.toList_append]
    rw [readFrom.eq_def]
    simp [State.pushStars, State.push]
  have rest := readFrom_plains ⟨⟨[], [.star, .leading]⟩, [], some '*'⟩ rfl ending.toList plain []
  rw [List.append_nil] at rest
  rw [stars, single, rest, readFrom]
  simp [endingPieces]

theorem isRefused_ending (ending : String) : isRefused (endingPieces ending) = false := by
  have depth := piecesDepth_literals ending.toList []
  rw [List.append_nil] at depth
  simp [isRefused, isTooDeep, endingPieces, piecesDepth, Piece.depth, depth, maxDepth]

/-- The stars before an ending spell anything: what follows the last separator is for the one star,
what comes before it for the two. -/
theorem spellAll_ending (ending : String) (text : List UInt8) :
    SpellAll (endingPieces ending) text ↔ bytesOf ending <:+ text := by
  simp only [endingPieces, spellAll_cons, spellAll_literals, String.ofList_toList]
  constructor
  · rintro ⟨dirs, _, rfl, _, name, _, rfl, _, rfl⟩
    exact ⟨dirs ++ name, List.append_assoc ..⟩
  · rintro ⟨front, rfl⟩
    obtain ⟨name, member, single⟩ := exists_single_end front
    rcases List.mem_cons.mp member with rfl | later
    · exact ⟨[], _, rfl, .leadingNone, name, _, rfl, .star single, rfl⟩
    · obtain ⟨dirs, rfl⟩ := (mem_afterSeparators ..).mp later
      refine ⟨dirs ++ [separator], _, ?_, .leadingDirs dirs, name, _, rfl, .star single, rfl⟩
      simp

/-- Bytes before a text are a text themselves if both together are: the later one starts at a
character, so the earlier ones end at one. -/
theorem exists_front {text ending : String} {front : ByteArray}
    (bytes : text.toByteArray = front ++ ending.toByteArray) :
    ∃ start : String, text = start ++ ending := by
  have size : text.utf8ByteSize = front.size + ending.utf8ByteSize := by
    rw [← String.size_toByteArray, bytes, ByteArray.size_append, String.size_toByteArray]
  have starts : String.Pos.Raw.IsValid text ⟨front.size⟩ := by
    rw [String.Pos.Raw.isValid_iff_isValidUTF8_extract_utf8ByteSize, String.Pos.Raw.le_iff,
      String.byteIdx_rawEndPos, bytes, ByteArray.extract_append_eq_right rfl size]
    exact ⟨size ▸ Nat.le_add_right .., ending.isValidUTF8⟩
  have valid := (String.Pos.Raw.isValid_iff_isValidUTF8_extract_zero.mp starts).2
  rw [bytes, ByteArray.extract_append_eq_left rfl] at valid
  refine ⟨.ofByteArray front valid, String.toByteArray_inj.mp ?_⟩
  rw [bytes, String.toByteArray_append]

/-- The bytes of a text end in those of another if the text ends in the other. -/
theorem bytesOf_suffix {ending text : String} :
    bytesOf ending <:+ bytesOf text ↔ ending.toList <:+ text.toList := by
  constructor
  · rintro ⟨front, whole⟩
    simp only [bytesOf, Text.toList_eq_data, String.toUTF8] at whole
    have bytes : text.toByteArray = ⟨front.toArray⟩ ++ ending.toByteArray := by
      apply ByteArray.ext
      apply Array.toList_inj.mp
      simp [whole]
    obtain ⟨start, rfl⟩ := exists_front bytes
    exact ⟨start.toList, String.toList_append.symm⟩
  · rintro ⟨front, whole⟩
    have joined : text = String.ofList front ++ ending := by
      rw [← String.toList_inj]
      simp [whole]
    rw [joined, bytesOf_append]
    exact List.suffix_append ..

/-- A glob for an ending that does not end in a dot matches exactly the texts that end in it. -/
theorem matchesPieces_ending (ending : String) {c : Char} (last : ending.toList.getLast? = some c)
    (other : c ≠ '.') (text : String) :
    matchesPieces (endingPieces ending) text = text.endsWith ending := by
  rw [Bool.eq_iff_iff, matchesPieces_iff, spellAll_ending, bytesOf_suffix, endsWith_iff,
    or_iff_right (by simp [endingPieces])]
  apply and_iff_left_of_imp
  rintro ends ⟨_, up⟩
  -- The last character of the text is that of the ending.
  have same : text.toList.getLast? = some c := by
    obtain ⟨front, whole⟩ := ends
    rw [← whole, List.getLast?_append, last, Option.some_or]
  rcases (endsInUp_iff text).mp up with dots | ⟨front, dots⟩
  · simp [dots, other.symm] at same
  · simp [← dots, other.symm] at same

end Glob

/-! ### Endings of paths -/

namespace Path

theorem endsWith_slashed (p : Path) {ending : String} (single : '/' ∉ ending.toList)
    (plain : '\\' ∉ ending.toList) : p.slashed.endsWith ending = p.endsWith ending := by
  rw [Bool.eq_iff_iff, endsWith_iff, endsWith_iff, slashed, String.toList_map]
  constructor
  · rintro ⟨front, whole⟩
    obtain ⟨before, after, split, _, same⟩ := List.append_eq_map_iff.mp whole
    -- A backslash would have been written as a slash, which the ending does not have.
    have kept : '\\' ∉ after := fun back => single (same ▸ List.mem_map.mpr ⟨_, back, rfl⟩)
    rw [split, ← same, map_slashed kept]
    exact List.suffix_append ..
  · rintro ⟨front, whole⟩
    rw [← whole, List.map_append, map_slashed plain]
    exact List.suffix_append ..

/-- An ending without slashes does not reach beyond the slash before it. -/
theorem endsWith_of_endsAs {text last ending : String} (ends : EndsAs text last)
    (single : '/' ∉ ending.toList) : text.endsWith ending = last.endsWith ending := by
  obtain ⟨front, rfl, before⟩ := ends
  rw [Bool.eq_iff_iff, endsWith_iff, endsWith_iff, String.toList_append]
  constructor
  · rintro ⟨start, whole⟩
    rcases before with rfl | ⟨dirs, rfl⟩
    · exact ⟨start, whole⟩
    · -- An ending that is longer than the last step would hold the slash before it.
      rw [String.toList_append, List.append_assoc] at whole
      rcases List.append_eq_append_iff.mp whole with ⟨more, _, longer⟩ | ⟨skipped, _, rest⟩
      · exact absurd (longer ▸ by simp) single
      · cases skipped with
        | nil =>
          rw [List.nil_append] at rest
          exact absurd (rest ▸ by simp) single
        | cons c skipped => exact ⟨skipped, (List.cons.inj rest).2.symm⟩
  · intro within
    exact within.trans (List.suffix_append _ _)

theorem endsWith_of_standsFor {text other ending : String} {cs : List Component}
    (stands : StandsFor text cs) (stands' : StandsFor other cs) (single : '/' ∉ ending.toList) :
    text.endsWith ending = other.endsWith ending := by
  rcases stands with ⟨rfl, rfl⟩ | ⟨last, final, ends⟩
  · rcases stands' with ⟨_, rfl⟩ | ⟨_, final, _⟩
    · rfl
    · cases final
  · rcases stands' with ⟨rfl, _⟩ | ⟨last', final', ends'⟩
    · cases final
    · obtain rfl := Option.some.inj (final.symm.trans final')
      rw [endsWith_of_endsAs ends single, endsWith_of_endsAs ends' single]

end Path

/-! ### The standard configuration -/

namespace Targets

open Glob UnusedMethods.Path

/-- A text ends like a typed source that is neither a controller nor a declaration file. -/
structure EndsSearched (text : String) : Prop where
  typed : text.endsWith ".ts" = true
  noController : text.endsWith ".controller.ts" = false
  noDeclarations : text.endsWith ".d.ts" = false

/-- Texts that stand for the same components end alike, and so do texts with other slashes. -/
theorem EndsSearched.congr {text other : String} (ends : EndsSearched text)
    (alike : ∀ ending : String, '/' ∉ ending.toList → '\\' ∉ ending.toList →
      text.endsWith ending = other.endsWith ending) : EndsSearched other where
  typed := alike ".ts" (by decide) (by decide) ▸ ends.typed
  noController := alike ".controller.ts" (by decide) (by decide) ▸ ends.noController
  noDeclarations := alike ".d.ts" (by decide) (by decide) ▸ ends.noDeclarations

theorem endsSearched_slashed {text : String} : EndsSearched (slashed text) ↔ EndsSearched text :=
  ⟨fun ends => ends.congr fun _ single plain => endsWith_slashed text single plain,
    fun ends => ends.congr fun _ single plain => (endsWith_slashed text single plain).symm⟩

theorem EndsSearched.of_standsFor {text other : String} {cs : List Component}
    (ends : EndsSearched text) (stands : StandsFor text cs) (stands' : StandsFor other cs) :
    EndsSearched other :=
  ends.congr fun _ single _ => endsWith_of_standsFor stands stands' single

/-- The targets of the standard configuration. -/
def standard (dir : Path) : Targets :=
  ⟨dir, ⟨[endingPieces ".ts"]⟩, ⟨[endingPieces ".controller.ts", endingPieces ".d.ts"]⟩⟩

theorem ofScan_standard (dir : Path) : ofScan dir .standard = .ok (standard dir) := by
  have read {glob : String} (ending : String) (whole : glob = "**/*" ++ ending)
      (plain : (ending.toList.any isSpecial) = false) :
      parse glob = .ok (endingPieces ending) ∧ isRefused (endingPieces ending) = false := by
    rw [List.any_eq_false] at plain
    exact ⟨whole ▸ parse_ending ending (by simpa using plain), isRefused_ending ending⟩
  simp only [ofScan, bind_eq_ok, readGlobs_eq_ok, AnyOf.ofTexts_eq_ok]
  exact ⟨_, .cons (read ".ts" (by decide) (by decide)) .nil, _,
    .cons (read ".controller.ts" (by decide) (by decide))
      (.cons (read ".d.ts" (by decide) (by decide)) .nil), rfl⟩

theorem contains_standard_iff (dir p : Path) : (standard dir).contains p = true ↔
    ∃ text, relativeTo? p dir = some text ∧ EndsSearched (slashed text) := by
  have typed := matchesPieces_ending ".ts" rfl (by decide)
  have controllers := matchesPieces_ending ".controller.ts" rfl (by decide)
  have declarations := matchesPieces_ending ".d.ts" rfl (by decide)
  unfold contains
  simp only [standard]
  cases relativeTo? p dir with
  | none => simp
  | some text =>
    simp only [AnyOf.isMatch, List.any_cons, List.any_nil, typed, controllers, declarations,
      Bool.or_false, Bool.and_eq_true, Bool.not_eq_true', Bool.or_eq_false_iff,
      Option.some.injEq, exists_eq_left']
    constructor
    · rintro ⟨typed, controllers, declarations⟩
      exact ⟨typed, controllers, declarations⟩
    · intro ends
      exact ⟨ends.typed, ends.noController, ends.noDeclarations⟩

/-- What is searched below a directory does not depend on how its path is written. -/
theorem contains_standard (dir p : Path) : (standard dir).contains p = true ↔
    ∃ rest, components p = components dir ++ rest ∧
      EndsSearched (slashed (ofComponents rest)) := by
  rw [contains_standard_iff]
  constructor
  · rintro ⟨text, found, ends⟩
    obtain ⟨rest, below⟩ := components_of_relativeTo found
    obtain ⟨_, found', stands⟩ := relativeTo_of_components below
    obtain rfl := Option.some.inj (found.symm.trans found')
    refine ⟨rest, below, endsSearched_slashed.mpr ?_⟩
    exact (endsSearched_slashed.mp ends).of_standsFor stands (standsFor_ofComponents rest)
  · rintro ⟨rest, below, ends⟩
    obtain ⟨text, found, stands⟩ := relativeTo_of_components below
    refine ⟨text, found, endsSearched_slashed.mpr ?_⟩
    exact (endsSearched_slashed.mp ends).of_standsFor (standsFor_ofComponents rest) stands

/-- What is searched is called by a name that ends so. -/
theorem exists_fileName {dir p : Path} {rest : List Component}
    (below : components p = components dir ++ rest)
    (ends : EndsSearched (slashed (ofComponents rest))) :
    ∃ name, fileName? p = some name ∧ EndsSearched name := by
  replace ends := endsSearched_slashed.mp ends
  cases last : rest.getLast? with
  | none =>
    rw [List.getLast?_eq_none_iff.mp last] at ends
    exact absurd ends.typed (by decide +kernel)
  | some c =>
    -- Of all components only a name ends in this way.
    have final : EndsSearched c.text :=
      ends.congr fun _ single _ => endsWith_of_endsAs (endsAs_ofComponents last) single
    have whole : (components p).getLast? = some c := by
      rw [below, List.getLast?_append, last, Option.some_or]
    cases c with
    | root => exact absurd final.typed (by decide +kernel)
    | current => exact absurd final.typed (by decide +kernel)
    | up => exact absurd final.typed (by decide +kernel)
    | name name => exact ⟨name, by rw [fileName?, whole], final⟩

end Targets

namespace Analysis

variable {disk : Disk} {path : Path} {scan : Config.Scan}

/-- An analysis is a search of the project at its place. -/
theorem exists_project {analysis : Analysis} (ran : run disk path scan = .ok analysis) :
    ∃ project, Project.load disk analysis.place scan = .ok project ∧
      analysis.detection.findings =
        (project.files.filter (·.isTarget)).flatMap (Detection.foundInFile project) := by
  simp only [run, ofProject, during, bind_eq_ok, mapError_eq_ok] at ran
  obtain ⟨place, _, project, loaded, d, detected, result⟩ := ran
  cases result
  obtain ⟨d', detected', found⟩ := Detection.run_found project scan.keepGoing
  obtain rfl := Except.ok.inj (detected.symm.trans detected')
  exact ⟨project, loaded, found⟩

/-- A project that is loaded is analysed. -/
theorem run_of_load {place : Whereabouts} (located : Whereabouts.locate disk path = .ok place)
    {project : Project} (loaded : Project.load disk place scan = .ok project) :
    ∃ d, run disk path scan = .ok ⟨place, project.files.length, d⟩ ∧
      d.findings = (project.files.filter (·.isTarget)).flatMap (Detection.foundInFile project) := by
  obtain ⟨d, detected, found⟩ := Detection.run_found project scan.keepGoing
  refine ⟨d, ?_, found⟩
  simp only [run, ofProject, during, bind_eq_ok, mapError_eq_ok]
  exact ⟨place, located, project, loaded, d, detected, rfl⟩

/-- A finding is in a file that the targets contain. -/
theorem contains_of_finding {analysis : Analysis} (ran : run disk path scan = .ok analysis)
    {targets : Targets} (targeted : Targets.ofScan analysis.place.sourceDir scan = .ok targets)
    {finding : Finding} (member : finding ∈ analysis.detection.findings) :
    targets.contains finding.file = true := by
  obtain ⟨project, loaded, found⟩ := exists_project ran
  obtain ⟨_, _, _, _, _, _, _, targeted', _, marked⟩ := Project.exists_unmarked_of_loadWith loaded
  obtain rfl := Except.ok.inj (targeted.symm.trans targeted')
  rw [found] at member
  obtain ⟨file, listed, inside⟩ := List.mem_flatMap.mp member
  obtain ⟨loadedFile, chosen⟩ := List.mem_filter.mp listed
  rw [Detection.file_of_mem_foundInFile inside, ← marked file loadedFile]
  exact chosen

end Analysis

/-- The standard configuration searches the files below the source directory whose path from there
ends in `.ts`, controllers and declaration files aside; all that an analysis finds is in such
files. -/
theorem searched_by_default :
    (∀ dir, ∃ targets, Targets.ofScan dir .standard = .ok targets ∧
      ∀ p, targets.contains p = true ↔
        ∃ rest, p.components = dir.components ++ rest ∧
          Targets.EndsSearched (Path.ofComponents rest).slashed) ∧
    ∀ disk path analysis, Analysis.run disk path .standard = .ok analysis →
      ∀ finding ∈ analysis.detection.findings,
        (∃ rest, finding.file.components = analysis.place.sourceDir.components ++ rest) ∧
          ∃ name, finding.file.fileName? = some name ∧ Targets.EndsSearched name := by
  constructor
  · intro dir
    exact ⟨_, Targets.ofScan_standard dir, Targets.contains_standard dir⟩
  · intro disk path analysis ran finding member
    have chosen := Analysis.contains_of_finding ran (Targets.ofScan_standard _) member
    obtain ⟨rest, below, ends⟩ := (Targets.contains_standard _ _).mp chosen
    exact ⟨⟨rest, below⟩, Targets.exists_fileName below ends⟩

open Project in
theorem searched_by_default_keyed :
    ∃ analysis, Analysis.run keyedDisk "/p" .standard = .ok analysis ∧
      analysis.place.sourceDir = "/p/src" ∧ analysis.detection.findings ≠ [] ∧
      ∀ finding ∈ analysis.detection.findings,
        (∃ rest, finding.file.components = Path.components "/p/src" ++ rest) ∧
          ∃ name, finding.file.fileName? = some name ∧ Targets.EndsSearched name := by
  have located : Whereabouts.locate keyedDisk "/p" = .ok pairPlace := by decide +kernel
  obtain ⟨d, ran, found⟩ := Analysis.run_of_load located keyedProject_load
  refine ⟨_, ran, rfl, ?_, searched_by_default.2 _ _ _ ran⟩
  rw [found]
  decide +kernel

end UnusedMethods
