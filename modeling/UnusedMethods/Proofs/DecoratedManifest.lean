import UnusedMethods.Config.Manifest
import UnusedMethods.Proofs.Decoration
import UnusedMethods.Proofs.ValueReaders

/-!
# Decorated manifests

A manifest with comments and commas before closing brackets is read as the JSON that it decorates.
Removing the decoration leaves the tokens of that JSON with other blanks between them, and the
readers of manifests see tokens only.
-/

namespace UnusedMethods.Config

open Json

/-! ### The readers of manifests -/

theorem seesTokens_bases : SeesTokens Bases.reader := by
  intro depth tokens
  -- How deep a value may go is taken from the position, and it is the same in both texts.
  refine .noting fun p p' same same' => ?_
  rw [same, same']
  refine (seesTokens_content depth depth tokens).bind ?_
  intro value after known
  cases value with
  | text entry => exact (reads_pure (Bases.one entry)).settled known
  | list values =>
    dsimp only
    cases textsOf values with
    | some entries => exact (reads_pure (Bases.many entries)).settled known
    | none => exact (refuses_failUnplaced _).settled
  | other => exact (refuses_failUnplaced _).settled

theorem seesTokens_options : SeesTokens CompilerOptions.reader := by
  refine seesTokens_record _ _ _ ?_
  simp only [CompilerOptions.fields, List.forall_mem_cons]
  refine ⟨fun o => ?_, fun o => ?_, nofun⟩
  · exact SeesTokens.keeping seesTokens_bool.optional fun allowJs => { o with allowJs }
  · exact SeesTokens.keeping seesTokens_text.optional fun outDir => { o with outDir }

theorem seesTokens_manifest :
    SeesTokens (record "struct TsConfig" true Manifest.fields Manifest.empty) := by
  have texts := (SeesTokens.listOf seesTokens_text).optional
  refine seesTokens_record _ _ _ ?_
  simp only [Manifest.fields, List.forall_mem_cons]
  refine ⟨fun m => ?_, fun m => ?_, fun m => ?_, fun m => ?_, fun m => ?_, nofun⟩
  · exact SeesTokens.keeping seesTokens_bases.optional fun bases => { m with bases }
  · exact SeesTokens.keeping texts fun files => { m with files }
  · exact SeesTokens.keeping texts fun includes => { m with includes }
  · exact SeesTokens.keeping texts fun excludes => { m with excludes }
  · exact SeesTokens.keeping seesTokens_options.optional fun options => { m with options }

/-! ### Decorated texts -/

theorem parse_eq_ok (path : Path) (text : String) (manifest : Manifest) :
    Manifest.parse path text = .ok manifest ↔
      Manifest.ofJson (undecorated text) = .ok manifest := by
  unfold Manifest.parse
  split
  next read => rw [read, Except.ok.injEq, Except.ok.injEq]
  next failed => rw [failed]; exact ⟨nofun, nofun⟩

/-- JSON has no decoration to remove, and a text that decorates it is read as the same manifest or,
like it, not at all. -/
theorem parse_decorated (json : String) (valid : IsJson json) :
    undecorated json = json ∧
      ∀ path text, Decorates text json → ∀ manifest,
        Manifest.parse path text = .ok manifest ↔ Manifest.ofJson json = .ok manifest := by
  refine ⟨undecorated_eq_self valid, ?_⟩
  intro path text decorates manifest
  obtain ⟨tokens, phrase, plain, left⟩ := decorates.spaced
  rw [parse_eq_ok]
  exact parse_eq_ok_iff seesTokens_manifest phrase.joined.chain left plain manifest

/-! ### A decorated text -/

/-- A text from tokens with the gaps before them, and the gap at the end. -/
def spell (pieces : List (List Char × Token)) (last : List Char) : List Char :=
  pieces.foldr (fun piece text => piece.1 ++ (piece.2.text ++ text)) last

theorem spaced_spell {gap last : List Char → Prop} (pieces : List (List Char × Token))
    {ending : List Char} (gaps : ∀ piece ∈ pieces, gap piece.1) (ends : last ending) :
    Spaced gap last (pieces.map (·.2)) (spell pieces ending) := by
  induction pieces with
  | nil => exact .nil ends
  | cons piece pieces ih =>
    obtain ⟨here, later⟩ := List.forall_mem_cons.mp gaps
    exact .cons here (ih later)

def filesKey : Token :=
  .literal (['f', 'i', 'l', 'e', 's'].pmap .plain (forall_mem_of_all (by decide)))

/-- A literal that holds what comments and commas are made of, and a quote. -/
def oddEntry : Token :=
  .literal (['a', '/', '/'].pmap .plain (forall_mem_of_all (by decide)) ++
    .short '"' (by decide) :: [',', ']'].pmap .plain (forall_mem_of_all (by decide)))

def oddTokens : List Token :=
  [.mark .openObject, filesKey, .mark .colon, .mark .openList, oddEntry, .mark .closeList,
    .mark .closeObject]

def bareManifest : String :=
  "\x7b\"files\":[\"a//\\\",]\"]\x7d"

def decoratedManifest : String :=
  "/**/\x7b \"files\" //\",[\n:[\"a//\\\",]\",/* \" // */]/*/*/,\x7d//x"

theorem phrase_oddTokens : Phrase .value oddTokens :=
  .object (.lastMember _ (.list (.lastElement (.literal _))))

theorem spaced_bareManifest : Spaced IsBlank IsBlank oddTokens bareManifest.toList :=
  spaced_spell (oddTokens.map fun token => ([], token)) (by simp [IsBlank]) (nofun : IsBlank [])

theorem decorates_bareManifest : Decorates decoratedManifest bareManifest := by
  refine ⟨oddTokens, _, phrase_oddTokens, spaced_bareManifest,
    .keep _ (.keep _ (.keep _ (.keep _ (.add rfl rfl (.add rfl rfl (.keep _ .nil)))))), ?_⟩
  have empty : IsGap ['/', '*', '*', '/'] :=
    .block (by decide : ¬ ['*', '/'] <:+: ([] : List Char)) .nil
  have line : IsGap [' ', '/', '/', '"', ',', '[', '\n'] :=
    .blank (by decide) (.line (by decide : '\n' ∉ ['"', ',', '[']) .nil)
  have quoted : IsGap ['/', '*', ' ', '"', ' ', '/', '/', ' ', '*', '/'] :=
    .block (by decide : ¬ ['*', '/'] <:+: [' ', '"', ' ', '/', '/', ' ']) .nil
  have slash : IsGap ['/', '*', '/', '*', '/'] :=
    .block (by decide : ¬ ['*', '/'] <:+: ['/']) .nil
  have ending : IsLastGap ['/', '/', 'x'] := Or.inr ⟨[], ['x'], rfl, .nil, by decide⟩
  refine spaced_spell [(['/', '*', '*', '/'], .mark .openObject), ([' '], filesKey),
    ([' ', '/', '/', '"', ',', '[', '\n'], .mark .colon), ([], .mark .openList), ([], oddEntry),
    ([], .mark .comma), (['/', '*', ' ', '"', ' ', '/', '/', ' ', '*', '/'], .mark .closeList),
    (['/', '*', '/', '*', '/'], .mark .comma), ([], .mark .closeObject)] ?_ ending
  simp only [List.forall_mem_cons]
  exact ⟨empty, .blank (by decide) .nil, line, .nil, .nil, .nil, quoted, slash, .nil,
    List.forall_mem_nil _⟩

theorem parse_decoratedManifest :
    IsJson bareManifest ∧ Decorates decoratedManifest bareManifest ∧
      undecorated bareManifest = bareManifest ∧
      Manifest.parse "/p/tsconfig.json" decoratedManifest =
        .ok { Manifest.empty with files := some ["a//\",]"] } := by
  have valid : IsJson bareManifest := ⟨oddTokens, phrase_oddTokens, spaced_bareManifest⟩
  obtain ⟨same, alike⟩ := parse_decorated bareManifest valid
  refine ⟨valid, decorates_bareManifest, same, (alike _ _ decorates_bareManifest _).mpr ?_⟩
  decide +kernel

end UnusedMethods.Config
