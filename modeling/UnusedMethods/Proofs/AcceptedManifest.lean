import UnusedMethods.Proofs.AcceptedValues
import UnusedMethods.Proofs.CommentScan
import UnusedMethods.Proofs.DecoratedManifest

/-!
# Manifests that are accepted

A text that is read as a manifest is JSON once its decoration is removed. It decorates JSON if and
only if its comments are closed, they keep words and numbers apart, and no comma comes first in
brackets. That commas and comments are taken away without a look at what stands before them is what
lets other texts in.
-/

namespace UnusedMethods.Json

/-! ### Commas in brackets -/

/-- An opening bracket has no comma behind it. -/
def OpensWell (token next : Token) : Prop :=
  token.opens = true → next ≠ .mark .comma

theorem opensWell_of_inside {token next : Token} (inside : token.opens = false) :
    OpensWell token next := by
  intro opens
  rw [inside] at opens
  cases opens

/-- Tokens that start with no comma and end with no opening bracket, and open well. -/
structure CommasBetween (tokens : List Token) : Prop where
  first : ∀ token ∈ tokens.head?, token ≠ .mark .comma
  last : ∀ token ∈ tokens.getLast?, token.opens = false
  chain : tokens.IsChain OpensWell

namespace CommasBetween

theorem single {token : Token} (notComma : token ≠ .mark .comma)
    (notOpening : token.opens = false) : CommasBetween [token] where
  first := by simpa using notComma
  last := by simpa using notOpening
  chain := .singleton _

theorem cons {token : Token} {tokens : List Token} (notComma : token ≠ .mark .comma)
    (some_ : tokens ≠ []) (between : CommasBetween tokens) : CommasBetween (token :: tokens) where
  first := by simpa using notComma
  last := by
    rw [List.getLast?_cons_of_ne_nil some_]
    exact between.last
  chain := List.isChain_cons.mpr ⟨fun next head _ => between.first next head, between.chain⟩

/-- Behind such tokens a comma may come too. -/
theorem append {tokens others : List Token} (some_ : tokens ≠ []) (some_' : others ≠ [])
    (between : CommasBetween tokens) (last' : ∀ token ∈ others.getLast?, token.opens = false)
    (chain' : others.IsChain OpensWell) : CommasBetween (tokens ++ others) where
  first := by
    rw [List.head?_append_of_ne_nil _ some_]
    exact between.first
  last := by
    rw [List.getLast?_append_of_ne_nil _ some_']
    exact last'
  chain := by
    refine List.isChain_append.mpr ⟨between.chain, chain', fun token last next _ => ?_⟩
    exact opensWell_of_inside (between.last token last)

theorem comma {tokens others : List Token} (some_ : tokens ≠ []) (some_' : others ≠ [])
    (between : CommasBetween tokens) (between' : CommasBetween others) :
    CommasBetween (tokens ++ .mark .comma :: others) := by
  refine between.append some_ nofun ?_ ?_
  · rw [List.getLast?_cons_of_ne_nil some_']
    exact between'.last
  · exact List.isChain_cons.mpr ⟨fun _ _ => opensWell_of_inside rfl, between'.chain⟩

end CommasBetween

theorem Phrase.commasBetween {kind : Kind} {tokens : List Token} (phrase : Phrase kind tokens) :
    CommasBetween tokens := by
  -- Items with their closing bracket, as a list and an object have them behind the opening one.
  have closed {tokens : List Token} {closing : Mark} (some_ : tokens ≠ [])
      (notOpening : (Token.mark closing).opens = false) (between : CommasBetween tokens) :
      CommasBetween (tokens ++ [.mark closing]) :=
    between.append some_ nofun (by simpa using notOpening) (.singleton _)
  induction phrase with
  | word | number | literal => exact .single nofun rfl
  | emptyList | emptyObject => exact .cons nofun nofun (.single nofun rfl)
  | list inside ih | object inside ih =>
    exact .cons nofun (by simp) (closed inside.joined.nonempty rfl ih)
  | lastElement _ ih => exact ih
  | element value rest ih ih' => exact .comma value.joined.nonempty rest.joined.nonempty ih ih'
  | lastMember key value ih => exact .cons nofun nofun (.cons nofun value.joined.nonempty ih)
  | member key value rest ih ih' =>
    refine .cons nofun nofun (.cons nofun (by simp) ?_)
    exact .comma value.joined.nonempty rest.joined.nonempty ih ih'

end UnusedMethods.Json

namespace UnusedMethods.Config

open Json

/-! ### The readers of manifests -/

theorem readsValue_bases : ReadsValue Bases.reader := by
  intro text
  refine Consumes.noting fun p => ?_
  refine (readsValue_content p.depth text).bind fun value rest begins => ?_
  cases value with
  | text entry => exact yields_pure begins
  | list values =>
    dsimp only
    cases textsOf values with
    | some entries => exact yields_pure begins
    | none => exact consumes_failUnplaced _
  | other => exact consumes_failUnplaced _

theorem readsValue_options : ReadsValue CompilerOptions.reader := by
  refine readsValue_record _ _ _ ?_
  simp only [CompilerOptions.fields, List.forall_mem_cons]
  refine ⟨fun o => ?_, fun o => ?_, List.forall_mem_nil _⟩
  · exact ReadsValue.keeping readsValue_bool.optional fun allowJs => { o with allowJs }
  · exact ReadsValue.keeping readsValue_text.optional fun outDir => { o with outDir }

theorem readsValue_manifest :
    ReadsValue (record "struct TsConfig" true Manifest.fields Manifest.empty) := by
  have texts := (ReadsValue.listOf readsValue_text).optional
  refine readsValue_record _ _ _ ?_
  simp only [Manifest.fields, List.forall_mem_cons]
  refine ⟨fun m => ?_, fun m => ?_, fun m => ?_, fun m => ?_, fun m => ?_, List.forall_mem_nil _⟩
  · exact ReadsValue.keeping readsValue_bases.optional fun bases => { m with bases }
  · exact ReadsValue.keeping texts fun files => { m with files }
  · exact ReadsValue.keeping texts fun includes => { m with includes }
  · exact ReadsValue.keeping texts fun excludes => { m with excludes }
  · exact ReadsValue.keeping readsValue_options.optional fun options => { m with options }

/-! ### Commas that are added -/

theorem AddsCommas.opensWell {tokens more : List Token} (adds : AddsCommas tokens more)
    (chain : tokens.IsChain OpensWell) : more.IsChain OpensWell := by
  induction adds with
  | nil => exact .nil
  | @keep token tokens more adds ih =>
    have head : more.head? = tokens.head? := by
      cases adds <;> rfl
    rw [List.isChain_cons] at chain ⊢
    rw [head]
    exact ⟨chain.1, ih chain.2⟩
  | @add token closing tokens more inside closes _ ih =>
    refine .cons_cons (opensWell_of_inside inside) (.cons_cons (opensWell_of_inside rfl) ?_)
    exact ih chain.tail

/-- What is not a mark has a mark behind it, with the commas too. -/
theorem InsertsCommas.marksFollow {tokens more : List Token} (inserts : InsertsCommas tokens more)
    (fits : tokens.IsChain Fits) :
    more.IsChain fun token next => token.isMark = false → next.isMark = true := by
  induction inserts with
  | nil => exact .nil
  | keep token rest ih =>
    obtain ⟨here, later⟩ := List.isChain_cons.mp fits
    refine List.isChain_cons.mpr ⟨?_, ih later⟩
    cases rest with
    | nil => exact fun next head => absurd head (Option.not_mem_none next)
    | keep => exact fun next head => (here next head).1
    | insert =>
      rintro _ ⟨rfl⟩ _
      rfl
  | insert closes _ ih => exact .cons_cons nofun (ih fits)

/-- Commas before closing brackets come last in brackets if these open well. -/
theorem InsertsCommas.adds_cons {tokens more : List Token} (inserts : InsertsCommas tokens more)
    (token : Token) (chain : (token :: more).IsChain OpensWell) :
    AddsCommas (token :: tokens) (token :: more) := by
  induction inserts generalizing token with
  | nil => exact .keep token .nil
  | keep next _ ih => exact .keep token (ih next chain.tail)
  | @insert closing tokens more closes _ ih =>
    have inside : token.opens = false := by
      rw [← Bool.not_eq_true]
      intro opens
      exact (List.isChain_cons_cons.mp chain).1 opens rfl
    refine .add inside closes ?_
    -- The comma in place of the token shows what is left to add.
    cases ih (.mark .comma) chain.tail with
    | keep _ rest => exact rest
    | add => cases closes

theorem InsertsCommas.adds {tokens more : List Token} (inserts : InsertsCommas tokens more)
    (phrase : Phrase .value tokens) (chain : more.IsChain OpensWell) : AddsCommas tokens more := by
  cases inserts with
  | nil => exact .nil
  | keep token rest => exact rest.adds_cons token chain
  | insert closes =>
    have open_ := phrase.joined.first _ rfl
    rw [closes] at open_
    cases open_

/-! ### What keeps a text from decorating -/

/-- Whether a comma comes first, blanks and comments aside. -/
def leadsComma (items : List Item) : Bool :=
  (items.dropWhile Item.isGap).head? == some (.plain ',')

/-- Whether no comma comes first in brackets. -/
def commasFollow (items : List Item) : Bool :=
  never (fun c => c == '[' || c == '\x7b') leadsComma items

section

variable {kind : Char → Bool} {behind : List Item → Bool} {items : List Item}

theorem never_gap (other : ∀ c ∈ [' ', '\t', '\n', '\r'], kind c = false) {before : List Item}
    (gap : ∀ item ∈ before, item.isGap = true) :
    never kind behind (before ++ items) = never kind behind items := by
  induction before with
  | nil => rfl
  | cons item before ih =>
    obtain ⟨here, later⟩ := List.forall_mem_cons.mp gap
    cases item with
    | plain c =>
      have blank : c ∈ [' ', '\t', '\n', '\r'] := of_decide_eq_true here
      rw [List.cons_append, never, other c blank, ih later]
      rfl
    | quoted c => cases here
    | comment closed => exact ih later

theorem never_plain {cs : List Char} (other : ∀ c ∈ cs, kind c = false) :
    never kind behind (cs.map .plain ++ items) = never kind behind items := by
  induction cs with
  | nil => rfl
  | cons c cs ih =>
    obtain ⟨here, later⟩ := List.forall_mem_cons.mp other
    rw [List.map_cons, List.cons_append, never, here, ih later]
    rfl

theorem never_literal (other : kind '"' = false) (pieces : List Piece) :
    never kind behind (tokenItems (.literal pieces) ++ items) = never kind behind items := by
  have quoted (cs : List Char) :
      never kind behind (cs.map .quoted ++ items) = never kind behind items := by
    induction cs with
    | nil => rfl
    | cons c cs ih => exact ih
  rw [tokenItems, List.cons_append, never, other, quoted]
  rfl

end

section

variable {tokens : List Token} {items : List Item}

/-- A token starts with a comma only if it is one. -/
theorem tokenItems_first (token : Token) :
    ∃ c rest, tokenItems token = .plain c :: rest ∧ c ∉ [' ', '\t', '\n', '\r'] ∧
      (c = ',' ↔ token = .mark .comma) := by
  cases token with
  | mark m => cases m <;> exact ⟨_, [], rfl, by decide, by simp [Mark.char]⟩
  | literal pieces => exact ⟨'"', _, rfl, by decide, by simp⟩
  | word w => cases w <;> exact ⟨_, _, rfl, by decide, by simp⟩
  | number n =>
    obtain ⟨c, cs, first, notBlank, _⟩ := token_first (.number n)
    refine ⟨c, cs.map .plain, congrArg (List.map Item.plain) first, fun blank => ?_, ?_,
      Token.noConfusion⟩
    · rw [isBlank_of_mem blank] at notBlank
      cases notBlank
    · rintro rfl
      have word := isWordChar_of_number n (first ▸ List.mem_cons_self)
      cases word

theorem leadsComma_iff (laid : Laid tokens items) :
    leadsComma items = true ↔ tokens.head? = some (.mark .comma) := by
  unfold leadsComma
  cases laid with
  | nil gap =>
    rw [← List.append_nil items, List.dropWhile_append_of_pos gap]
    exact ⟨nofun, nofun⟩
  | @cons token tokens before items gap _ =>
    obtain ⟨c, rest, first, notBlank, comma⟩ := tokenItems_first token
    have stays : ¬ (Item.plain c).isGap = true := fun blank => notBlank (of_decide_eq_true blank)
    rw [List.dropWhile_append_of_pos gap, first, List.cons_append,
      List.dropWhile_cons_of_neg stays]
    simp [comma]

theorem commasFollow_iff (laid : Laid tokens items) :
    commasFollow items = true ↔ tokens.IsChain OpensWell := by
  have notBlank : ∀ c ∈ [' ', '\t', '\n', '\r'], (c == '[' || c == '\x7b') = false :=
    forall_mem_of_all (by decide)
  -- Only a mark can be an opening bracket; all other items are stepped over.
  have notWord {c : Char} (word : isWordChar c = true) : (c == '[' || c == '\x7b') = false := by
    rw [Bool.or_eq_false_iff, beq_eq_false_iff_ne, beq_eq_false_iff_ne]
    constructor <;> rintro rfl <;> cases word
  unfold commasFollow
  induction laid with
  | @nil items gap =>
    rw [← List.append_nil items, never_gap notBlank gap]
    exact ⟨fun _ => .nil, fun _ => rfl⟩
  | @cons token tokens before items gap laid ih =>
    rw [never_gap notBlank gap, List.isChain_cons]
    refine Iff.trans ?_ (and_congr_right' ih)
    cases token with
    | mark m =>
      have opens : (m.char == '[' || m.char == '\x7b') = (Token.mark m).opens := by
        cases m <;> decide
      rw [tokenItems, List.singleton_append, never, opens, Bool.and_eq_true_iff]
      refine and_congr_left' ⟨fun holds next head opening comma => ?_, fun holds => ?_⟩
      · have leads := (leadsComma_iff laid).mpr (comma ▸ head)
        simp [opening, leads] at holds
      · rw [Bool.not_eq_true', ← Bool.not_eq_true]
        intro both
        obtain ⟨opening, leads⟩ := Bool.and_eq_true_iff.mp both
        exact holds _ ((leadsComma_iff laid).mp leads) opening rfl
    | literal pieces =>
      rw [never_literal (by decide)]
      exact ⟨fun holds => ⟨fun _ _ => opensWell_of_inside rfl, holds⟩, And.right⟩
    | word w =>
      rw [tokenItems, never_plain fun c member => notWord (isWordChar_of_word w member)]
      exact ⟨fun holds => ⟨fun _ _ => opensWell_of_inside rfl, holds⟩, And.right⟩
    | number n =>
      rw [tokenItems, never_plain fun c member => notWord (isWordChar_of_number n member)]
      exact ⟨fun holds => ⟨fun _ _ => opensWell_of_inside rfl, holds⟩, And.right⟩

/-- Before a mark nothing comes together with what stands before comments. -/
theorem joins_eq_false (laid : Laid tokens items)
    (marks : ∀ next ∈ tokens.head?, next.isMark = true) : joins items = false := by
  rw [← Bool.not_eq_true]
  intro joined
  have word : (filled [] items).head?.any isWordChar = true := by
    match items, joined with
    | .comment _ :: _, joined => exact joined
  have spaced := laid.spaced (nofun : IsBlank [])
  generalize filled [] items = text at spaced word
  have notBlank {c : Char} {rest : List Char} (blank : IsBlank (c :: rest)) :
      isWordChar c = false :=
    isWordChar_of_isBlank (isBlank_of_mem (blank c List.mem_cons_self))
  cases spaced with
  | nil blank =>
    cases text with
    | nil => cases word
    | cons c text => simp [notBlank blank] at word
  | @cons token tokens before text blank _ =>
    cases before with
    | cons c before => simp [notBlank blank] at word
    | nil =>
      have mark := marks token rfl
      cases token with
      | mark m => cases m <;> cases word
      | literal | word | number => cases mark

theorem keepsApart_of_laid (laid : Laid tokens items)
    (chain : tokens.IsChain fun token next => token.isMark = false → next.isMark = true) :
    keepsApart items = true := by
  have notBlank : ∀ c ∈ [' ', '\t', '\n', '\r'], isWordChar c = false :=
    forall_mem_of_all (by decide)
  unfold keepsApart
  induction laid with
  | @nil items gap =>
    rw [← List.append_nil items, never_gap notBlank gap]
    rfl
  | @cons token tokens before items gap laid ih =>
    obtain ⟨fits, later⟩ := List.isChain_cons.mp chain
    rw [never_gap notBlank gap]
    have word (cs : List Char) (apart : joins items = false) :
        never isWordChar joins (cs.map .plain ++ items) = true := by
      induction cs with
      | nil => exact ih later
      | cons c cs ih' =>
        have next : joins (cs.map .plain ++ items) = false := by
          cases cs with
          | nil => exact apart
          | cons d cs => rfl
        rw [List.map_cons, List.cons_append, never, next, ih', Bool.and_false]
        rfl
    cases token with
    | mark m =>
      have other : isWordChar m.char = false := by
        cases m <;> decide
      rw [tokenItems, List.singleton_append, never, other]
      exact ih later
    | literal pieces =>
      rw [never_literal (by decide)]
      exact ih later
    | word w => exact word w.text (joins_eq_false laid fun next head => fits next head rfl)
    | number n => exact word n.text (joins_eq_false laid fun next head => fits next head rfl)

end

/-! ### Whole texts -/

/-- What a text is made of. -/
def itemsOf (text : String) : List Item :=
  itemsFrom .plain text.toList

/-- A text with a blank in the place of each comment. -/
def spaceComments (text : String) : String :=
  String.ofList (filled [' '] (itemsOf text))

theorem toList_undecorated (text : String) :
    (undecorated text).toList = stripCommas (filled [] (itemsOf text)) := by
  rw [undecorated, String.toList_ofList, stripComments, stripFrom_eq_filled]
  rfl

theorem toList_undecorated_spaceComments (text : String) :
    (undecorated (spaceComments text)).toList = stripCommas (filled [' '] (itemsOf text)) := by
  rw [undecorated, String.toList_ofList, spaceComments, String.toList_ofList, stripComments]
  exact congrArg stripCommas (stripFrom_filled .plain text.toList)

/-- What is left of a text that decorates JSON has nothing that would keep it from doing so. -/
theorem Decorates.fits {text json : String} (decorates : Decorates text json) :
    (∀ item ∈ itemsOf text, item.isClosed = true) ∧ keepsApart (itemsOf text) = true ∧
      commasFollow (itemsOf text) = true := by
  obtain ⟨tokens, more, phrase, _, adds, decorated⟩ := decorates
  have laid : Laid more (itemsOf text) := laid_of_spaced (decorated.mono fun _ => Or.inl)
  refine ⟨closed_of_spaced decorated, ?_, ?_⟩
  · exact keepsApart_of_laid laid (adds.inserts.marksFollow phrase.joined.chain)
  · exact (commasFollow_iff laid).mpr (adds.opensWell phrase.commasBetween.chain)

/-- The tokens of a text that is read once its comments are replaced, with the commas that are
removed from it. -/
theorem exists_laid {text source : String} {fill : List Char} (blank : IsBlank fill)
    (separates : fill ≠ [] ∨ keepsApart (itemsOf text) = true)
    (left : source.toList = stripCommas (filled fill (itemsOf text))) {manifest : Manifest}
    (read : Manifest.ofJson source = .ok manifest) :
    ∃ tokens more, Phrase .value tokens ∧ InsertsCommas tokens more ∧
      Spaced IsBlank IsBlank tokens source.toList ∧
      Spaced IsGap IsOpenLastGap more text.toList := by
  obtain ⟨tokens, phrase, spaced⟩ := readsValue_manifest.isJson read
  have stripped := spaced
  rw [left] at stripped
  obtain ⟨more, inserts, filled⟩ := exists_insertsCommas stripped
  exact ⟨tokens, more, phrase, inserts, spaced, spaced_of_filled blank separates filled⟩

/-- Comments may be replaced by blanks where they stand between tokens. -/
theorem parse_spaceComments_iff {text : String} {tokens more : List Token}
    (phrase : Phrase .value tokens) (inserts : InsertsCommas tokens more)
    (laid : Laid more (itemsOf text)) (path : Path) (manifest : Manifest) :
    Manifest.parse path (spaceComments text) = .ok manifest ↔
      Manifest.parse path text = .ok manifest := by
  have fits := phrase.joined.chain
  have none_ : IsBlank [] := nofun
  have space : IsBlank [' '] := List.forall_mem_singleton.mpr (by decide)
  rw [parse_eq_ok, parse_eq_ok]
  refine parse_eq_ok_iff seesTokens_manifest fits ?_ ?_ manifest
  · rw [toList_undecorated_spaceComments]
    exact stripCommas_spaced fits inserts (laid.spaced space)
  · rw [toList_undecorated]
    exact stripCommas_spaced fits inserts (laid.spaced none_)

/-- A text that is read as a manifest is JSON without its decoration. It decorates JSON, which is
read as the same manifest, if and only if its comments are closed and keep words and numbers apart
and no comma comes first in brackets. It is still read with a blank in the place of each comment if
and only if they keep these apart. A text that is not read is not read with such blanks either. -/
theorem parse_accepted (path : Path) (text : String) (manifest : Manifest) :
    (Manifest.parse path text = .ok manifest →
      IsJson (undecorated text) ∧
      ((∃ json, Decorates text json ∧ Manifest.ofJson json = .ok manifest) ↔
        (∀ item ∈ itemsOf text, item.isClosed = true) ∧ keepsApart (itemsOf text) = true ∧
          commasFollow (itemsOf text) = true) ∧
      (Manifest.parse path (spaceComments text) = .ok manifest ↔
        keepsApart (itemsOf text) = true)) ∧
    (Manifest.parse path (spaceComments text) = .ok manifest →
      Manifest.parse path text = .ok manifest) := by
  have none_ : IsBlank [] := nofun
  have space : IsBlank [' '] := List.forall_mem_singleton.mpr (by decide)
  have spaced (read : Manifest.parse path (spaceComments text) = .ok manifest) :
      ∃ tokens more, Phrase .value tokens ∧ InsertsCommas tokens more ∧
        Laid more (itemsOf text) := by
    obtain ⟨tokens, more, phrase, inserts, _, decorated⟩ := exists_laid space (Or.inl nofun)
      (toList_undecorated_spaceComments text) ((parse_eq_ok ..).mp read)
    exact ⟨tokens, more, phrase, inserts, laid_of_spaced decorated⟩
  refine ⟨fun accepted => ?_, fun read => ?_⟩
  · have read := (parse_eq_ok ..).mp accepted
    refine ⟨readsValue_manifest.isJson read, ⟨?_, ?_⟩, fun spacedRead => ?_, fun apart => ?_⟩
    · rintro ⟨json, decorates, _⟩
      exact decorates.fits
    · rintro ⟨closed, apart, follow⟩
      obtain ⟨tokens, more, phrase, inserts, plain, decorated⟩ :=
        exists_laid none_ (Or.inr apart) (toList_undecorated text) read
      have adds := inserts.adds phrase ((commasFollow_iff (laid_of_spaced decorated)).mp follow)
      exact ⟨undecorated text,
        ⟨tokens, more, phrase, plain, adds, lastGap_of_closed decorated closed⟩, read⟩
    · obtain ⟨tokens, more, phrase, inserts, laid⟩ := spaced spacedRead
      exact keepsApart_of_laid laid (inserts.marksFollow phrase.joined.chain)
    · obtain ⟨tokens, more, phrase, inserts, _, decorated⟩ :=
        exists_laid none_ (Or.inr apart) (toList_undecorated text) read
      exact (parse_spaceComments_iff phrase inserts (laid_of_spaced decorated) ..).mpr accepted
  · obtain ⟨tokens, more, phrase, inserts, laid⟩ := spaced read
    exact (parse_spaceComments_iff phrase inserts laid ..).mp read

theorem parse_accepted_decorated :
    Manifest.parse "/p/tsconfig.json" decoratedManifest =
        .ok { Manifest.empty with files := some ["a//\",]"] } ∧
      (∃ json, Decorates decoratedManifest json ∧
        Manifest.ofJson json = .ok { Manifest.empty with files := some ["a//\",]"] }) ∧
      Manifest.parse "/p/tsconfig.json" (spaceComments decoratedManifest) =
        .ok { Manifest.empty with files := some ["a//\",]"] } := by
  have accepted : Manifest.parse "/p/tsconfig.json" decoratedManifest =
      .ok { Manifest.empty with files := some ["a//\",]"] } :=
    (parse_eq_ok ..).mpr (by decide +kernel)
  have closed : ∀ item ∈ itemsOf decoratedManifest, item.isClosed = true := by decide +kernel
  have apart : keepsApart (itemsOf decoratedManifest) = true := by decide +kernel
  have follow : commasFollow (itemsOf decoratedManifest) = true := by decide +kernel
  obtain ⟨_, decorates, replaced⟩ := (parse_accepted _ _ _).1 accepted
  exact ⟨accepted, decorates.mpr ⟨closed, apart, follow⟩, replaced.mpr apart⟩

/-! ### Texts that decorate nothing -/

/-- A number in two parts with a comment between them. -/
def joinedManifest : String :=
  "\x7b\"a\":1/**/2\x7d"

/-- A comma that is all there is in a list. -/
def loneCommaManifest : String :=
  "\x7b\"files\":[,]\x7d"

/-- A comment that is not closed. -/
def openManifest : String :=
  "\x7b\x7d/*"

/-- Other texts are accepted too, and a blank in the place of a comment makes a difference. -/
theorem parse_accepts_others :
    (Manifest.parse "/p/tsconfig.json" joinedManifest = .ok Manifest.empty ∧
      (∀ manifest,
        Manifest.parse "/p/tsconfig.json" (spaceComments joinedManifest) ≠ .ok manifest) ∧
      ¬ ∃ json, Decorates joinedManifest json) ∧
    (Manifest.parse "/p/tsconfig.json" loneCommaManifest =
        .ok { Manifest.empty with files := some [] } ∧
      ¬ ∃ json, Decorates loneCommaManifest json) ∧
    (Manifest.parse "/p/tsconfig.json" openManifest = .ok Manifest.empty ∧
      ¬ ∃ json, Decorates openManifest json) := by
  refine ⟨⟨(parse_eq_ok ..).mpr (by decide +kernel), fun manifest read => ?_, ?_⟩,
    ⟨(parse_eq_ok ..).mpr (by decide +kernel), ?_⟩,
    (parse_eq_ok ..).mpr (by decide +kernel), ?_⟩
  · have failed :
        (Manifest.ofJson (undecorated (spaceComments joinedManifest))).toOption = none := by
      decide +kernel
    rw [(parse_eq_ok ..).mp read] at failed
    cases failed
  · rintro ⟨json, decorates⟩
    exact absurd decorates.fits.2.1 (by decide +kernel)
  · rintro ⟨json, decorates⟩
    exact absurd decorates.fits.2.2 (by decide +kernel)
  · rintro ⟨json, decorates⟩
    exact absurd decorates.fits.1 (by decide +kernel)

end UnusedMethods.Config
