import Mathlib.Logic.Relation
import UnusedMethods.Proofs.Bases
import UnusedMethods.Proofs.Outcome

/-!
# When manifests are called circular

A work that loads a manifest with its bases keeps one list of the manifests seen and never takes one
from it. So it fails for a manifest that builds on itself in the end, and just as well for one that
two entries name, although nothing turns in a circle then. With manifests that can all be read these
are the only two ways to fail. If no two entries name the same manifest, the failure does mean a
circle, and a circle always fails.

The argument goes through the ways that entries lead from the top, as positions of entries. A work
that succeeds has listed the end of each way once, so the ends of different ways are different; a
work that fails has found two ways to one end.
-/

namespace UnusedMethods.Config

open Relation

section

variable (disk : Disk)

/-- What an entry of a manifest leads to, among the entries that lead somewhere. -/
def HasBase (config : Path) (position : Nat) (base : Path) : Prop :=
  ∃ manifest, Manifest.read disk config = .ok manifest ∧
    (manifest.basesAt disk config)[position]? = some base

/-- Some entry of a manifest leads to another. -/
def BuildsOn (config base : Path) : Prop :=
  ∃ position, HasBase disk config position base

/-- Below a manifest there is one that builds on itself in the end. -/
def Cyclic (top : Path) : Prop :=
  ∃ config, ReflTransGen (BuildsOn disk) top config ∧ TransGen (BuildsOn disk) config config

/-- Below a manifest there are two entries that lead to the same manifest. -/
def Shared (top : Path) : Prop :=
  ∃ config position config' position' base, ReflTransGen (BuildsOn disk) top config ∧
    ReflTransGen (BuildsOn disk) top config' ∧ HasBase disk config position base ∧
    HasBase disk config' position' base ∧ (config, position) ≠ (config', position')

/-- A way from some manifests down their bases: which of the manifests, which of its bases, and so
on. -/
inductive Way : List Path → List Nat → Path → Prop
  | here {roots : List Path} {position : Nat} {config : Path}
      (named : roots[position]? = some config) : Way roots [position] config
  | on {roots : List Path} {position : Nat} {config base : Path} {manifest : Manifest}
      {steps : List Nat} (named : roots[position]? = some config)
      (read : Manifest.read disk config = .ok manifest)
      (way : Way (manifest.basesAt disk config) steps base) : Way roots (position :: steps) base

/-- Two ways from some manifests lead to the same one. -/
def MeetsTwice (roots : List Path) : Prop :=
  ∃ steps steps' config, steps ≠ steps' ∧ Way disk roots steps config ∧ Way disk roots steps' config

end

variable {disk : Disk}

theorem hasBase_iff {config : Path} {manifest : Manifest}
    (read : Manifest.read disk config = .ok manifest) {position : Nat} {base : Path} :
    HasBase disk config position base ↔
      (manifest.basesAt disk config)[position]? = some base := by
  constructor
  · rintro ⟨manifest', read', leads⟩
    obtain rfl := Except.ok.inj (read.symm.trans read')
    exact leads
  · exact fun leads => ⟨manifest, read, leads⟩

/-! ### Ways -/

namespace Way

variable {roots others : List Path} {steps : List Nat} {config base : Path}

theorem ne_nil (way : Way disk roots steps config) : steps ≠ [] := by
  cases way <;> simp

theorem append_right (way : Way disk roots steps config) :
    Way disk (roots ++ others) steps config := by
  have stays {position : Nat} {config : Path} (named : roots[position]? = some config) :
      (roots ++ others)[position]? = some config := by
    rw [List.getElem?_append_left (List.getElem?_eq_some_iff.mp named).1]
    exact named
  cases way with
  | here named => exact .here (stays named)
  | on named read rest => exact .on (stays named) read rest

/-- With one more manifest in front the first position is one higher. -/
theorem shift {root : Path} {position : Nat} (way : Way disk roots (position :: steps) config) :
    Way disk (root :: roots) ((position + 1) :: steps) config := by
  cases way with
  | here named => exact .here (by simpa using named)
  | on named read rest => exact .on (by simpa using named) read rest

theorem unique {config' : Path} (way : Way disk roots steps config)
    (way' : Way disk roots steps config') : config = config' := by
  induction way generalizing config' with
  | here named =>
    cases way' with
    | here named' => exact Option.some.inj (named.symm.trans named')
    | on _ _ rest => exact absurd rfl rest.ne_nil
  | on named read rest ih =>
    cases way' with
    | here _ => exact absurd rfl rest.ne_nil
    | on named' read' rest' =>
      obtain rfl := Option.some.inj (named.symm.trans named')
      obtain rfl := Except.ok.inj (read.symm.trans read')
      exact ih rest'

/-- A way stays at the first manifest, goes down its bases, or starts at a later one. -/
theorem cons_cases {root : Path} {manifest : Manifest}
    (read : Manifest.read disk root = .ok manifest) (way : Way disk (root :: roots) steps config) :
    (steps = [0] ∧ config = root) ∨
      (∃ rest, steps = 0 :: rest ∧ Way disk (manifest.basesAt disk root) rest config) ∨
      ∃ position rest, steps = (position + 1) :: rest ∧
        Way disk roots (position :: rest) config := by
  cases way with
  | @here _ position _ named =>
    cases position with
    | zero => exact Or.inl ⟨rfl, (Option.some.inj named).symm⟩
    | succ position => exact Or.inr (Or.inr ⟨position, [], rfl, .here (by simpa using named)⟩)
  | @on _ position _ _ _ rest named read' way =>
    cases position with
    | zero =>
      obtain rfl := Option.some.inj named
      obtain rfl := Except.ok.inj (read.symm.trans read')
      exact Or.inr (Or.inl ⟨rest, rfl, way⟩)
    | succ position =>
      exact Or.inr (Or.inr ⟨position, rest, rfl, .on (by simpa using named) read' way⟩)

/-- A way goes on by an entry of the manifest that it leads to. -/
theorem snoc (way : Way disk roots steps config) {position : Nat}
    (leads : HasBase disk config position base) : Way disk roots (steps ++ [position]) base := by
  induction way with
  | here named =>
    obtain ⟨manifest, read, next⟩ := leads
    exact .on named read (.here next)
  | on named read _ ih => exact .on named read (ih leads)

/-- A way is only the choice of a manifest, or it came by an entry of another. -/
theorem snoc_cases (way : Way disk roots steps base) :
    (∃ position, steps = [position] ∧ roots[position]? = some base) ∨
      ∃ before position config, steps = before ++ [position] ∧ Way disk roots before config ∧
        HasBase disk config position base := by
  induction way with
  | here named => exact Or.inl ⟨_, rfl, named⟩
  | @on roots position config base manifest steps named read way ih =>
    rcases ih with ⟨last, rfl, next⟩ | ⟨before, last, config', rfl, way', leads⟩
    · exact Or.inr ⟨[position], last, config, rfl, .here named, manifest, read, next⟩
    · exact Or.inr ⟨position :: before, last, config', rfl, .on named read way', leads⟩

/-- A way leads to a manifest that one of the first ones builds on in the end. -/
theorem reaches (way : Way disk roots steps config) :
    ∃ root ∈ roots, ReflTransGen (BuildsOn disk) root config := by
  induction way with
  | here named => exact ⟨_, List.mem_of_getElem? named, .refl⟩
  | on named read _ ih =>
    obtain ⟨base, member, further⟩ := ih
    obtain ⟨position, next⟩ := List.mem_iff_getElem?.mp member
    exact ⟨_, List.mem_of_getElem? named, .head ⟨position, _, read, next⟩ further⟩

theorem reaches_top {top : Path} (way : Way disk [top] steps config) :
    ReflTransGen (BuildsOn disk) top config := by
  obtain ⟨root, member, further⟩ := way.reaches
  rw [List.mem_singleton] at member
  exact member ▸ further

theorem of_reaches {top : Path} (further : ReflTransGen (BuildsOn disk) top config) :
    ∃ steps, Way disk [top] steps config := by
  induction further with
  | refl => exact ⟨[0], .here rfl⟩
  | tail _ leads ih =>
    obtain ⟨steps, way⟩ := ih
    obtain ⟨position, leads⟩ := leads
    exact ⟨_, way.snoc leads⟩

/-- From where a way leads, a longer way leads to all that is built on there. -/
theorem exists_longer (way : Way disk roots steps config)
    (further : TransGen (BuildsOn disk) config base) :
    ∃ steps', steps.length < steps'.length ∧ Way disk roots steps' base := by
  induction further with
  | single leads =>
    obtain ⟨position, leads⟩ := leads
    exact ⟨_, by simp, way.snoc leads⟩
  | tail _ leads ih =>
    obtain ⟨steps', longer, way'⟩ := ih
    obtain ⟨position, leads⟩ := leads
    exact ⟨_, by simp only [List.length_append]; omega, way'.snoc leads⟩

end Way

/-- Of two ways to one manifest take away what they end with alike. What is left came by different
entries, or one of them has not left the top. -/
theorem cyclic_or_shared {top : Path} (steps steps' : List Nat) {config : Path}
    (different : steps ≠ steps') (way : Way disk [top] steps config)
    (way' : Way disk [top] steps' config) : Cyclic disk top ∨ Shared disk top := by
  -- A way that comes back to the top is a circle.
  have back {before : List Nat} {position : Nat} {config : Path}
      (way : Way disk [top] before config) (leads : HasBase disk config position top) :
      Cyclic disk top :=
    ⟨top, .refl, .tail' way.reaches_top ⟨position, leads⟩⟩
  have at_top {position : Nat} {config : Path} (named : [top][position]? = some config) :
      position = 0 ∧ config = top := by
    have inside := (List.getElem?_eq_some_iff.mp named).1
    obtain rfl : position = 0 := by simpa using inside
    exact ⟨rfl, (Option.some.inj named).symm⟩
  induction steps using List.reverseRecOn generalizing steps' config with
  | nil => exact absurd rfl way.ne_nil
  | append_singleton before position ih =>
    rcases way.snoc_cases with ⟨first, single, named⟩ | ⟨front, last, onto, split, way₁, leads⟩
    · obtain ⟨rfl, rfl⟩ := at_top named
      rcases way'.snoc_cases with ⟨first', single', named'⟩ | ⟨front', _, _, _, way₂, leads'⟩
      · obtain ⟨rfl, _⟩ := at_top named'
        exact absurd (single.trans single'.symm) different
      · exact Or.inl (back way₂ leads')
    · obtain ⟨rfl, same⟩ := List.append_inj' split rfl
      obtain rfl := List.singleton_inj.mp same
      rcases way'.snoc_cases with ⟨first', _, named'⟩ | ⟨front', last', onto', rfl, way₂, leads'⟩
      · obtain ⟨_, rfl⟩ := at_top named'
        exact Or.inl (back way₁ leads)
      · by_cases entry : (onto, position) = (onto', last')
        · obtain ⟨rfl, rfl⟩ := Prod.mk.inj entry
          refine ih front' ?_ way₁ way₂
          rintro rfl
          exact different rfl
        · exact Or.inr ⟨onto, position, onto', last', config, way₁.reaches_top, way₂.reaches_top,
            leads, leads', entry⟩

theorem meetsTwice_iff (disk : Disk) (top : Path) :
    MeetsTwice disk [top] ↔ Cyclic disk top ∨ Shared disk top := by
  constructor
  · rintro ⟨steps, steps', config, different, way, way'⟩
    exact cyclic_or_shared steps steps' different way way'
  · rintro (⟨config, reached, turns⟩ | ⟨config, position, config', position', base, shared⟩)
    · obtain ⟨steps, way⟩ := Way.of_reaches reached
      obtain ⟨steps', longer, way'⟩ := way.exists_longer turns
      refine ⟨steps, steps', config, ?_, way, way'⟩
      rintro rfl
      omega
    · obtain ⟨reached, reached', leads, leads', different⟩ := shared
      obtain ⟨steps, way⟩ := Way.of_reaches reached
      obtain ⟨steps', way'⟩ := Way.of_reaches reached'
      refine ⟨_, _, base, ?_, way.snoc leads, way'.snoc leads'⟩
      -- Ways that are the same came by the same entry of the same manifest.
      intro same
      obtain ⟨rfl, last⟩ := List.append_inj' same rfl
      obtain rfl := List.singleton_inj.mp last
      exact different (congrArg (·, position) (way.unique way'))

/-! ### Works that succeed -/

namespace Listing

variable {roots : List Path} {configs : List (Path × Manifest)}

/-- Each way leads to a manifest that is listed. -/
theorem mem_of_way (listing : Listing disk roots configs) {steps : List Nat} {config : Path}
    (way : Way disk roots steps config) : config ∈ configs.map (·.1) := by
  induction listing generalizing steps config with
  | nil =>
    rcases way with named | ⟨named, _, _⟩
    all_goals simp at named
  | cons read _ _ inBases inRest =>
    rw [List.map_append, List.map_cons, List.mem_append, List.mem_cons]
    rcases way.cons_cases read with ⟨_, rfl⟩ | ⟨rest, _, down⟩ | ⟨position, rest, _, later⟩
    · exact Or.inr (Or.inl rfl)
    · exact Or.inl (inBases down)
    · exact Or.inr (Or.inr (inRest later))

/-- Some way leads to each manifest that is listed. -/
theorem exists_way (listing : Listing disk roots configs) {config : Path}
    (member : config ∈ configs.map (·.1)) : ∃ steps, Way disk roots steps config := by
  induction listing generalizing config with
  | nil => cases member
  | cons read _ _ inBases inRest =>
    rw [List.map_append, List.map_cons, List.mem_append, List.mem_cons] at member
    rcases member with below | rfl | after
    · obtain ⟨steps, way⟩ := inBases below
      exact ⟨0 :: steps, .on rfl read way⟩
    · exact ⟨[0], .here rfl⟩
    · obtain ⟨steps, way⟩ := inRest after
      cases steps with
      | nil => exact absurd rfl way.ne_nil
      | cons position rest => exact ⟨_, way.shift⟩

/-- If no manifest is listed twice, different ways lead to different manifests. -/
theorem way_unique (listing : Listing disk roots configs) (once : (configs.map (·.1)).Nodup)
    {steps steps' : List Nat} {config : Path} (way : Way disk roots steps config)
    (way' : Way disk roots steps' config) : steps = steps' := by
  induction listing generalizing steps steps' config with
  | nil =>
    rcases way with named | ⟨named, _, _⟩
    all_goals simp at named
  | @cons root manifest others below after read bases rest inBases inRest =>
    rw [List.map_append, List.map_cons, List.nodup_append] at once
    obtain ⟨onceBelow, onceHere, apart⟩ := once
    obtain ⟨notAfter, onceAfter⟩ := List.nodup_cons.mp onceHere
    -- Below the root, at the root and after it different manifests are listed.
    have below_ne {steps : List Nat} (down : Way disk (manifest.basesAt disk root) steps config) :
        config ≠ root ∧ config ∉ after.map (·.1) :=
      ⟨apart config (bases.mem_of_way down) root List.mem_cons_self, fun later =>
        apart config (bases.mem_of_way down) config (List.mem_cons_of_mem _ later) rfl⟩
    rcases way.cons_cases read with ⟨rfl, rfl⟩ | ⟨down, rfl, inside⟩ | ⟨position, on, rfl, later⟩
    · rcases way'.cons_cases read with ⟨rfl, _⟩ | ⟨_, _, inside'⟩ | ⟨_, _, _, later'⟩
      · rfl
      · exact absurd rfl (below_ne inside').1
      · exact absurd (rest.mem_of_way later') notAfter
    · rcases way'.cons_cases read with ⟨_, same⟩ | ⟨down', rfl, inside'⟩ | ⟨_, _, _, later'⟩
      · exact absurd same (below_ne inside).1
      · rw [inBases onceBelow inside inside']
      · exact absurd (rest.mem_of_way later') (below_ne inside).2
    · rcases way'.cons_cases read with ⟨_, rfl⟩ | ⟨_, _, inside'⟩ | ⟨position', on', rfl, later'⟩
      · exact absurd (rest.mem_of_way later) notAfter
      · exact absurd (rest.mem_of_way later) (below_ne inside').2
      · have same := inRest onceAfter later later'
        rw [List.cons.injEq] at same
        rw [same.1, same.2]

theorem readable {top : Path} (listing : Listing disk [top] configs) {config : Path}
    (further : ReflTransGen (BuildsOn disk) top config) :
    ∃ manifest, Manifest.read disk config = .ok manifest := by
  obtain ⟨steps, way⟩ := Way.of_reaches further
  obtain ⟨entry, listed, rfl⟩ := List.mem_map.mp (listing.mem_of_way way)
  exact ⟨entry.2, listing.read_of_mem listed⟩

theorem acc (listing : Listing disk roots configs) {root : Path} (member : root ∈ roots) :
    Acc (fun base config => BuildsOn disk config base) root := by
  induction listing generalizing root with
  | nil => cases member
  | cons read _ _ inBases inRest =>
    rcases List.mem_cons.mp member with rfl | later
    · refine Acc.intro _ ?_
      rintro base ⟨position, leads⟩
      exact inBases (List.mem_of_getElem? ((hasBase_iff read).mp leads))
    · exact inRest later

/-- Manifests that can be listed to the end do not turn in a circle. -/
theorem not_cyclic {top : Path} (listing : Listing disk [top] configs) :
    ¬ Cyclic disk top := by
  have acc := listing.acc List.mem_cons_self
  clear listing
  induction acc with
  | intro top _ ih =>
    rintro ⟨config, reached, turns⟩
    -- The circle lies below a base of the top as well, also if the top itself is on it.
    have below : ∃ base, BuildsOn disk top base ∧ ReflTransGen (BuildsOn disk) base config := by
      rcases reached.cases_head with rfl | ⟨base, leads, further⟩
      · exact TransGen.head'_iff.mp turns
      · exact ⟨base, leads, further⟩
    obtain ⟨base, leads, further⟩ := below
    exact ih base leads ⟨config, further, turns⟩

end Listing

/-! ### Works that fail -/

/-- A work over some manifests fails because a way from them leads to a manifest that had been seen,
or to one to which another way leads as well. -/
def FailsAt (disk : Disk) (roots seen : List Path) (failure : Failure) : Prop :=
  ∃ steps config, failure = circular config ∧ Way disk roots steps config ∧
    (config ∈ seen ∨ ∃ steps', steps ≠ steps' ∧ Way disk roots steps' config)

/-- Manifests that have been seen, different ones that the disk can hold, and enough fuel for all
that can still come. -/
structure Enough (fuel : Nat) (seen : List Path) : Prop where
  once : seen.Nodup
  short : ∀ config ∈ seen, config.IsShort
  fuel : Disk.pathCount ≤ fuel + seen.length

theorem Enough.fuel_pos {fuel : Nat} {seen : List Path} (enough : Enough fuel seen) : 0 < fuel := by
  have fewer := Path.length_lt_pathCount seen enough.once enough.short
  have bound := enough.fuel
  omega

/-- What a work has seen beyond what had been seen leaves enough fuel for the next. -/
theorem Layered.enough {fuel : Nat} {roots : List Path} {start result : Layer × List Path}
    (layered : Layered disk roots start result) (enough : Enough fuel start.2) :
    Enough fuel result.2 := by
  obtain ⟨configs, listed, _, met, nodup⟩ := layered
  refine ⟨nodup enough.once, ?_, ?_⟩
  · intro config member
    rcases List.mem_append.mp (met.mem_iff.mp member) with new | old
    · obtain ⟨entry, listed', rfl⟩ := List.mem_map.mp new
      exact isShort_of_read (listed.read_of_mem listed')
    · exact enough.short config old
  · have length := met.length_eq
    have bound := enough.fuel
    rw [List.length_append] at length
    omega

/-- All manifests to which ways lead can be read. -/
def Readable (disk : Disk) (roots : List Path) : Prop :=
  ∀ steps config, Way disk roots steps config → ∃ manifest, Manifest.read disk config = .ok manifest

theorem failsAt_of_foldlM {fuel : Nat}
    (each : ∀ seen path failure, Readable disk [path.clean] → Enough fuel seen →
      layerFrom disk fuel seen path = .error failure → FailsAt disk [path.clean] seen failure)
    (bases : List Path) {start : Layer × List Path} {failure : Failure}
    (readable : Readable disk (bases.map Path.clean)) (enough : Enough fuel start.2)
    (folded : bases.foldlM (layerBase disk fuel) start = .error failure) :
    FailsAt disk (bases.map Path.clean) start.2 failure := by
  induction bases generalizing start with
  | nil => cases folded
  | cons base bases ih =>
    have first {steps : List Nat} {config : Path} (way : Way disk [base.clean] steps config) :
        Way disk ((base :: bases).map Path.clean) steps config :=
      way.append_right
    rw [List.foldlM_cons, bind_eq_error] at folded
    rcases folded with failed | ⟨next, stepped, failed⟩
    · rcases bind_eq_error.mp failed with deeper | ⟨_, _, combined⟩
      · obtain ⟨steps, config, same, way, met⟩ :=
          each _ _ _ (fun _ _ way => readable _ _ (first way)) enough deeper
        refine ⟨steps, config, same, first way, met.imp_right ?_⟩
        rintro ⟨steps', different, way'⟩
        exact ⟨steps', different, first way'⟩
      · cases combined
    · have layered := Layered.of_layerBase (fun _ _ _ => layered_of_layerFrom fuel) stepped
      have later {steps : List Nat} {config : Path}
          (way : Way disk (bases.map Path.clean) steps config) :
          ∃ position rest, steps = position :: rest ∧
            Way disk ((base :: bases).map Path.clean) ((position + 1) :: rest) config := by
        cases steps with
        | nil => exact absurd rfl way.ne_nil
        | cons position rest => exact ⟨position, rest, rfl, way.shift⟩
      have readable' : Readable disk (bases.map Path.clean) := by
        intro steps config way
        obtain ⟨_, _, _, way'⟩ := later way
        exact readable _ _ way'
      obtain ⟨steps, config, same, way, met⟩ := ih readable' (layered.enough enough) failed
      obtain ⟨position, rest, rfl, way₁⟩ := later way
      refine ⟨_, config, same, way₁, ?_⟩
      rcases met with seen | ⟨steps', different, way'⟩
      · obtain ⟨configs, listed, _, perm, _⟩ := layered
        rcases List.mem_append.mp (perm.mem_iff.mp seen) with new | old
        -- The manifest was seen below the first base, to which another way leads.
        · obtain ⟨steps', way'⟩ := listed.exists_way new
          refine Or.inr ⟨steps', ?_, first way'⟩
          rintro rfl
          rcases way' with named | ⟨named, _, _⟩
          all_goals simp at named
        · exact Or.inl old
      · obtain ⟨position', rest', rfl, way₂⟩ := later way'
        refine Or.inr ⟨_, ?_, way₂⟩
        intro equal
        rw [List.cons.injEq, Nat.add_right_cancel_iff] at equal
        exact different (List.cons_eq_cons.mpr equal)

theorem failsAt_of_layerFrom (fuel : Nat) {seen : List Path} {path : Path} {failure : Failure}
    (readable : Readable disk [path.clean]) (enough : Enough fuel seen)
    (failed : layerFrom disk fuel seen path = .error failure) :
    FailsAt disk [path.clean] seen failure := by
  induction fuel generalizing seen path failure with
  | zero => exact absurd enough.fuel_pos (by omega)
  | succ fuel ih =>
    have here : Way disk [path.clean] [0] path.clean := .here rfl
    rw [layerFrom_succ] at failed
    split at failed
    next again =>
      cases failed
      exact ⟨[0], path.clean, rfl, here, Or.inl again⟩
    next fresh =>
      obtain ⟨manifest, read⟩ := readable _ _ here
      rw [read] at failed
      rcases bind_eq_error.mp failed with unread | ⟨_, same, folded⟩
      · cases unread
      cases same
      rcases bind_eq_error.mp folded with failed | ⟨_, _, combined⟩
      swap
      · cases combined
      have enough' : Enough fuel (path.clean :: seen) := by
        refine ⟨List.nodup_cons.mpr ⟨fresh, enough.once⟩, ?_, ?_⟩
        · exact List.forall_mem_cons.mpr ⟨isShort_of_read read, enough.short⟩
        · have bound := enough.fuel
          rw [List.length_cons]
          omega
      have readable' : Readable disk (manifest.basesAt disk path.clean) :=
        fun steps config way => readable (0 :: steps) config (.on rfl read way)
      obtain ⟨steps, config, same, way, met⟩ :=
        failsAt_of_foldlM (fun _ _ _ => ih) _ readable' enough' failed
      refine ⟨0 :: steps, config, same, .on rfl read way, ?_⟩
      rcases met with seen | ⟨steps', different, way'⟩
      · rcases List.mem_cons.mp seen with rfl | old
        -- The way has come back to where it started.
        · refine Or.inr ⟨[0], ?_, here⟩
          intro same
          exact way.ne_nil (List.cons.inj same).2
        · exact Or.inl old
      · refine Or.inr ⟨0 :: steps', ?_, .on rfl read way'⟩
        exact fun same => different (List.cons.inj same).2

/-! ### Loading a file set -/

theorem load_cases (disk : Disk) (path : Path) (readable : Readable disk [path.clean]) :
    (∃ config, FileSet.load disk path = .error (circular config) ∧ MeetsTwice disk [path.clean]) ∨
      ∃ set, FileSet.load disk path = .ok set ∧ ¬ MeetsTwice disk [path.clean] := by
  cases loaded : layerFrom disk Disk.pathCount [] path with
  | error failure =>
    have enough : Enough Disk.pathCount [] := ⟨.nil, by simp, Nat.le_add_right _ _⟩
    obtain ⟨steps, config, rfl, way, met⟩ :=
      failsAt_of_layerFrom Disk.pathCount readable enough loaded
    refine Or.inl ⟨config, by rw [FileSet.load, loaded]; rfl, ?_⟩
    rcases met with seen | ⟨steps', different, way'⟩
    · cases seen
    · exact ⟨steps, steps', config, different, way, way'⟩
  | ok result =>
    obtain ⟨configs, listed, _, met, nodup⟩ := layered_of_layerFrom _ loaded
    refine Or.inr ⟨_, by rw [FileSet.load, loaded]; rfl, ?_⟩
    -- The load listed each manifest once, so one way leads to it.
    rintro ⟨steps, steps', config, different, way, way'⟩
    have once : (configs.map (·.1)).Nodup := by
      have all := met.nodup_iff.mp (nodup .nil)
      rwa [List.append_nil] at all
    exact different (listed.way_unique once way way')

/-- With manifests that can all be read, loading gives a file set or says that they are circular. It
says so of every circle, and of nothing else unless two entries lead to the same manifest; then it
says so in any case. -/
theorem load_circular_iff (disk : Disk) (path : Path)
    (readable : ∀ config, ReflTransGen (BuildsOn disk) path.clean config →
      ∃ manifest, Manifest.read disk config = .ok manifest) :
    (∀ failure, FileSet.load disk path = .error failure → ∃ config, failure = circular config) ∧
      (Shared disk path.clean → ∃ config, FileSet.load disk path = .error (circular config)) ∧
      (¬ Shared disk path.clean →
        ((∃ config, FileSet.load disk path = .error (circular config)) ↔
          Cyclic disk path.clean)) := by
  have onWays : Readable disk [path.clean] := fun _ config way => readable config way.reaches_top
  -- Loading fails exactly when two ways meet. Where no base is shared, one of the two goes round.
  rcases load_cases disk path onWays with ⟨config, failed, twice⟩ | ⟨set, loaded, once⟩
  · refine ⟨?_, fun _ => ⟨config, failed⟩, ?_⟩
    · intro failure failed'
      exact ⟨config, Except.error.inj (failed'.symm.trans failed)⟩
    · intro apart
      have turns := ((meetsTwice_iff disk path.clean).mp twice).resolve_right apart
      exact ⟨fun _ => turns, fun _ => ⟨config, failed⟩⟩
  · have never {failure : Failure} : FileSet.load disk path ≠ .error failure := by
      rw [loaded]
      nofun
    rw [meetsTwice_iff, not_or] at once
    refine ⟨fun failure failed => absurd failed never, fun shared => absurd shared once.2, ?_⟩
    exact fun _ => ⟨fun ⟨_, failed⟩ => absurd failed never, fun turns => absurd turns once.1⟩

/-- Two manifests that build on each other. -/
def turningDisk : Disk where
  root := .dir [("p", .dir [
    ("a.json", .file "\x7b\"extends\":\"./b\"\x7d".toUTF8),
    ("b.json", .file "\x7b\"extends\":\"./a\"\x7d".toUTF8)])]
  current := "/"

/-- A manifest with one entry and nothing else. -/
def extending (entry : String) : Manifest :=
  { Manifest.empty with bases := some (.one entry) }

theorem turningDisk_read :
    Manifest.read turningDisk "/p/a.json" = .ok (extending "./b") ∧
      Manifest.read turningDisk "/p/b.json" = .ok (extending "./a") := by
  decide +kernel

theorem turningDisk_basesAt :
    (extending "./b").basesAt turningDisk "/p/a.json" = ["/p/b.json"] ∧
      (extending "./a").basesAt turningDisk "/p/b.json" = ["/p/a.json"] := by
  decide +kernel

theorem turningDisk_hasBase {config base : Path} {position : Nat}
    (known : config = "/p/a.json" ∨ config = "/p/b.json")
    (leads : HasBase turningDisk config position base) :
    position = 0 ∧ (config = "/p/a.json" ∧ base = "/p/b.json" ∨
      config = "/p/b.json" ∧ base = "/p/a.json") := by
  have only {path : Path} (named : [path][position]? = some base) : position = 0 ∧ base = path := by
    have inside := (List.getElem?_eq_some_iff.mp named).1
    obtain rfl : position = 0 := by simpa using inside
    exact ⟨rfl, (Option.some.inj named).symm⟩
  rcases known with rfl | rfl
  · rw [hasBase_iff turningDisk_read.1, turningDisk_basesAt.1] at leads
    exact ⟨(only leads).1, Or.inl ⟨rfl, (only leads).2⟩⟩
  · rw [hasBase_iff turningDisk_read.2, turningDisk_basesAt.2] at leads
    exact ⟨(only leads).1, Or.inr ⟨rfl, (only leads).2⟩⟩

theorem turningDisk_reaches {config : Path}
    (further : ReflTransGen (BuildsOn turningDisk) "/p/a.json" config) :
    config = "/p/a.json" ∨ config = "/p/b.json" := by
  induction further with
  | refl => exact Or.inl rfl
  | tail _ leads known =>
    obtain ⟨position, leads⟩ := leads
    rcases (turningDisk_hasBase known leads).2 with ⟨_, rfl⟩ | ⟨_, rfl⟩
    · exact Or.inr rfl
    · exact Or.inl rfl

theorem load_circular_iff_turning :
    (∀ config, ReflTransGen (BuildsOn turningDisk) (Path.clean "/p/a.json") config →
        ∃ manifest, Manifest.read turningDisk config = .ok manifest) ∧
      ¬ Shared turningDisk (Path.clean "/p/a.json") ∧
      Cyclic turningDisk (Path.clean "/p/a.json") ∧
      ∃ config, FileSet.load turningDisk "/p/a.json" = .error (circular config) := by
  have clean : Path.clean "/p/a.json" = "/p/a.json" := by decide +kernel
  have readable : ∀ config, ReflTransGen (BuildsOn turningDisk) (Path.clean "/p/a.json") config →
      ∃ manifest, Manifest.read turningDisk config = .ok manifest := by
    intro config further
    rw [clean] at further
    rcases turningDisk_reaches further with rfl | rfl
    · exact ⟨_, turningDisk_read.1⟩
    · exact ⟨_, turningDisk_read.2⟩
  have apart : ¬ Shared turningDisk (Path.clean "/p/a.json") := by
    rintro ⟨config, position, config', position', base, reached, reached', leads, leads', different⟩
    rw [clean] at reached reached'
    obtain ⟨rfl, ends⟩ := turningDisk_hasBase (turningDisk_reaches reached) leads
    obtain ⟨rfl, ends'⟩ := turningDisk_hasBase (turningDisk_reaches reached') leads'
    rcases ends with ⟨rfl, rfl⟩ | ⟨rfl, rfl⟩ <;> rcases ends' with ⟨rfl, same⟩ | ⟨rfl, same⟩
    · exact different rfl
    · exact absurd same (by decide)
    · exact absurd same (by decide)
    · exact different rfl
  have turns : Cyclic turningDisk (Path.clean "/p/a.json") := by
    rw [clean]
    have forth : BuildsOn turningDisk "/p/a.json" "/p/b.json" :=
      ⟨0, (hasBase_iff turningDisk_read.1).mpr (by rw [turningDisk_basesAt.1]; rfl)⟩
    have back : BuildsOn turningDisk "/p/b.json" "/p/a.json" :=
      ⟨0, (hasBase_iff turningDisk_read.2).mpr (by rw [turningDisk_basesAt.2]; rfl)⟩
    exact ⟨"/p/a.json", .refl, .tail (.single forth) back⟩
  exact ⟨readable, apart, turns,
    ((load_circular_iff turningDisk "/p/a.json" readable).2.2 apart).mpr turns⟩

/-- Two bases that build on the same manifest. -/
def diamondDisk : Disk where
  root := .dir [("p", .dir [
    ("t.json", .file "\x7b\"extends\":[\"./a\",\"./b\"]\x7d".toUTF8),
    ("a.json", .file "\x7b\"extends\":\"./c\"\x7d".toUTF8),
    ("b.json", .file "\x7b\"extends\":\"./c\"\x7d".toUTF8),
    ("c.json", .file "\x7b\x7d".toUTF8)])]
  current := "/"

theorem diamondDisk_listing :
    ∃ configs, Listing diamondDisk [Path.clean "/p/t.json"] configs := by
  have step {config : Path} (manifest : Manifest) {bases others : List Path}
      (read : Manifest.read diamondDisk config = .ok manifest ∧
        manifest.basesAt diamondDisk config = bases)
      (below : ∃ configs, Listing diamondDisk bases configs)
      (rest : ∃ configs, Listing diamondDisk others configs) :
      ∃ configs, Listing diamondDisk (config :: others) configs := by
    obtain ⟨read, rfl⟩ := read
    obtain ⟨⟨_, below⟩, ⟨_, rest⟩⟩ := And.intro below rest
    exact ⟨_, .cons read below rest⟩
  have none_left : ∃ configs, Listing diamondDisk [] configs := ⟨[], .nil⟩
  have bottom : ∃ configs, Listing diamondDisk ["/p/c.json"] configs :=
    step Manifest.empty (by decide +kernel) none_left none_left
  have right : ∃ configs, Listing diamondDisk ["/p/b.json"] configs :=
    step (extending "./c") (by decide +kernel) bottom none_left
  have both : ∃ configs, Listing diamondDisk ["/p/a.json", "/p/b.json"] configs :=
    step (extending "./c") (by decide +kernel) bottom right
  exact step { Manifest.empty with bases := some (.many ["./a", "./b"]) } (by decide +kernel) both
    none_left

theorem load_circular_diamond :
    (∀ config, ReflTransGen (BuildsOn diamondDisk) (Path.clean "/p/t.json") config →
        ∃ manifest, Manifest.read diamondDisk config = .ok manifest) ∧
      FileSet.load diamondDisk "/p/t.json" = .error (circular "/p/c.json") ∧
      ¬ Cyclic diamondDisk (Path.clean "/p/t.json") := by
  obtain ⟨configs, listing⟩ := diamondDisk_listing
  exact ⟨fun _ further => listing.readable further, by decide +kernel, listing.not_cyclic⟩

end UnusedMethods.Config
