import UnusedMethods.Proofs.PlainPath

/-!
# The last step of a path

What a file is called, and so its extension, is decided by the last step of its path, whichever way
the path is written. The rest of a path below a base consists of the components that follow those of
the base, and however many slashes and dots its text keeps between them, it ends in the text of the
last one.
-/

namespace UnusedMethods.Path

/-! ### Components and steps -/

theorem stepOf_text {segment : String} {c : Component} (step : stepOf segment = some c) :
    c.text = segment := by
  unfold stepOf at step
  split at step
  · cases step
  · split at step
    next up =>
      cases step
      exact (beq_iff_eq.mp up).symm
    · cases step
      rfl

theorem stepOf_eq_none {segment : String} : stepOf segment = none ↔ isStep segment = false := by
  unfold stepOf
  split
  · simp_all
  · split <;> simp_all

/-- Before its steps a path has the root, a leading dot, or nothing. -/
theorem components_eq_front (p : Path) :
    components p = .root :: steps p ∨ components p = .current :: steps p ∨
      components p = steps p := by
  unfold components
  simp only
  split
  · exact .inl rfl
  · split
    · exact .inr (.inl rfl)
    · exact .inr (.inr rfl)

theorem mem_steps_of_tail {p : Path} {c : Component} (later : c ∈ (components p).tail) :
    c ∈ steps p := by
  rcases components_eq_front p with front | front | front
  · rwa [front] at later
  · rwa [front] at later
  · rw [front] at later
    exact List.mem_of_mem_tail later

theorem filter_components (p : Path) :
    (components p).filter (fun c => c != .root && c != .current) = steps p := by
  have kept : (steps p).filter (fun c => c != .root && c != .current) = steps p := by
    rw [List.filter_eq_self]
    intro c member
    rcases mem_steps p c member with rfl | ⟨_, _, rfl⟩ <;> rfl
  rcases components_eq_front p with front | front | front
  · rw [front, List.filter_cons_of_neg (by simp), kept]
  · rw [front, List.filter_cons_of_neg (by simp), kept]
  · rw [front, kept]

/-- What comes after a base that is written comes after its steps. -/
theorem steps_of_components {p base : Path} {rest : List Component}
    (below : components p = components base ++ rest) (written : components base ≠ []) :
    steps p = steps base ++ rest := by
  -- Behind the first component there are steps only.
  have kept : rest.filter (fun c => c != .root && c != .current) = rest := by
    rw [List.filter_eq_self]
    intro c member
    have later : c ∈ (components p).tail := by
      rw [below, List.tail_append_of_ne_nil written]
      exact List.mem_append_right _ member
    rcases mem_steps p c (mem_steps_of_tail later) with rfl | ⟨_, _, rfl⟩ <;> rfl
  rw [← filter_components p, below, List.filter_append, filter_components, kept]

/-! ### File names -/

theorem fileName_eq (p : Path) :
    fileName? p = match (steps p).getLast? with
      | some (.name text) => some text
      | _ => none := by
  unfold fileName?
  rcases components_eq_front p with front | front | front
  · rw [front, List.getLast?_cons]
    cases (steps p).getLast? <;> rfl
  · rw [front, List.getLast?_cons]
    cases (steps p).getLast? <;> rfl
  · exact front ▸ rfl

/-- A path is written anew from its components without a change of its steps. -/
theorem steps_foldl_join (cs : List Component)
    (all : ∀ c ∈ cs, c = .up ∨ ∃ name, IsName name ∧ c = .name name) (p : Path) :
    steps (cs.foldl (fun p c => join p c.text) p) = steps p ++ cs := by
  induction cs generalizing p with
  | nil => simp
  | cons c cs ih =>
    have step : isAbsolute c.text = false ∧ steps c.text = [c] := by
      rcases all c List.mem_cons_self with rfl | ⟨name, proper, rfl⟩
      · exact ⟨by decide +kernel, by decide +kernel⟩
      · exact ⟨isAbsolute_of_single proper.single, proper.steps_eq⟩
    rw [List.foldl_cons, ih fun c member => all c (List.mem_cons_of_mem _ member),
      steps_join p c.text step.1, step.2, List.append_assoc]
    rfl

theorem steps_key (p : Path) : steps (key p) = steps p := by
  have rootSteps : steps (join "" Component.root.text) = [] := by decide +kernel
  have currentSteps : steps (join "" Component.current.text) = [] := by decide +kernel
  rw [key, ofComponents]
  rcases components_eq_front p with front | front | front
  · rw [front, List.foldl_cons, steps_foldl_join _ (mem_steps p), rootSteps, List.nil_append]
  · rw [front, List.foldl_cons, steps_foldl_join _ (mem_steps p), currentSteps, List.nil_append]
  · rw [front, steps_foldl_join _ (mem_steps p)]
    rfl

/-- Whether a file is a source is the same under every spelling of its path. -/
theorem isSource_of_key {p q : Path} (same : key p = key q) (plain : Bool) :
    isSource p plain = isSource q plain := by
  have steps_ : steps p = steps q := by rw [← steps_key p, same, steps_key]
  simp only [isSource, extension?, fileName_eq, steps_]

/-! ### Texts that end in a step -/

/-- A text is another one, or ends in it after a slash. -/
def EndsAs (text last : String) : Prop :=
  ∃ front, text = front ++ last ∧ (front = "" ∨ ∃ start, front = start ++ "/")

theorem endsAs_self (text : String) : EndsAs text text :=
  ⟨"", by simp, .inl rfl⟩

theorem endsAs_intercalate (before : List String) (last : String) :
    EndsAs (String.intercalate "/" (before ++ [last])) last := by
  by_cases alone : before = []
  · rw [alone, List.nil_append, String.intercalate_singleton]
    exact endsAs_self last
  · rw [String.intercalate_append_of_ne_nil alone (List.cons_ne_nil last []),
      String.intercalate_singleton]
    exact ⟨_, rfl, .inr ⟨_, rfl⟩⟩

theorem endsAs_join (p q : Path) : EndsAs (join p q) q := by
  unfold join
  split
  · exact endsAs_self q
  · split
    · exact endsAs_self q
    · split
      next ended => exact ⟨p, rfl, .inr ((endsWith_slash_iff p).mp ended)⟩
      · exact ⟨p ++ "/", rfl, .inr ⟨p, rfl⟩⟩

theorem endsAs_ofComponents {cs : List Component} {last : Component}
    (ends : cs.getLast? = some last) : EndsAs (ofComponents cs) last.text := by
  obtain ⟨before, rfl⟩ := List.getLast?_eq_some_iff.mp ends
  rw [ofComponents, List.foldl_append]
  exact endsAs_join _ last.text

/-! ### The rest below a base -/

theorem filterMap_dropSteps (n : Nat) (segs : List String) :
    (dropSteps n segs).filterMap stepOf = (segs.filterMap stepOf).drop n := by
  fun_induction dropSteps n segs with
  | case1 segs => simp
  | case2 n => simp
  | case3 n s segs step ih =>
    cases found : stepOf s with
    | none =>
      rw [stepOf_eq_none.mp found] at step
      cases step
    | some c => rw [ih, List.filterMap_cons_some found, List.drop_succ_cons]
  | case4 n s segs step ih =>
    rw [ih, List.filterMap_cons_none (stepOf_eq_none.mpr (by simpa using step))]

theorem filterMap_dropWhile (segs : List String) :
    (segs.dropWhile fun s => !isStep s).filterMap stepOf = segs.filterMap stepOf := by
  induction segs with
  | nil => rfl
  | cons s segs ih =>
    by_cases step : isStep s = true
    · rw [List.dropWhile_cons_of_neg (by simpa using step)]
    · have none : stepOf s = none := stepOf_eq_none.mpr (by simpa using step)
      rw [List.dropWhile_cons_of_pos (by simpa using step), ih, List.filterMap_cons_none none]

/-- Without what names no step at its end, a list of segments ends in its last step. -/
theorem last_of_trimmed (segs : List String) :
    (segs.reverse.dropWhile fun s => !isStep s).reverse = [] ∧ segs.filterMap stepOf = [] ∨
      ∃ before last c, (segs.reverse.dropWhile fun s => !isStep s).reverse = before ++ [last] ∧
        (segs.filterMap stepOf).getLast? = some c ∧ c.text = last := by
  induction segs using List.reverseRecOn with
  | nil => exact .inl ⟨rfl, rfl⟩
  | append_singleton segs s ih =>
    rw [List.reverse_append, List.reverse_singleton, List.singleton_append]
    cases found : stepOf s with
    | none =>
      have step := stepOf_eq_none.mp found
      rw [List.dropWhile_cons_of_pos (by simpa using step), List.filterMap_append]
      simpa [found] using ih
    | some c =>
      have step : isStep s = true := by
        by_contra none
        rw [stepOf_eq_none.mpr (by simpa using none)] at found
        cases found
      refine .inr ⟨segs, s, c, ?_, ?_, stepOf_text found⟩
      · rw [List.dropWhile_cons_of_neg (by simpa using step)]
        simp
      · simp [found]

/-- A text stands for components: it ends in the last of them, and is empty if there are none. -/
def StandsFor (text : String) (cs : List Component) : Prop :=
  cs = [] ∧ text = "" ∨ ∃ last, cs.getLast? = some last ∧ EndsAs text last.text

theorem standsFor_ofComponents (cs : List Component) : StandsFor (ofComponents cs) cs := by
  cases last : cs.getLast? with
  | none =>
    obtain rfl := List.getLast?_eq_none_iff.mp last
    exact .inl ⟨rfl, rfl⟩
  | some c => exact .inr ⟨c, last, endsAs_ofComponents last⟩

theorem exists_segments (p : Path) : ∃ first more, segments p = first :: more := by
  apply List.exists_cons_of_ne_nil
  simp [segments, splitText, pieces_ne_nil]

/-- The first segment of a path that is written is empty if the path is absolute. -/
theorem isAbsolute_of_segments {p : Path} {first : String} {more : List String}
    (segs : segments p = first :: more) (written : p ≠ "") : isAbsolute p = (first == "") := by
  by_cases absolute : isAbsolute p = true
  · obtain ⟨rest, rfl⟩ := (isAbsolute_iff p).mp absolute
    have cut : segments ("/" ++ rest) = "" :: segments rest := by
      have whole := segments_append "" rest
      rwa [String.empty_append, segments_empty] at whole
    rw [cut] at segs
    cases segs
    exact absolute
  · -- A character other than a slash comes first, and it belongs to the first segment.
    cases letters : p.toList with
    | nil => exact absurd (String.toList_eq_nil_iff.mp letters) written
    | cons c cs =>
      have other : c ≠ '/' := by
        rintro rfl
        apply absolute
        refine (isAbsolute_iff p).mpr ⟨String.ofList cs, String.toList_inj.mp ?_⟩
        simp [letters]
      have filled : first ≠ "" := by
        rintro rfl
        rw [segments, splitText, letters, pieces] at segs
        cases rest : pieces '/' cs <;> simp [other, rest] at segs
      simp [absolute, filled]

/-- A path whose first segment alone names anything has one component: the root, a dot, or a
step. -/
theorem exists_component {p : Path} {first : String} {more : List String}
    (segs : segments p = first :: more) (nothing : more.filterMap stepOf = []) (written : p ≠ "") :
    ∃ c, components p = [c] ∧ c.text = ofSegments [first] := by
  have absolute := isAbsolute_of_segments segs written
  by_cases root : first = ""
  · subst root
    exact ⟨.root, by simp [components, absolute, segs, nothing, stepOf, isStep], rfl⟩
  · have whole : ofSegments [first] = first := by simp [ofSegments, root]
    rw [whole]
    by_cases dot : first = "."
    · subst dot
      exact ⟨.current, by simp [components, absolute, segs, nothing, stepOf, isStep], rfl⟩
    · obtain ⟨c, step⟩ : ∃ c, stepOf first = some c := by
        rw [← Option.ne_none_iff_exists', Ne, stepOf_eq_none]
        simp [isStep, root, dot]
      exact ⟨c, by simp [components, absolute, segs, nothing, step, root, dot], stepOf_text step⟩

/-- All of a path stands for all of its components. -/
theorem standsFor_whole {p : Path} (written : p ≠ "") :
    StandsFor (ofSegments (trimEnd (segments p))) (components p) := by
  obtain ⟨first, more, segs⟩ := exists_segments p
  rw [segs, trimEnd]
  rcases last_of_trimmed more with ⟨none, nothing⟩ | ⟨before, last, c, kept, ends, text⟩
  · obtain ⟨c, alone, text⟩ := exists_component segs nothing written
    rw [none, ← text, alone]
    exact .inr ⟨c, rfl, endsAs_self c.text⟩
  · rw [kept, ← List.cons_append]
    have joined : ofSegments (first :: before ++ [last]) =
        String.intercalate "/" (first :: before ++ [last]) := by
      simp [ofSegments]
    have lastStep : (steps p).getLast? = some c := by
      rw [steps, segs, List.filterMap_cons]
      cases stepOf first <;> simp [List.getLast?_cons, ends]
    refine .inr ⟨c, ?_, ?_⟩
    · rcases components_eq_front p with front | front | front <;>
        simp [front, List.getLast?_cons, lastStep]
    · rw [joined, text]
      exact endsAs_intercalate (first :: before) last

/-- The rest of a path below a base is there if the components of the base come first, and stands
for those that follow. -/
theorem relativeTo_of_components {p base : Path} {rest : List Component}
    (below : components p = components base ++ rest) :
    ∃ text, relativeTo? p base = some text ∧ StandsFor text rest := by
  have starts : startsWith p base = true :=
    List.isPrefixOf_iff_prefix.mpr ⟨rest, below.symm⟩
  unfold relativeTo?
  simp only [starts, Bool.not_true, Bool.false_eq_true, if_false]
  split
  next none =>
    rw [none, List.nil_append] at below
    refine ⟨_, rfl, ?_⟩
    split
    next empty =>
      rw [beq_iff_eq.mp empty] at below
      exact .inl ⟨below.symm, rfl⟩
    next written => exact below ▸ standsFor_whole (by simpa using written)
  next comps written =>
    have steps_ := steps_of_components below written
    refine ⟨_, rfl, ?_⟩
    rw [filter_components]
    -- Of the segments those are left that make the steps of the rest.
    have left : ((dropSteps (steps base).length (segments p)).dropWhile
        fun s => !isStep s).filterMap stepOf = rest := by
      rw [filterMap_dropWhile, filterMap_dropSteps, ← steps, steps_, List.drop_left]
    have trimmed := last_of_trimmed
      ((dropSteps (steps base).length (segments p)).dropWhile fun s => !isStep s)
    rw [left] at trimmed
    rcases trimmed with ⟨none, nothing⟩ | ⟨before, last, c, kept, ends, text⟩
    · rw [none]
      exact .inl ⟨nothing, rfl⟩
    · rw [kept]
      exact .inr ⟨c, ends, text ▸ endsAs_intercalate before last⟩

theorem components_of_relativeTo {p base text : Path} (found : relativeTo? p base = some text) :
    ∃ rest, components p = components base ++ rest := by
  unfold relativeTo? at found
  split at found
  · cases found
  next starts =>
    obtain ⟨rest, whole⟩ : components base <+: components p := by simpa [startsWith] using starts
    exact ⟨rest, whole.symm⟩

end UnusedMethods.Path
