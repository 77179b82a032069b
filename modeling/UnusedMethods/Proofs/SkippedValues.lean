import UnusedMethods.Proofs.TokensAhead

/-!
# Values that are skipped

A value that no one asks for is skipped with all that is in it. The reader keeps the brackets that
are open and goes on from one value to the next in one loop, so it is taken apart into what it does
before a value and what it does after one, for any way to go on from there.
-/

namespace UnusedMethods.Json

/-! ### Keys -/

theorem settled_colon {depth : Nat} (tokens : List Token) :
    Settled colon depth (Spelled tokens) (Fewer tokens.length) := by
  refine .peekToken (fun _ => (refuses_failNext _).settled) ?_
  rintro token tokens rfl
  split
  next known =>
    obtain rfl := Token.eq_mark .colon (Option.some.inj known)
    exact (reads_skip_mark _ tokens).settled (fewer_cons _ _ _)
  · exact (refuses_failNext _).settled
  · exact (refuses_failNext _).settled

theorem settled_skipKey {depth : Nat} (tokens : List Token) :
    Settled skipOpen.skipKey depth (Spelled tokens) (Fewer tokens.length) := by
  refine .peekToken (fun _ => (refuses_failNext _).bind.settled) ?_
  rintro token tokens rfl
  split
  next quote =>
    obtain ⟨pieces, rfl⟩ := Token.eq_literal (Option.some.inj quote)
    refine .literal (fun _ => settled_skipString pieces) fun _ => ?_
    exact (settled_colon tokens).fewer_of_le (Nat.le_succ _)
  · exact (refuses_failNext _).bind.settled
  · exact (refuses_failNext _).bind.settled

/-! ### One step of the loop -/

theorem eq_closing {token : Token} {frame : UInt8} (same : token.byte = closing frame) :
    ∃ m, token = .mark m := by
  rw [closing] at same
  split at same
  · exact ⟨_, Token.eq_mark .closeList same⟩
  · exact ⟨_, Token.eq_mark .closeObject same⟩

/-- Skip what follows in an open list or object, with its key. -/
def skipMember (go : Bool → List UInt8 → Reader Unit) (frame : UInt8) (frames : List UInt8) :
    Reader Unit := do
  if frame == 123 then skipOpen.skipKey
  go false frames

/-- Skip an opening bracket and what follows. -/
def skipOpening (go : Bool → List UInt8 → Reader Unit) (frame : UInt8) (frames : List UInt8) :
    Reader Unit := do
  skip
  match ← peekToken with
  | none => failNext (unfinished frame)
  | some c =>
    if c == closing frame then
      skip
      go true frames
    else skipMember go frame (frame :: frames)

/-- Skip a value and what follows. -/
def skipOne (go : Bool → List UInt8 → Reader Unit) (frames : List UInt8) : Reader Unit := do
  match ← needToken with
  | 110 => do skip; word (ascii "ull"); go true frames
  | 116 => do skip; word (ascii "rue"); go true frames
  | 102 => do skip; word (ascii "alse"); go true frames
  | 45 => do skip; skipNumber; go true frames
  | 34 => do skip; skipString; go true frames
  | b => do
    if isDigit b then
      skipNumber
      go true frames
    else if b == 91 || b == 123 then skipOpening go b frames
    else failNext .expectedValue

/-- Skip what follows a value in an open list or object. -/
def skipAfter (go : Bool → List UInt8 → Reader Unit) (frame : UInt8) (outer : List UInt8) :
    Reader Unit := do
  match ← peekToken with
  | none => failNext (unfinished frame)
  | some b =>
    if b == 44 then do
      skip
      skipMember go frame (frame :: outer)
    else if b == closing frame then do
      skip
      go true outer
    else failNext (missingComma frame)

theorem skipOpen_false (fuel : Nat) (frames : List UInt8) :
    skipOpen (fuel + 1) false frames = skipOne (skipOpen fuel) frames := by
  rw [skipOpen]
  rfl

theorem skipOpen_cons (fuel : Nat) (frame : UInt8) (outer : List UInt8) :
    skipOpen (fuel + 1) true (frame :: outer) = skipAfter (skipOpen fuel) frame outer := by
  rw [skipOpen]
  rfl

theorem skipOpen_nil (fuel : Nat) : skipOpen (fuel + 1) true [] = pure () := by
  rw [skipOpen]
  nofun

section

variable {depth : Nat} {tokens : List Token} {go go' : Bool → List UInt8 → Reader Unit}

/-- Ways to go on that agree wherever fewer tokens are left. -/
def GoOn (go go' : Bool → List UInt8 → Reader Unit) (depth limit : Nat) : Prop :=
  ∀ tokens ready frames, tokens.length < limit →
    Agree (go ready frames) (go' ready frames) depth (Spelled tokens) (Fewer limit)

theorem GoOn.skipMember {limit : Nat} (goOn : GoOn go go' depth limit)
    (less : tokens.length < limit) (frame : UInt8) (frames : List UInt8) :
    Agree (skipMember go frame frames) (skipMember go' frame frames) depth (Spelled tokens)
      (Fewer limit) := by
  unfold Json.skipMember
  by_cases object : (frame == 123) = true
  · rw [if_pos object, if_pos object]
    refine (settled_skipKey tokens).bind ?_
    rintro _ _ ⟨left, fewer, rfl⟩
    exact goOn left false frames (by omega)
  · rw [if_neg object, if_neg object]
    exact goOn tokens false frames less

theorem GoOn.skipOpening {m : Mark} (goOn : GoOn go go' depth (tokens.length + 1)) (frame : UInt8)
    (frames : List UInt8) :
    Agree (skipOpening go frame frames) (skipOpening go' frame frames) depth
      (Started (.mark m) tokens) (Fewer (tokens.length + 1)) := by
  refine .after (reads_skip_mark m tokens) ?_
  refine .peekToken (fun _ => (refuses_failNext _).settled) ?_
  rintro next tokens rfl
  by_cases closes : (next.byte == closing frame) = true
  · obtain ⟨m, rfl⟩ := eq_closing (by simpa using closes)
    simp only [closes, if_true]
    refine .after (reads_skip_mark m tokens) (goOn tokens true frames ?_)
    exact Nat.lt_succ_of_lt (Nat.lt_succ_self _)
  · simp only [closes]
    exact (goOn.skipMember (Nat.lt_succ_self _) frame _).started

theorem GoOn.skipOne (goOn : GoOn go go' depth tokens.length) (frames : List UInt8) :
    Agree (skipOne go frames) (skipOne go' frames) depth (Spelled tokens)
      (Fewer tokens.length) := by
  cases tokens with
  | nil => exact .refuses refuses_needToken_nil.bind refuses_needToken_nil.bind
  | cons token tokens =>
    have on := goOn tokens true frames (Nat.lt_succ_self _)
    refine .after (reads_needToken_cons token tokens) ?_
    cases token with
    | word w => cases w <;> exact .word rfl on
    | literal pieces => exact .literal (fun _ => settled_skipString pieces) fun _ => on
    | number n =>
      -- The first byte is looked at again, so it is taken through all digits.
      have read := Agree.number (fun _ => settled_skipNumber n) fun _ => on
      by_cases negative : n.negative = true
      · rw [show (Token.number n).byte = 45 from if_pos negative]
        exact read.1 negative
      · have digit := Token.byte_mem_digits (by simpa using negative)
        generalize (Token.number n).byte = b at digit ⊢
        simp only [List.mem_cons, List.not_mem_nil, or_false] at digit
        have unsigned := read.2 (by simpa using negative)
        rcases digit with rfl | rfl | rfl | rfl | rfl | rfl | rfl | rfl | rfl | rfl
        all_goals exact unsigned
    | mark m =>
      cases m with
      | openList => exact goOn.skipOpening 91 frames
      | openObject => exact goOn.skipOpening 123 frames
      | closeList | closeObject | colon | comma => exact (refuses_failNext _).settled

theorem GoOn.skipAfter (goOn : GoOn go go' depth tokens.length) (frame : UInt8)
    (outer : List UInt8) :
    Agree (skipAfter go frame outer) (skipAfter go' frame outer) depth (Spelled tokens)
      (Fewer tokens.length) := by
  refine .peekToken (fun _ => (refuses_failNext _).settled) ?_
  rintro token tokens rfl
  by_cases comma : (token.byte == 44) = true
  · have byte : token.byte = 44 := by simpa using comma
    obtain rfl := Token.eq_mark .comma byte
    exact .after (reads_skip_mark .comma tokens)
      (goOn.skipMember (Nat.lt_succ_self _) frame (frame :: outer))
  by_cases closes : (token.byte == closing frame) = true
  · obtain ⟨m, rfl⟩ := eq_closing (by simpa using closes)
    simp only [comma, closes, if_true]
    exact .after (reads_skip_mark m tokens) (goOn tokens true outer (Nat.lt_succ_self _))
  · simp only [comma, closes]
    exact (refuses_failNext _).settled

/-- The loop makes a step for each token and one at its end. -/
theorem agree_skipOpen {fuel fuel' : Nat} (enough : tokens.length < fuel)
    (enough' : tokens.length < fuel') (ready : Bool) (frames : List UInt8) :
    Agree (skipOpen fuel ready frames) (skipOpen fuel' ready frames) depth (Spelled tokens)
      (Fewer (tokens.length + if ready then 1 else 0)) := by
  -- Every round passes a token, except the last: ready and inside no frame, it only stops.
  induction fuel generalizing fuel' tokens ready frames with
  | zero => omega
  | succ fuel ih =>
    obtain ⟨fuel', rfl⟩ : ∃ n, fuel' = n + 1 := ⟨fuel' - 1, by omega⟩
    have goOn : GoOn (skipOpen fuel) (skipOpen fuel') depth tokens.length := by
      intro others ready frames less
      exact (ih (by omega) (by omega) ready frames).fewer_of_le (by split <;> omega)
    cases ready with
    | false =>
      rw [skipOpen_false, skipOpen_false]
      exact goOn.skipOne frames
    | true =>
      cases frames with
      | nil =>
        rw [skipOpen_nil, skipOpen_nil]
        exact (reads_pure ()).settled ⟨tokens, Nat.lt_succ_self _, rfl⟩
      | cons frame outer =>
        rw [skipOpen_cons, skipOpen_cons]
        exact (goOn.skipAfter frame outer).fewer_of_le (Nat.le_succ _)

end

theorem seesTokens_skipValue : SeesTokens skipValue := by
  intro depth tokens
  refine .sized (h := fun n => skipOpen (2 * n + 2) false []) (fun _ => length_le_of_spelled) ?_
  intro n n' enough enough'
  exact agree_skipOpen (by omega) (by omega) false []

end UnusedMethods.Json
