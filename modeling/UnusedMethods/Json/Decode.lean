import UnusedMethods.Json.Reader

/-!
# Readers for wanted values

Each reader takes a value of one kind: a text, a truth value, a list, or a record with named
fields. A record may also be written as a list of its fields in order. Fields with unknown names
are skipped, and a known name must not come twice.
-/

namespace UnusedMethods.Json

/-- How deep values may be nested where they are read. -/
def maxDepth : Nat := 128

/-- Fail because the value that comes next is not of the expected kind. -/
def wrongType {α : Type} (expected : String) : Reader α := placed do
  let fail (found : String) : Reader α := failUnplaced (.wrongType found expected)
  -- The first byte tells the kind: a letter of `null`, `true` or `false`, a minus sign, a quote or
  -- an opening bracket. What is read on the way may have a fault of its own, which comes first.
  match ← peek with
  | some 110 => do skip; word (ascii "ull"); fail "null"
  | some 116 => do skip; word (ascii "rue"); fail "boolean `true`"
  | some 102 => do skip; word (ascii "alse"); fail "boolean `false`"
  | some 45 => do skip; fail (← number true).describe
  | some 34 => do skip; fail ("string " ++ Text.quoted (← stringBody))
  | some 91 => fail "sequence"
  | some 123 => fail "map"
  | some b => if isDigit b then do fail (← number false).describe else failNext .expectedValue
  | none => failNext .expectedValue

def text : Reader String := placed do
  match ← needToken with
  | 34 => do skip; stringBody
  | _ => wrongType "a string"

def bool : Reader Bool := placed do
  match ← needToken with
  | 116 => do skip; word (ascii "rue"); return true
  | 102 => do skip; word (ascii "alse"); return false
  | _ => wrongType "a boolean"

def optional {α : Type} (reader : Reader α) : Reader (Option α) := do
  match ← peekToken with
  | some 110 => do skip; word (ascii "ull"); return none
  | _ => return some (← reader)

/-! ### Lists -/

/-- Whether another element follows in a list. -/
def moreElements (first : Bool) : Reader Bool := do
  match ← peekToken with
  | none => failNext .endInList
  | some 93 => return false
  | some b =>
    if first then return true
    else if b != 44 then failNext .expectedCommaInList
    else
      -- After a comma an element has to follow.
      skip
      match ← peekToken with
      | some 93 => failNext .trailingComma
      | some _ => return true
      | none => failNext .endInValue

def endList : Reader Unit := do
  match ← peekToken with
  | some 93 => skip
  | some 44 => do
    skip
    match ← peekToken with
    | some 93 => failNext .trailingComma
    | _ => failNext .trailingText
  | some _ => failNext .trailingText
  | none => failNext .endInList

def endObject : Reader Unit := do
  match ← peekToken with
  | some 125 => skip
  | some 44 => failNext .trailingComma
  | some _ => failNext .trailingText
  | none => failNext .endInObject

/-- Read an inside and then its end. The end is looked for even when the inside has a fault, which
may move the reader; the fault of the inside comes first. -/
def closedBy {α : Type} (ending : Reader Unit) (inside : Reader α) : Reader α := do
  let result ← tryCatch (do return Except.ok (← inside)) fun fault => return Except.error fault
  let ended ← tryCatch (do ending; return none) fun fault => return some fault
  match result, ended with
  | .error fault, _ => throw fault
  | .ok _, some fault => throw fault
  | .ok a, none => return a

def elements {α : Type} (reader : Reader α) : Nat → Bool → Array α → Reader (Array α)
  | 0, _, done => return done
  | fuel + 1, first, done => do
    if ← moreElements first then elements reader fuel false (done.push (← reader))
    else return done

def listOf {α : Type} (reader : Reader α) : Reader (List α) := placed do
  match ← needToken with
  | 91 =>
    let limit := (← read).size
    closedBy endList (entering do skip; return (← elements reader limit true #[]).toList)
  | _ => wrongType "a sequence"

/-! ### Objects -/

/-- Whether another key follows in an object. -/
def moreKeys (first : Bool) : Reader Bool := do
  match ← peekToken with
  | none => failNext .endInObject
  | some 125 => return false
  | some b =>
    if first then
      if b == 34 then return true else failNext .keyNotString
    else if b != 44 then failNext .expectedCommaInObject
    else
      skip
      match ← peekToken with
      | some 34 => return true
      | some 125 => failNext .trailingComma
      | some _ => failNext .keyNotString
      | none => failNext .endInValue

def colon : Reader Unit := do
  match ← peekToken with
  | some 58 => skip
  | some _ => failNext .expectedColon
  | none => failNext .endInObject

/-- The fault for an unfinished list or object, by its opening bracket. -/
def unfinished (frame : UInt8) : Cause :=
  if frame == 91 then .endInList else .endInObject

/-- The fault for a missing comma in a list or object, by its opening bracket. -/
def missingComma (frame : UInt8) : Cause :=
  if frame == 91 then .expectedCommaInList else .expectedCommaInObject

def closing (frame : UInt8) : UInt8 :=
  if frame == 91 then 93 else 125

/-- Skip values inside the open lists and objects, given by their opening brackets, innermost
first. `ready` says that a value has just ended, so that a comma or a closing bracket is due. -/
def skipOpen : Nat → Bool → List UInt8 → Reader Unit
  | 0, _, _ => return ()
  | _, true, [] => return ()
  | fuel + 1, true, frame :: outer => do
    match ← peekToken with
    | none => failNext (unfinished frame)
    | some b =>
      if b == 44 then do
        skip
        if frame == 123 then skipKey
        skipOpen fuel false (frame :: outer)
      else if b == closing frame then do
        skip
        skipOpen fuel true outer
      else failNext (missingComma frame)
  | fuel + 1, false, frames => do
    match ← needToken with
    | 110 => do skip; word (ascii "ull"); skipOpen fuel true frames
    | 116 => do skip; word (ascii "rue"); skipOpen fuel true frames
    | 102 => do skip; word (ascii "alse"); skipOpen fuel true frames
    | 45 => do skip; skipNumber; skipOpen fuel true frames
    | 34 => do skip; skipString; skipOpen fuel true frames
    | b => do
      if isDigit b then
        skipNumber
        skipOpen fuel true frames
      else if b == 91 || b == 123 then
        -- A list or object that is empty is skipped at once and never joins those that are open.
        skip
        match ← peekToken with
        | none => failNext (unfinished b)
        | some c =>
          if c == closing b then
            skip
            skipOpen fuel true frames
          else
            if b == 123 then skipKey
            skipOpen fuel false (b :: frames)
      else failNext .expectedValue
where
  skipKey : Reader Unit := do
    match ← peekToken with
    | some 34 => skip
    | some _ => failNext .keyNotString
    | none => failNext .endInObject
    skipString
    colon

def skipValue : Reader Unit := do
  skipOpen (2 * (← read).size + 2) false []

/-! ### Records -/

/-- A field of a record under construction. -/
structure Field (σ : Type) where
  name : String
  read : σ → Reader σ

/-- Read the fields of a record written as an object. -/
def namedFields {σ : Type} (fields : List (Field σ)) :
    Nat → Bool → List String → σ → Reader σ
  | 0, _, _, value => return value
  | fuel + 1, first, seen, value => do
    if ← moreKeys first then
      skip
      let key ← stringBody
      match fields.find? (·.name == key) with
      | none => do
        colon
        skipValue
        namedFields fields fuel false seen value
      | some field =>
        -- The place of this fault is where the record ends.
        if seen.contains key then failUnplaced (.duplicateField key)
        else
          colon
          namedFields fields fuel false (key :: seen) (← field.read value)
    else return value

/-- Read the fields of a record written as a list. A list that ends early is a fault where all
fields are needed; otherwise the other fields keep their values. -/
def orderedFields {σ : Type} (expected : Option String) (count : Nat) :
    List (Field σ) → Bool → σ → Reader σ
  | [], _, value => return value
  | field :: rest, first, value => do
    if ← moreElements first then orderedFields expected (count + 1) rest false (← field.read value)
    else match expected with
      | some title => failUnplaced (.wrongLength count title)
      | none => return value

def record {σ : Type} (title : String) (needAll : Bool) (fields : List (Field σ)) (start : σ) :
    Reader σ := placed do
  match ← needToken with
  | 91 =>
    let expected := title ++ " with " ++ toString fields.length ++ " elements"
    closedBy endList (entering do
      skip
      orderedFields (if needAll then some expected else none) 0 fields true start)
  | 123 =>
    let limit := (← read).size
    closedBy endObject (entering do skip; namedFields fields limit true [] start)
  | _ => wrongType title

/-! ### Values of any kind -/

/-- A value as far as alternatives look at it. -/
inductive Content where
  | text (value : String)
  | list (values : List Content)
  | other

/-- Read the entries of an object whose values are of no interest one by one. -/
def entries (value : Reader Content) : Nat → Bool → Reader Unit
  | 0, _ => return ()
  | fuel + 1, first => do
    if ← moreKeys first then
      skip
      let _ ← stringBody
      colon
      let _ ← value
      entries value fuel false
    else return ()

/-- Read a value of any kind, nested at most `depth` deep. -/
def content : Nat → Reader Content
  | 0 => failNext .tooDeep
  | depth + 1 => do
    match ← needToken with
    | 110 => do skip; word (ascii "ull"); return .other
    | 116 => do skip; word (ascii "rue"); return .other
    | 102 => do skip; word (ascii "alse"); return .other
    | 45 => do skip; let _ ← number true; return .other
    | 34 => do skip; return .text (← stringBody)
    | 91 => do
      let limit := (← read).size
      closedBy endList (entering do
        skip
        return .list (← elements (content depth) limit true #[]).toList)
    | 123 => do
      let limit := (← read).size
      closedBy endObject (entering do
        skip
        entries (content depth) limit true
        return .other)
    | b => do
      if isDigit b then
        let _ ← number false
        return .other
      else failNext .expectedValue

/-- The texts of a list of contents, if they all are texts. -/
def textsOf (values : List Content) : Option (List String) :=
  values.mapM fun value =>
    match value with
    | .text t => some t
    | _ => none

/-! ### Whole texts -/

/-- Read a whole text as one value. -/
def parse {α : Type} (reader : Reader α) (source : String) : Except Fault α :=
  let whole : Reader α := do
    let a ← reader
    match ← peekToken with
    | some _ => failNext .trailingText
    | none => return a
  match whole.run source.toUTF8 |>.run ⟨0, maxDepth⟩ with
  | .ok a _ => .ok a
  | .error fault _ => .error fault

end UnusedMethods.Json
