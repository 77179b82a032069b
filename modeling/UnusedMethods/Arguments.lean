import UnusedMethods.Path
import UnusedMethods.Text.Jaro

/-!
# Command-line arguments

The arguments are read one after the other. An option is written with two dashes, its value behind
an equals sign or as the next argument; after a lone `--` everything is a path. A value counts when
the next item or the end is reached, so a fault of a value is found there.
-/

namespace UnusedMethods

structure Arguments where
  path : Option Path
  excludes : List String
  keepGoing : Bool
deriving DecidableEq, Repr

namespace Arguments

inductive Item where
  | path
  | exclude
  | keepGoing
  | help
  | version
deriving DecidableEq, Repr

def optionNames : List (String × Item) :=
  [("exclude", .exclude), ("keep-going", .keepGoing), ("help", .help), ("version", .version)]

/-- How an item is written; a path is in brackets if it may be left out. -/
def Item.text (optional : Bool) : Item → String
  | .path => if optional then "[PATH]" else "<PATH>"
  | .exclude => "--exclude <GLOB>"
  | .keepGoing => "--keep-going"
  | .help => "--help"
  | .version => "--version"

/-- The items that say what is analysed and how. -/
def ownItems : List Item :=
  [.path, .exclude, .keepGoing]

/-- Advice on an argument that is not expected. -/
inductive Tip where
  | none
  /-- There is an option of a similar name. -/
  | similar (name : String)
  /-- The argument can be given as a value. -/
  | asValue
deriving DecidableEq, Repr

/-- Why arguments are refused. A list of items holds those that the usage line is to show. -/
inductive Refusal where
  | unexpected (argument : String) (tip : Tip) (shown : List Item)
  | missingValue (item : Item)
  | repeated (item : Item)
  /-- A flag with a value, and whether no other item was counted before it. -/
  | needlessValue (value : String) (item : Item) (isFirst : Bool)
deriving DecidableEq, Repr

/-- Why the arguments ask for no analysis. -/
inductive Exit where
  | help
  | version
  | refused (refusal : Refusal)
deriving DecidableEq, Repr

/-- An item that waits for its value or to be counted. -/
inductive Pending where
  | nothing
  | exclude (value : Option String)
  | path (value : String)
deriving DecidableEq, Repr

/-- How far the arguments have been read. -/
structure Progress where
  arguments : Arguments
  /-- The items that were counted, in the order they first occurred. -/
  used : List Item
  pending : Pending
  /-- Whether a path was given. -/
  hasPath : Bool
  /-- Whether only paths may follow. -/
  onlyPaths : Bool

namespace Progress

def start : Progress :=
  ⟨⟨none, [], false⟩, [], .nothing, false, false⟩

end Progress

/-- Add an item to a list without repeating it. -/
def addItem (items : List Item) (item : Item) : List Item :=
  if items.contains item then items else items ++ [item]

namespace Progress

/-- The items counted so far, the pending one included if it has a value. -/
def usedSoFar (progress : Progress) : List Item :=
  match progress.pending with
  | .exclude (some _) => addItem progress.used .exclude
  | .path _ => addItem progress.used .path
  | _ => progress.used

def addExclude (progress : Progress) (glob : String) : Progress :=
  { progress with
    arguments :=
      { progress.arguments with excludes := progress.arguments.excludes ++ [glob] }
    used := addItem progress.used .exclude }

/-- Count the pending item. An option without its value and an empty path are refused. -/
def settle (progress : Progress) : Except Exit Progress :=
  let counted := { progress with pending := .nothing }
  match progress.pending with
  | .nothing => .ok progress
  | .exclude none => .error (.refused (.missingValue .exclude))
  | .exclude (some glob) => .ok (counted.addExclude glob)
  | .path value =>
    if value == "" then .error (.refused (.missingValue .path))
    else .ok { counted with
      arguments := { counted.arguments with path := some value }
      used := addItem counted.used .path }

/-- Read a path. There is at most one. -/
def readPath (progress : Progress) (argument : String) : Except Exit Progress :=
  if progress.hasPath then .error (.refused (.unexpected argument .none []))
  else do
    let progress ← progress.settle
    return { progress with pending := .path argument, hasPath := true }

/-- Count the flag to keep going, which may be given once. -/
def readKeepGoing (progress : Progress) : Except Exit Progress := do
  -- A pending item that is faulty is refused before the repetition.
  let progress ← progress.settle
  if progress.used.contains .keepGoing then throw (.refused (.repeated .keepGoing))
  return { progress with
    arguments := { progress.arguments with keepGoing := true }
    used := addItem progress.used .keepGoing }

/-- Stop reading for an item that is answered at once. -/
def stop (progress : Progress) (exit : Exit) : Except Exit Progress := do
  let _ ← progress.settle
  throw exit

end Progress

def likeness : Float := 0.7

/-- The option whose name is most like a text; of two that are equally like, the later. -/
def suggestion? (name : String) : Option (String × Item) :=
  let scored := optionNames.map fun option => (Text.jaro name option.1, option)
  let best := (scored.filter fun s => s.1 > likeness).foldl (fun best s =>
    match best with
    | none => some s
    | some b => if b.1 > s.1 then some b else some s) none
  best.map (·.2)

/-- Divide the text of an option at its first equals sign. -/
def splitOption (text : List Char) : String × Option String :=
  let name := text.takeWhile (· != '=')
  match text.drop name.length with
  | [] => (String.ofList name, none)
  | _ :: value => (String.ofList name, some (String.ofList value))

namespace Progress

def refuseOption (progress : Progress) (name : String) : Except Exit Progress :=
  let used := progress.usedSoFar
  match suggestion? name with
  | some (similar, item) =>
    .error (.refused (.unexpected ("--" ++ name) (.similar similar) (addItem used item)))
  | none => .error (.refused (.unexpected ("--" ++ name) .asValue used))

/-- Read an option that is written with two dashes. -/
def readOption (progress : Progress) (name : String) (value : Option String) :
    Except Exit Progress :=
  match optionNames.lookup name, value with
  | none, _ => progress.refuseOption name
  | some .exclude, some glob => do
    let progress ← progress.settle
    return progress.addExclude glob
  | some .exclude, none => do
    let progress ← progress.settle
    return { progress with pending := .exclude none }
  | some item, some value =>
    .error (.refused (.needlessValue value item progress.used.isEmpty))
  | some .help, none => progress.stop .help
  | some .version, none => progress.stop .version
  | some _, none => progress.readKeepGoing

/-- Read an option that is written with one dash and a letter. -/
def readLetter (progress : Progress) (letter : Char) : Except Exit Progress :=
  match letter with
  | 'h' => progress.stop .help
  | 'V' => progress.stop .version
  | _ => .error (.refused (.unexpected ("-" ++ letter.toString) .asValue []))

def read (progress : Progress) (argument : String) : Except Exit Progress :=
  if progress.onlyPaths then progress.readPath argument
  else match argument.toList with
    | ['-', '-'] => .ok { progress with onlyPaths := true }
    | '-' :: '-' :: text =>
      let (name, value) := splitOption text
      progress.readOption name value
    | '-' :: letter :: _ => progress.readLetter letter
    | _ =>
      -- Whatever does not begin with a dash can be the value of the option before it.
      match progress.pending with
      | .exclude none => .ok { progress with pending := .exclude (some argument) }
      | _ => progress.readPath argument

end Progress

def parse (arguments : List String) : Except Exit Arguments := do
  let progress ← arguments.foldlM Progress.read .start
  return (← progress.settle).arguments

end Arguments

end UnusedMethods
