/-!
# Paths

A path is its text. Slashes divide it into segments; an empty segment and a segment `.` name
nothing, except that a relative path may begin with `.`. Operations that keep part of a path keep
its text as it stands, so that a path is reported the way it was built.
-/

namespace UnusedMethods

/-- A path, as its text. -/
abbrev Path := String

namespace Path

/-- One step of a path. -/
inductive Component where
  /-- The leading slash. -/
  | root
  /-- A leading `.` of a relative path. -/
  | current
  /-- A segment `..`. -/
  | up
  /-- Any other segment. -/
  | name (text : String)
deriving DecidableEq, Repr

def Component.text : Component → String
  | .root => "/"
  | .current => "."
  | .up => ".."
  | .name text => text

/-- The pieces of a character list between occurrences of a separator. -/
def pieces (sep : Char) : List Char → List (List Char)
  | [] => [[]]
  | c :: rest =>
    if c == sep then [] :: pieces sep rest
    else match pieces sep rest with
      | [] => [[c]]
      | piece :: more => (c :: piece) :: more

/-- The pieces of a text between occurrences of a separator. -/
def splitText (sep : Char) (text : String) : List String :=
  (pieces sep text.toList).map String.ofList

def segments (p : Path) : List String :=
  splitText '/' p

/-- A path that starts with a slash. -/
def isAbsolute (p : Path) : Bool :=
  p.startsWith "/"

/-- A segment that names a step: not empty and not `.`. -/
def isStep (segment : String) : Bool :=
  segment != "" && segment != "."

/-- The component that a segment stands for, if any. -/
def stepOf (segment : String) : Option Component :=
  if !isStep segment then none
  else if segment == ".." then some .up
  else some (.name segment)

/-- The components of a path, from first to last. -/
def components (p : Path) : List Component :=
  let steps := (segments p).filterMap stepOf
  -- A `.` that comes first is the only one that is kept.
  if isAbsolute p then .root :: steps
  else if (segments p).head? == some "." then .current :: steps
  else steps

/-- Put one path after another: an absolute second path replaces the first. -/
def join (p q : Path) : Path :=
  if isAbsolute q then q
  else if p == "" then q
  else if p.endsWith "/" then p ++ q
  else p ++ "/" ++ q

/-- The path that has the given components. -/
def ofComponents (cs : List Component) : Path :=
  cs.foldl (fun p c => join p c.text) ""

/-- The text of a list of segments. -/
def ofSegments (segs : List String) : Path :=
  if segs == [""] then "/" else String.intercalate "/" segs

/-- Drop segments that name nothing from the end, but not the first segment. -/
def trimEnd (segs : List String) : List String :=
  match segs with
  | [] => []
  | first :: rest => first :: (rest.reverse.dropWhile (fun s => !isStep s)).reverse

/-- The path without its last component; the root and the empty path have no parent. -/
def parent? (p : Path) : Option Path :=
  match trimEnd (segments p) with
  | [] => none
  -- The segment before a leading slash is empty, so this is the root, or else a single name.
  | [first] => if first == "" then none else some ""
  | segs => some (ofSegments (trimEnd segs.dropLast))

/-- The path itself, then its parent, and so on. -/
def ancestorsAux : Nat → Path → List Path
  | 0, p => [p]
  | n + 1, p => match parent? p with
    | none => [p]
    | some q => p :: ancestorsAux n q

/-- The path itself and all that follow by taking parents. -/
def ancestors (p : Path) : List Path :=
  ancestorsAux (segments p).length p

def fileName? (p : Path) : Option String :=
  match (components p).getLast? with
  | some (.name text) => some text
  | _ => none

/-- Divide a file name before its last dot. A name whose only dot comes first is not divided. -/
def splitName (name : String) : String × Option String :=
  -- From the end: what follows the last dot, the dot itself, and what stands before it.
  let cs := name.toList.reverse
  let after := cs.takeWhile (· != '.')
  let before := cs.drop (after.length + 1)
  if after.length == cs.length || before.isEmpty then (name, none)
  else (String.ofList before.reverse, some (String.ofList after.reverse))

/-- What follows the last dot of the file name. -/
def extension? (p : Path) : Option String :=
  (fileName? p).bind fun name => (splitName name).2

/-- The path with the extension of its file name removed. -/
def dropExtension (p : Path) : Path :=
  match fileName? p with
  | none => p
  | some name =>
    match parent? p with
    | none => p
    | some dir => join dir (splitName name).1

/-- One path begins with all components of another. -/
def startsWith (p base : Path) : Bool :=
  (components base).isPrefixOf (components p)

/-- Drop the first `n` segments that name a step. -/
def dropSteps : Nat → List String → List String
  | 0, segs => segs
  | _, [] => []
  | n + 1, s :: segs => if isStep s then dropSteps n segs else dropSteps (n + 1) segs

/-- The rest of a path below a base, if it lies at or below it. -/
def relativeTo? (p base : Path) : Option Path :=
  if !startsWith p base then none
  else match components base with
    | [] => some (if p == "" then "" else ofSegments (trimEnd (segments p)))
    | comps =>
      -- A root and a leading `.` are no segments of their own, so they are not counted.
      let steps := comps.filter fun c => c != .root && c != .current
      let rest := (dropSteps steps.length (segments p)).dropWhile fun s => !isStep s
      some (String.intercalate "/" (rest.reverse.dropWhile fun s => !isStep s).reverse)

/-- One step of lexical cleaning: `..` removes the name before it and is dropped at the root. -/
def cleanStep (done : List Component) (c : Component) : List Component :=
  match c, done with
  | .current, _ => done
  | .up, .root :: _ => done
  | .up, .name _ :: rest => rest
  | c, _ => c :: done

/-- The path with `.` and `..` removed as far as its text allows; the empty path becomes `.`. -/
def clean (p : Path) : Path :=
  match (components p).foldl cleanStep [] with
  | [] => "."
  | done => ofComponents done.reverse

/-- The path with backslashes written as slashes. -/
def slashed (p : Path) : String :=
  p.map fun c => if c == '\\' then '/' else c

/-- The extensions of sources that always belong to a project. -/
def typedExtensions : List String :=
  ["ts", "tsx", "mts", "cts"]

/-- The extensions of sources that belong to a project which admits plain scripts. -/
def plainExtensions : List String :=
  ["js", "jsx", "mjs", "cjs"]

/-- Whether a path names a source file of a project, plain scripts admitted or not. -/
def isSource (p : Path) (plain : Bool) : Bool :=
  match extension? p with
  | none => false
  | some ext => typedExtensions.contains ext || (plain && plainExtensions.contains ext)

end Path

end UnusedMethods
