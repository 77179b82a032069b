import UnusedMethods.Failure

/-!
# Disks

A disk is a tree of directories, files and links, seen from a current directory. A path is looked
up segment by segment: a link on the way is replaced by its target, and only so many links are
followed. A tree without links has finitely many paths that name a file, one for each file in it.

A walk goes through the directories of a tree and opens each of them by its path. It ends at the
first that cannot be opened, because its path is too long or because it is closed.
-/

namespace UnusedMethods

/-- Why a path cannot be used. -/
inductive Trouble where
  | missing
  | notDirectory
  | isDirectory
  | tooManyLinks
  | nameTooLong
  | nulInName
  | notText
  | denied
  | other (message : String)
deriving DecidableEq, Repr

def Trouble.message : Trouble → String
  | .missing => "No such file or directory (os error 2)"
  | .notDirectory => "Not a directory (os error 20)"
  | .isDirectory => "Is a directory (os error 21)"
  | .tooManyLinks => "Too many levels of symbolic links (os error 40)"
  | .nameTooLong => "File name too long (os error 36)"
  | .nulInName => "file name contained an unexpected NUL byte"
  | .notText => "stream did not contain valid UTF-8"
  | .denied => "Permission denied (os error 13)"
  | .other message => message

/-- What a directory holds under a name. -/
inductive Entry where
  | file (bytes : ByteArray)
  | dir (entries : List (String × Entry))
  | link (target : Path)
  /-- A directory or a file that is there but cannot be opened. -/
  | closed (isDir : Bool) (why : Trouble)

instance : Inhabited Entry := ⟨.dir []⟩

namespace Entry

def isDir : Entry → Bool
  | dir _ => true
  | closed isDir _ => isDir
  | _ => false

def isFile : Entry → Bool
  | file _ => true
  | closed isDir _ => !isDir
  | _ => false

/-- What a directory holds under a name. -/
def child? (entry : Entry) (name : String) : Option Entry :=
  match entry with
  | dir entries => entries.lookup name
  | _ => none

/-- The entry that names lead to, one after the other. -/
def descend? (entry : Entry) : List String → Option Entry
  | [] => some entry
  | name :: rest => (entry.child? name).bind fun child => child.descend? rest

/-- Put an entry under a name, in place of what was there. -/
def withChild (entries : List (String × Entry)) (name : String) (new : Entry) :
    List (String × Entry) :=
  match entries with
  | [] => [(name, new)]
  | (other, old) :: rest =>
    if other == name then (name, new) :: rest else (other, old) :: withChild rest name new

/-- Put an entry where names lead, with the directories that are missing on the way. Nothing is put
into a directory that cannot be opened. -/
def insert (entry : Entry) (new : Entry) : List String → Entry
  | [] => new
  | name :: rest =>
    match entry with
    | closed isDir why => closed isDir why
    | dir entries =>
      dir (withChild entries name (((entries.lookup name).getD (dir [])).insert new rest))
    | _ => dir [(name, (dir []).insert new rest)]

/-- Remove the entry that names lead to. -/
def erase (entry : Entry) : List String → Entry
  | [] => entry
  | [name] =>
    match entry with
    | dir entries => dir (entries.filter (·.1 != name))
    | _ => entry
  | name :: rest =>
    match entry with
    | dir entries =>
      dir (entries.map fun (other, child) =>
        if other == name then (other, child.erase rest) else (other, child))
    | _ => entry

end Entry

/-- A tree of directories, seen from a current directory. -/
structure Disk where
  root : Entry
  current : Path

namespace Disk

/-- The most links that are followed on the way to an entry. -/
def linkLimit : Nat := 40

/-- The most bytes of a name. -/
def nameLimit : Nat := 255

/-- The most bytes of a path. -/
def pathLimit : Nat := 4096

/-- More than there are paths that lead to an entry, since none has as many bytes as the limit. A
search that never takes a path twice ends within so many steps. -/
def pathCount : Nat := Nat.pow 256 pathLimit

/-- Follow the segments of a path from a directory that is given by its names, the last first. The
result is the names of the entry that the path leads to. The last segment may name a link, which is
followed only if wanted; from a link the way goes on as `jump` says. -/
def followWith (root : Entry) (followLast : Bool)
    (jump : List String → List String → Except Trouble (List String)) (at_ : List String) :
    List String → Except Trouble (List String)
  | [] => .ok at_
  | segment :: rest =>
    match root.descend? at_.reverse with
    | some (.dir entries) =>
      if segment == "" || segment == "." then followWith root followLast jump at_ rest
      -- At the root there is nothing to drop, and the way stays there.
      else if segment == ".." then followWith root followLast jump (at_.drop 1) rest
      else if segment.utf8ByteSize > nameLimit then .error .nameTooLong
      else match entries.lookup segment with
        | none => .error .missing
        | some (.link target) =>
          -- A relative target starts from the directory of the link.
          if rest.isEmpty && !followLast then .ok (segment :: at_)
          else
            let start := if Path.isAbsolute target then [] else at_
            jump start (Path.segments target ++ rest)
        | some _ => followWith root followLast jump (segment :: at_) rest
    | some (.closed true why) => .error why
    | some _ => .error .notDirectory
    | none => .error .missing

/-- Follow the segments of a path through at most so many links. -/
def follow (root : Entry) (followLast : Bool) :
    Nat → List String → List String → Except Trouble (List String)
  | 0 => followWith root followLast fun _ _ => .error .tooManyLinks
  | links + 1 => followWith root followLast (follow root followLast links)

/-- The names of a path's steps, from the root, as far as its text tells. -/
def stepNames (path : Path) : List String :=
  (Path.components path).filterMap fun
    | .name text => some text
    | _ => none

/-- The names, from the root, of the entry that a path leads to. -/
def resolve (disk : Disk) (followLast : Bool) (path : Path) : Except Trouble (List String) :=
  if path.toList.contains '\x00' then .error .nulInName
  else if path.isEmpty then .error .missing
  else if path.utf8ByteSize ≥ pathLimit then .error .nameTooLong
  else
    let start := if Path.isAbsolute path then [] else (stepNames disk.current).reverse
    (follow disk.root followLast linkLimit start (Path.segments path)).map List.reverse

/-- The entry that a path leads to. -/
def entry (disk : Disk) (path : Path) : Except Trouble Entry := do
  let names ← disk.resolve true path
  match disk.root.descend? names with
  | some found => .ok found
  | none => .error .missing

/-- A path leads to an entry. -/
def has (disk : Disk) (path : Path) : Bool :=
  match disk.entry path with
  | .ok _ => true
  | .error _ => false

/-- A path leads to a file. -/
def hasFile (disk : Disk) (path : Path) : Bool :=
  match disk.entry path with
  | .ok found => found.isFile
  | .error _ => false

/-- A path leads to a directory. -/
def hasDir (disk : Disk) (path : Path) : Bool :=
  match disk.entry path with
  | .ok found => found.isDir
  | .error _ => false

def read (disk : Disk) (path : Path) : Except Trouble ByteArray := do
  match ← disk.entry path with
  | .file bytes => .ok bytes
  | .closed _ why => .error why
  -- Links were followed, so this is a directory.
  | _ => .error .isDirectory

/-- The text of a file, which must be valid UTF-8. -/
def readText (disk : Disk) (path : Path) : Except Trouble String := do
  let bytes ← disk.read path
  if h : bytes.IsValidUTF8 then .ok (String.fromUTF8 bytes h) else .error .notText

/-- Where an entry is put or removed by a path: below the directory that the path leads to. -/
def site (disk : Disk) (path : Path) : List String :=
  let full := Path.join disk.current path
  match Path.parent? full, Path.fileName? full with
  | some dir, some name =>
    match disk.resolve true dir with
    | .ok names => names ++ [name]
    | .error _ => stepNames (Path.clean full)
  | _, _ => stepNames (Path.clean full)

/-- Where a file is written by a path: where links at the end of the path lead, whether or not there
is something already. The fuel bounds the number of links. -/
def fileSite (disk : Disk) : Nat → Path → List String
  | 0, path => disk.site path
  | fuel + 1, path =>
    let names := disk.site path
    match disk.root.descend? names with
    | some (.link target) =>
      disk.fileSite fuel (Path.join ("/" ++ "/".intercalate names.dropLast) target)
    | _ => names

/-- Put an entry on a disk, with the directories that are missing. A file is written through links,
and a directory that is there already stays as it is. -/
def insert (disk : Disk) (path : Path) (new : Entry) : Disk :=
  match new with
  | .file _ => { disk with root := disk.root.insert new (disk.fileSite linkLimit path) }
  | .link _ | .closed .. => { disk with root := disk.root.insert new (disk.site path) }
  | .dir _ =>
    if disk.hasDir path then disk
    else { disk with root := disk.root.insert new (disk.site path) }

/-- Remove an entry from a disk. -/
def erase (disk : Disk) (path : Path) : Disk :=
  { disk with root := disk.root.erase (disk.site path) }

/-- A path made absolute from the current directory and cleaned by its text; links are left
alone. -/
def absolute (disk : Disk) (path : Path) : Path :=
  Path.clean (if Path.isAbsolute path then path else Path.join disk.current path)

end Disk

/-! ### Walking a directory -/

/-- An entry of a directory as it is sorted: files and links before directories, then by name. What
is below it is not known if the walk there fails. -/
structure Found where
  isDir : Bool
  name : String
  files : Except Failure (List Path)

/-- The order in which a directory is walked. -/
def Found.precedes (a b : Found) : Bool :=
  if a.isDir == b.isDir then decide (a.name ≤ b.name) else !a.isDir

mutual

/-- The files below an entry. Directories that a test refuses are not entered, and links are not
followed. A directory is opened by its path before anything in it is looked at. -/
def Entry.walk (opens : Path → Except Failure Unit) (enters : Path → String → Bool) (path : Path) :
    Entry → Except Failure (List Path)
  | .file _ => .ok [path]
  | .link _ => .ok []
  | .closed false _ => .ok [path]
  | .closed true _ => do
    opens path
    return []
  | .dir entries => do
    opens path
    let founds := (Entry.walkAll opens enters path entries).mergeSort Found.precedes
    return (← founds.mapM (·.files)).flatten

/-- The files below each entry of a directory. -/
def Entry.walkAll (opens : Path → Except Failure Unit) (enters : Path → String → Bool)
    (path : Path) : List (String × Entry) → List Found
  | [] => []
  | (name, entry) :: rest =>
    let below := Path.join path name
    let files :=
      if entry.isDir && !enters below name then .ok [] else Entry.walk opens enters below entry
    ⟨entry.isDir, name, files⟩ :: Entry.walkAll opens enters path rest

end

namespace Disk

/-- Open the directory that a path leads to. -/
def opens (disk : Disk) (path : Path) : Except Failure Unit :=
  match disk.entry path with
  | .error why | .ok (.closed _ why) => .error (.unreadable path why.message)
  | .ok _ => .ok ()

/-- The files below a directory in walking order: in each directory first the files, then the
directories, both by name. The directory itself is entered even if it is a link. -/
def walk (disk : Disk) (enters : Path → String → Bool) (base : Path) :
    Except Failure (List Path) :=
  match disk.entry base with
  | .error why => .error (.unreadable base why.message)
  | .ok tree => tree.walk disk.opens enters base

end Disk

end UnusedMethods
