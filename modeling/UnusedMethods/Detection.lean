import UnusedMethods.References

/-!
# Detection of unused methods

A method of a searched file counts as unused when nothing but its declaration refers to it. Only
eligible methods of named classes are considered.
-/

namespace UnusedMethods

structure Finding where
  className : String
  method : String
  file : Path
  line : Nat
deriving DecidableEq, Repr

/-- Counts of what a search has met. -/
structure Stats where
  filesScanned : Nat
  classesScanned : Nat
  anonymousClasses : Nat
  methodsConsidered : Nat
  methodsSkipped : Nat
  methodsUnresolved : Nat
  findings : Nat
deriving DecidableEq, Repr

structure Detection where
  findings : List Finding
  stats : Stats
deriving DecidableEq, Repr

namespace Detection

def start : Detection :=
  ⟨[], ⟨0, 0, 0, 0, 0, 0, 0⟩⟩

/-- Whether no location is other than a declaration. -/
def isUnused (locations : List Location) : Bool :=
  locations.all fun l => l.kind == .declaration

def count (d : Detection) (f : Stats → Stats) : Detection :=
  { d with stats := f d.stats }

/-- Consider one method of a named class. -/
def method (resolve : Resolver) (keepGoing : Bool) (path : Path) (className : String)
    (id : MethodId) (d : Detection) (m : Method) : Except Failure Detection :=
  if !m.isEligible then
    .ok (d.count fun s => { s with methodsSkipped := s.methodsSkipped + 1 })
  else
    let d := d.count fun s => { s with methodsConsidered := s.methodsConsidered + 1 }
    match resolve id with
    | .ok locations =>
      if isUnused locations then
        .ok { findings := d.findings ++ [⟨className, m.name, path, m.line⟩]
              stats := { d.stats with findings := d.stats.findings + 1 } }
      else .ok d
    | .error failure =>
      -- A method that is passed over stays among those considered.
      if keepGoing && failure.isRecoverable then
        .ok (d.count fun s => { s with methodsUnresolved := s.methodsUnresolved + 1 })
      else .error failure

def cls (resolve : Resolver) (keepGoing : Bool) (path : Path) (file : Nat) (d : Detection)
    (decl : ClassDecl × Nat) : Except Failure Detection :=
  match decl.1.name with
  | none => .ok (d.count fun s => { s with anonymousClasses := s.anonymousClasses + 1 })
  | some name =>
    let d := d.count fun s => { s with classesScanned := s.classesScanned + 1 }
    decl.1.methods.zipIdx.foldlM
      (fun d (m, k) => method resolve keepGoing path name ⟨file, decl.2, k⟩ d m) d

def file (resolve : Resolver) (keepGoing : Bool) (d : Detection) (target : Nat × SourceFile) :
    Except Failure Detection :=
  let d := d.count fun s => { s with filesScanned := s.filesScanned + 1 }
  target.2.classes.zipIdx.foldlM (cls resolve keepGoing target.2.path target.1) d

/-- The unused methods of a project, in the order of files, classes and methods. -/
def run (project : Project) (resolve : Resolver) (keepGoing : Bool) :
    Except Failure Detection :=
  project.targets.foldlM (file resolve keepGoing) start

end Detection

end UnusedMethods
