import UnusedMethods.Analysis
import UnusedMethods.Arguments
import UnusedMethods.Report

/-!
# The command

What the command prints for its arguments and with which code it ends: 0 for a report, 1 for an
analysis that stopped, 2 for arguments that are refused.
-/

namespace UnusedMethods.Command

/-- What a run of the command leaves behind. -/
structure Outcome where
  code : Nat
  output : String
  errors : String
deriving DecidableEq, Repr

/-- The line that tells which arguments are expected, with the items in use if there are any. -/
def usageLine (shown : List Arguments.Item) : String :=
  -- The path comes last, and in brackets unless it is one of the items in use.
  let options := shown.filter (· != .path)
  let path := Arguments.Item.path.text (!shown.contains .path)
  let items := if shown.isEmpty then ["[OPTIONS]"] else options.map (·.text true)
  " ".intercalate (["Usage:", "deadmethod"] ++ items ++ [path])

/-- The line that shows an item beside the choice of what is analysed and how. -/
def choiceLine (item : Arguments.Item) : String :=
  let own := Arguments.ownItems
  let texts := own.map fun own => if own == .path then "PATH" else own.text true
  let items := if own.contains item then [] else [item.text true]
  " ".intercalate (["Usage:", "deadmethod"] ++ items ++ ["<" ++ "|".intercalate texts ++ ">"])

/-- The hint that goes with an argument that was not expected. -/
def tipText (argument : String) : Arguments.Tip → Option String
  | .none => none
  | .similar name => some ("  tip: a similar argument exists: '--" ++ name ++ "'")
  | .asValue =>
    some ("  tip: to pass '" ++ argument ++ "' as a value, use '-- " ++ argument ++ "'")

/-- The paragraphs that tell why arguments are refused. -/
def refusalText : Arguments.Refusal → List String
  | .unexpected argument tip shown =>
    ("error: unexpected argument '" ++ argument ++ "' found") ::
      ((tipText argument tip).toList ++ [usageLine shown])
  | .missingValue item =>
    ["error: a value is required for '" ++ item.text true ++ "' but none was supplied"]
  | .repeated item =>
    ["error: the argument '" ++ item.text true ++ "' cannot be used multiple times", usageLine []]
  | .needlessValue value item isFirst =>
    ["error: unexpected value '" ++ value ++ "' for '" ++ item.text true ++
      "' found; no more were expected", if isFirst then usageLine [item] else choiceLine item]

def helpText : String :=
  "Find class methods that nothing references in a TypeScript project\n\n" ++
  usageLine [] ++ "\n\n" ++
  "Arguments:\n" ++
  "  [PATH]  Project root (containing tsconfig.json) or its source directory\n\n" ++
  "Options:\n" ++
  "      --exclude <GLOB>  Extra glob, relative to the source directory, of files not to scan\n" ++
  "      --keep-going      Skip files that fail to parse and methods that fail to resolve\n" ++
  "  -h, --help            Print help\n" ++
  "  -V, --version         Print version\n"

def versionText : String :=
  "deadmethod-cli 0.1.0\n"

def shortUsage : String :=
  "Usage: deadmethod /absolute/path/to/your/project-or-src\n"

/-- A text with its later lines moved to the right. -/
def hang (indent text : String) : String :=
  ("\n" ++ indent).intercalate (Path.splitText '\n' text)

/-- The causes of an error, numbered if there are several. -/
def causeLines : List String → List String
  | [cause] => ["    " ++ hang "    " cause]
  | causes => causes.zipIdx.map fun (cause, i) =>
    let number := toString i
    "".pushn ' ' (5 - number.length) ++ number ++ ": " ++ hang "       " cause

def errorText : List String → String
  | [] => "Error: \n"
  | [top] => "Error: " ++ top ++ "\n"
  | top :: causes =>
    "Error: " ++ top ++ "\n\nCaused by:\n" ++ "\n".intercalate (causeLines causes) ++ "\n"

def analyze (disk : Disk) (path : Path) (arguments : Arguments) : Outcome :=
  let scan := (Config.Scan.standard.withExcludes arguments.excludes).withKeepGoing
    arguments.keepGoing
  match Analysis.run disk path scan with
  | .ok analysis => ⟨0, report analysis.detection.findings, ""⟩
  | .error stop => ⟨1, "", errorText stop.chain⟩

def run (disk : Disk) (arguments : List String) : Outcome :=
  match Arguments.parse arguments with
  | .error .help => ⟨0, helpText, ""⟩
  | .error .version => ⟨0, versionText, ""⟩
  | .error (.refused refusal) =>
    ⟨2, "", "\n\n".intercalate (refusalText refusal ++ ["For more information, try '--help'.\n"])⟩
  | .ok asked =>
    match asked.path with
    | none => ⟨1, "", shortUsage⟩
    | some path => analyze disk path asked

end UnusedMethods.Command
