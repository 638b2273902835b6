import Laye.CommandLine.Arguments
import Laye.Compilation
import Laye.IR.Printer
import Laye.Interchange.Report
import Laye.Interchange.Syntax

/-!
# What the command line does

A request becomes a `Step`: a response right away, or one to show first, a file to write then, and
the response that depends on whether that worked. Reading and writing files is left to the caller.
-/

namespace Laye.CommandLine

/-- What the user sees of a run. -/
structure Response where
  exitCode : Nat
  stdout : String
  stderr : String
deriving DecidableEq, Repr, Inhabited

/-- Two responses one after the other. The exit code is that of the last. -/
def Response.append (first last : Response) : Response :=
  ⟨last.exitCode, first.stdout ++ last.stdout, first.stderr ++ last.stderr⟩

/-- What is to be done for a request. -/
inductive Step where
  | finish (response : Response)
  /-- Show a response, and write a file. What comes then depends on the failure of writing, if it
  fails. -/
  | write (shown : Response) (path content : String) (next : Option String → Response)
deriving Inhabited

/-! ### Texts -/

/-- The name and version of the tool. -/
def versionText : String := "layec 0.1.0\n"

/-- Lines of text. -/
def lines (ls : List String) : String := String.join (ls.map (· ++ "\n"))

/-- What the tool is. -/
def helpText : String := lines
  ["layec - semantic front end for the Laye systems programming language",
    "",
    "Usage: layec <COMMAND>",
    "",
    "Commands:",
    "  check  Check syntax trees for errors",
    "  build  Check and lower syntax trees to IR",
    "  help   Print this message or the help of the given subcommand(s)",
    "",
    "Options:",
    "  -h, --help     Print help",
    "  -V, --version  Print version"]

/-- The arguments that all actions take. -/
def commonHelp : List String :=
  ["Arguments:",
    "  <FILES>...  Syntax tree files (JSON), checked together as one unit",
    "",
    "Options:",
    "      --keep-going       Keep checking other functions after one fails",
    "      --format <FORMAT>  Diagnostic output format [default: text] " ++
      "[possible values: text, json]"]

/-- The options that only `build` has. -/
def buildHelp : List String :=
  ["  -o, --output <FILE>    Output file",
    "      --emit-ir          Also print the lowered IR to stdout"]

/-- The option that asks for help. -/
def helpHelp : List String := ["  -h, --help             Print help"]

/-- What an action does and takes. -/
def actionHelp : Action → String
  | .check =>
    lines (["Check syntax trees for errors", "", "Usage: layec check [OPTIONS] <FILES>...", ""] ++
      commonHelp ++ helpHelp)
  | .build =>
    lines (["Check and lower syntax trees to IR", "", "Usage: layec build [OPTIONS] <FILES>...",
      ""] ++ commonHelp ++ buildHelp ++ helpHelp)

/-! ### Files -/

/-- The last component of a path, unless that leads upward. -/
def fileName? (path : String) : Option String :=
  match ((path.splitOn "/").filter fun part => part ≠ "" ∧ part ≠ ".").getLast? with
  | some ".." => none
  | name => name

/-- The name of a module after the file it comes from: what stands before the first dot. -/
def moduleName (files : List String) : String :=
  match files.head?.bind fileName? with
  | none => "main"
  | some name =>
    match name.toList.takeWhile (· != '.') with
    | [] => "main"
    | stem => String.ofList stem

/-- The contents of a file, or why it cannot be read. -/
abbrev Contents : Type := Except String String

/-- Why a syntax tree cannot be loaded from a file. -/
def loadMessage (path problem : String) : String :=
  "Error: failed to load syntax tree " ++ path ++ ": " ++ problem

/-- The syntax tree in a file. -/
def load (path : String) : Contents → Except String SyntaxTree
  | .error cause => .error (loadMessage path ("IO error: " ++ cause ++ ": " ++ cause ++ "\n"))
  | .ok text =>
    (SyntaxTree.parse text).mapError fun
      | .malformed => loadMessage path "Malformed syntax tree: "
      | .acrossSources e => loadMessage path ("Malformed syntax tree: " ++ e.message)

/-- The syntax trees in files, up to the first that cannot be loaded. -/
def loadAll : List (String × Contents) → Except String (List SyntaxTree)
  | [] => .ok []
  | (path, contents) :: rest => do
    let tree ← load path contents
    let trees ← loadAll rest
    .ok (tree :: trees)

/-! ### Running -/

/-- Shows what was found, as JSON on the output or as text beside it. -/
def present (format : Format) (report : Report) : Response :=
  match format with
  | .json => ⟨0, report.pretty ++ "\n", ""⟩
  | .text =>
    if report.entries.isEmpty then
      ⟨0, "", "✅ No errors found in " ++ toString report.sources.length ++ " source(s)\n"⟩
    else ⟨0, "", report.text ++ "\n"⟩

/-- The response after the listing was written, or was not. -/
def afterWriting (path listing : String) (emitIR : Bool) : Option String → Response
  | some cause => ⟨1, "", "Error: failed to write " ++ path ++ ": " ++ cause ++ "\n"⟩
  | none => ⟨0, if emitIR then listing else "", ""⟩

/-- Runs an action on the syntax trees of its files. -/
def act (action : Action) (o : Options) (trees : List SyntaxTree) : Step :=
  let format := o.format.getD .text
  match action with
  | .check =>
    let c := Compilation.check o.keepGoing trees
    let exitCode := if Diagnostic.hasErrors c.diagnostics then 1 else 0
    .finish { present format c.report with exitCode }
  | .build =>
    let name := moduleName o.files
    let c := Compilation.build o.keepGoing name trees
    let shown := present format c.report
    match c.module with
    | none => .finish { shown with exitCode := 1 }
    | some module =>
      let path := o.output.getD (name ++ ".lir")
      .write shown path module.text (afterWriting path module.text o.emitIR)

namespace Request

/-- The files that a request reads. -/
def files : Request → List String
  | .run _ o => o.files
  | _ => []

/-- Carries a request out, given what its files hold. -/
def perform (r : Request) (contents : List Contents) : Step :=
  match r with
  | .misuse => .finish ⟨2, "", helpText⟩
  | .version => .finish ⟨0, versionText, ""⟩
  | .help none => .finish ⟨0, helpText, ""⟩
  | .help (some action) => .finish ⟨0, actionHelp action, ""⟩
  | .run action o =>
    match loadAll (o.files.zip contents) with
    | .error message => .finish ⟨1, "", message⟩
    | .ok trees => act action o trees

end Request

end Laye.CommandLine
