import MiniJava.CommandLine.Arguments
import MiniJava.Report.Format
import MiniJava.SymbolTable.Printer

/-!
# Answering a request

`respond` is what the program prints, and the number it ends with, for a request and the contents
of its files. The files are analysed one by one, and none has an influence on another.
-/

namespace MiniJava.CommandLine

/-- Why a file cannot be read. -/
inductive ReadFailure
  | notFound
  | isDirectory
  | notText
  | other (reason : String)
deriving DecidableEq

/-- The wording of a failure to read. -/
def ReadFailure.reason : ReadFailure → String
  | notFound => "No such file or directory (os error 2)"
  | isDirectory => "Is a directory (os error 21)"
  | notText => "stream did not contain valid UTF-8"
  | other reason => reason

/-- A file name, and the text of the file or why there is none. -/
structure Input where
  name : String
  content : Except ReadFailure String

/-- What is printed about one file, and whether it passes. -/
structure Outcome where
  stdout : String
  stderr : String
  passed : Bool
deriving DecidableEq

/-- The line that ends a successful analysis. -/
def verdict : String := "Semantic analysis passed\n"

/-- The layouts of all classes, each with an empty line behind it. -/
def layoutsText (t : SymbolTable) : String :=
  String.join (t.layouts.map (·.text ++ "\n"))

/-- What is printed about a program that passes. -/
def Output.text (t : SymbolTable) : Output → String
  | verdict => CommandLine.verdict
  | layout => layoutsText t
  | table => t.text
  | report => layoutsText t ++ CommandLine.verdict

/-- The line that reports a diagnostic of the given sort. -/
def diagnosticLine (title : String) (d : Diagnostic) : String :=
  let body := s!"{title} [{d.code}]: {d.message}\n"
  match d.location with
  | some l => s!"{l.file}:{l.line.toNat}:{l.column.toNat}: " ++ body
  | none => body

/-- The line that tells that a text has the form of a program. -/
def parsedLine : String := "Program parsed successfully.\n"

/-- What is printed about a file with the given text. -/
def textOutcome (output : Output) (json : Bool) (number : Nat) (name text : String) : Outcome :=
  match analyzeText text number with
  | .ok t =>
    if json then ⟨(Report.ofTable name t).write ++ "\n", "", true⟩
    else ⟨output.text t, parsedLine, true⟩
  | .error e =>
    let d := Diagnostic.ofError e name text
    if json then
      ⟨(Report.ofDiagnostics name [d]).write ++ "\n", "", false⟩
    else
      let line := diagnosticLine e.title d
      match e with
      | .form _ => ⟨"", line, false⟩
      | .meaning _ => ⟨"", parsedLine ++ line, false⟩

/-- What is printed about a file. -/
def outcome (output : Output) (json : Bool) (number : Nat) (input : Input) : Outcome :=
  match input.content with
  | .ok text => textOutcome output json number input.name text
  | .error failure => ⟨"", s!"Error: failed to read {input.name}: {failure.reason}\n", false⟩

/-- What is logged about a file. -/
def debugLog (number : Nat) (input : Input) : List String :=
  let events : List Event :=
    match input.content with
    | .error _ => []
    | .ok text =>
      match Program.parse text number with
      | .error _ => []
      | .ok p => p.analyze.log.filter (·.level = .debug)
  s!"{Level.debug.text} analyzing {input.name}" :: events.map Event.line

/-- What is printed, and the number that the program ends with. -/
structure Response where
  stdout : String
  stderr : String
  exitCode : UInt32
deriving DecidableEq

/-- The name and the version of the program. -/
def versionText : String := "mjsema 0.1.0\n"

/-- The complaint that nothing is named. -/
def noInputText : String :=
  "Error: No input file specified\nUsage: mjsema <FILE>... or mjsema check <FILE>...\n"

/-- The part of the instructions on the switches. -/
def switchesText : String :=
  "Options:\n" ++
  "      --json     Emit JSON reports instead of text\n" ++
  "  -v, --verbose  Enable debug logging\n" ++
  "  -h, --help     Print help\n"

/-- The instructions for the program or for a command. -/
def helpText : Option Command → String
  | none =>
    "MiniJava semantic analyzer - symbol tables, type checking and object layout\n\n" ++
    "Usage: mjsema [OPTIONS] [FILE]... [COMMAND]\n\n" ++
    "Commands:\n" ++
    "  check   Check source files for errors\n" ++
    "  layout  Print field and method offsets of every class\n" ++
    "  table   Print the symbol table\n" ++
    "  help    Print this message or the help of the given subcommand(s)\n\n" ++
    "Arguments:\n  [FILE]...  Input source files\n\n" ++
    switchesText ++
    "  -V, --version  Print version\n"
  | some .check =>
    "Check source files for errors\n\nUsage: mjsema check [OPTIONS] <INPUTS>...\n\n" ++
    "Arguments:\n  <INPUTS>...  Input source files\n\n" ++ switchesText
  | some .layout =>
    "Print field and method offsets of every class\n\nUsage: mjsema layout [OPTIONS] <INPUT>\n\n" ++
    "Arguments:\n  <INPUT>  Input source file\n\n" ++ switchesText
  | some .table =>
    "Print the symbol table\n\nUsage: mjsema table [OPTIONS] <INPUT>\n\n" ++
    "Arguments:\n  <INPUT>  Input source file\n\n" ++ switchesText

/-- The answer to a request for files: all that is printed about them, in their order. -/
def runFiles (output : Output) (json : Bool) (inputs : List Input) : Response :=
  let outcomes := inputs.zipIdx.map fun (input, number) => outcome output json number input
  ⟨String.join (outcomes.map Outcome.stdout), String.join (outcomes.map Outcome.stderr),
    if outcomes.all Outcome.passed then 0 else 1⟩

/-- The answer to a request, given the contents of its files. -/
def respond (request : Request) (inputs : List Input) : Response :=
  match request with
  | .run output _ json _ => runFiles output json inputs
  | .noInput => ⟨"", noInputText, 1⟩
  | .version => ⟨versionText, "", 0⟩
  | .help command => ⟨helpText command, "", 0⟩

/-- The answer to arguments that ask for nothing. -/
def respondUsage (e : UsageError) : Response :=
  ⟨"", s!"error: {e.message}\n\nFor more information, try '--help'.\n", 2⟩

end MiniJava.CommandLine
