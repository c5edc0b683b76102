/-!
# Arguments of the command line

`Request.parse` reads the arguments from left to right. A command is recognised in front of the
file names and directly behind a switch; after that, and behind `--`, everything is a file name.
Each switch may be given once in front of the command and once behind it.
-/

namespace MiniJava.CommandLine

/-- What to print about a program that passes. -/
inductive Output
  | verdict | layout | table
  /-- The layouts, then the verdict. -/
  | report
deriving DecidableEq

/-- The named commands. -/
inductive Command
  | check | layout | table
deriving DecidableEq

namespace Command

/-- The command that an argument names. -/
def ofName? : String → Option Command
  | "check" => some check
  | "layout" => some layout
  | "table" => some table
  | _ => none

/-- What a command prints. -/
def output : Command → Output
  | check => .verdict
  | layout => .layout
  | table => .table

/-- Whether a command takes several files. -/
def takesMany : Command → Bool
  | check => true
  | layout | table => false

end Command

/-- The switches. -/
inductive Switch
  | json | verbose | help | version
deriving DecidableEq

namespace Switch

/-- The full name of a switch. -/
def name : Switch → String
  | json => "json"
  | verbose => "verbose"
  | help => "help"
  | version => "version"

/-- The switch with a full name. -/
def ofName? : String → Option Switch
  | "json" => some json
  | "verbose" => some verbose
  | "help" => some help
  | "version" => some version
  | _ => none

/-- The switch with a one-letter name. -/
def ofLetter? : Char → Option Switch
  | 'v' => some verbose
  | 'h' => some help
  | 'V' => some version
  | _ => none

end Switch

/-- What the user asks for. -/
inductive Request
  | run (output : Output) (files : List String) (json verbose : Bool)
  /-- Nothing at all is named. -/
  | noInput
  | version
  | help (command : Option Command)
deriving DecidableEq

/-- The files of a request. -/
def Request.files : Request → List String
  | run _ files _ _ => files
  | _ => []

/-- What can be wrong with the arguments. -/
inductive UsageError
  | unknownSwitch (name : String)
  | repeatedSwitch (switch : Switch)
  | unexpectedValue (switch : Switch)
  | emptyFileName
  | missingFile
  | surplusFile (name : String)
  | unknownCommand (name : String)
deriving DecidableEq

/-- The wording of a fault in the arguments. -/
def UsageError.message : UsageError → String
  | unknownSwitch name => s!"unexpected argument '{name}' found"
  | repeatedSwitch switch => s!"the argument '--{switch.name}' cannot be used multiple times"
  | unexpectedValue switch =>
    s!"unexpected value for '--{switch.name}' found; no more were expected"
  | emptyFileName => "a value is required for a file name but none was supplied"
  | missingFile => "a required file name was not provided"
  | surplusFile name => s!"unexpected argument '{name}' found"
  | unknownCommand name => s!"unrecognized subcommand '{name}'"

/-- The forms of an argument. -/
inductive Argument
  /-- The mark behind which everything is a file name. -/
  | separator
  | long (name : String) (value : Option String)
  | letters (letters : List Char)
  | plain (text : String)
deriving DecidableEq

/-- The form of an argument. A lone `-` is plain. -/
def Argument.ofText (text : String) : Argument :=
  match text.toList with
  | ['-', '-'] => separator
  | '-' :: '-' :: cs =>
    let name := String.ofList (cs.takeWhile (· != '='))
    match cs.dropWhile (· != '=') with
    | _ :: value => long name (some (String.ofList value))
    | [] => long name none
  | '-' :: c :: cs => letters (c :: cs)
  | _ => plain text

/-- The switches that stay on. -/
structure Flags where
  json : Bool
  verbose : Bool
deriving DecidableEq

/-- No switch is on. -/
def Flags.none : Flags := ⟨false, false⟩

/-- What has been read of the arguments. -/
structure State where
  command : Option Command
  /-- The switches in front of the command. -/
  outer : Flags
  /-- The switches behind the command, or all of them as long as there is none. -/
  flags : Flags
  files : List String
  /-- Whether the last argument was a file name. -/
  inFiles : Bool
deriving DecidableEq

/-- Where reading an argument leads: further on, or to the end. -/
inductive Progress
  | more (state : State)
  | done (request : Request)
deriving DecidableEq

namespace State

/-- The state in front of all arguments. -/
def start : State := ⟨none, .none, .none, [], false⟩

/-- Turns a switch on. The version belongs to the program, not to a command. -/
def turnOn (s : State) : Switch → Except UsageError Progress
  | .json =>
    if s.flags.json then
      .error (.repeatedSwitch .json)
    else
      .ok (.more { s with flags := { s.flags with json := true }, inFiles := false })
  | .verbose =>
    if s.flags.verbose then
      .error (.repeatedSwitch .verbose)
    else
      .ok (.more { s with flags := { s.flags with verbose := true }, inFiles := false })
  | .help => .ok (.done (.help s.command))
  | .version =>
    if s.command.isNone then .ok (.done .version) else .error (.unknownSwitch "--version")

/-- Turns on switches that are given by their letters. -/
def turnOnAll (s : State) : List Char → Except UsageError Progress
  | [] => .ok (.more s)
  | c :: cs =>
    match Switch.ofLetter? c with
    | none => .error (.unknownSwitch (String.ofList ['-', c]))
    | some switch => do
      match ← s.turnOn switch with
      | .more s => s.turnOnAll cs
      | .done r => return .done r

/-- Takes a file name. -/
def addFile (s : State) (name : String) : Except UsageError State :=
  if name.isEmpty then
    .error .emptyFileName
  else if s.command.any (!·.takesMany) && !s.files.isEmpty then
    .error (.surplusFile name)
  else
    .ok { s with files := s.files ++ [name], inFiles := true }

/-- Starts the arguments of a command; file names in front of it are dropped. -/
def enter (s : State) (command : Command) : State :=
  ⟨some command, s.flags, .none, [], false⟩

/-- The request behind all arguments. -/
def finish (s : State) : Except UsageError Request :=
  let json := s.outer.json || s.flags.json
  let verbose := s.outer.verbose || s.flags.verbose
  match s.command with
  | some command =>
    if s.files.isEmpty then .error .missingFile
    else .ok (.run command.output s.files json verbose)
  | none => .ok (if s.files.isEmpty then .noInput else .run .report s.files json verbose)

end State

/-- The request behind the word `help`: at most one name of a command may follow it. -/
def helpRequest : List String → Except UsageError Request
  | [] | ["help"] => .ok (.help none)
  | "help" :: other :: _ => .error (.unknownCommand other)
  | name :: more =>
    match Command.ofName? name, more with
    | some command, [] => .ok (.help (some command))
    | some _, other :: _ => .error (.unknownCommand other)
    | none, _ => .error (.unknownCommand name)

/-- The request of the arguments that are left. -/
def scan (s : State) : List String → Except UsageError Request
  | [] => s.finish
  | arg :: rest =>
    match Argument.ofText arg with
    | .separator => do
      let s ← rest.foldlM State.addFile s
      s.finish
    | .long name value =>
      match Switch.ofName? name, value with
      | none, _ => .error (.unknownSwitch arg)
      | some switch, some _ => .error (.unexpectedValue switch)
      | some switch, none => do
        match ← s.turnOn switch with
        | .more s => scan s rest
        | .done r => return r
    | .letters cs => do
      match ← s.turnOnAll cs with
      | .more s => scan s rest
      | .done r => return r
    | .plain text =>
      if s.command.isSome || s.inFiles then do
        scan (← s.addFile text) rest
      else if text = "help" then
        helpRequest rest
      else
        match Command.ofName? text with
        | some command => scan (s.enter command) rest
        | none => do scan (← s.addFile text) rest

/-- What the arguments ask for. -/
def Request.parse (args : List String) : Except UsageError Request :=
  scan .start args

end MiniJava.CommandLine
