import MiniJava.Error
import MiniJava.Layout

/-!
# Reports

A report tells what came of the analysis of a file: the classes with their layouts, or what is
wrong. `Report.success` and `Report.failure` make one.
-/

namespace MiniJava

/-- A line and a column, counted from one, of a named file. -/
structure Location where
  file : String
  line : UInt32
  column : UInt32
deriving DecidableEq

/-- How bad a diagnostic is. -/
inductive Severity
  | error
deriving DecidableEq

/-- Something that is wrong. -/
structure Diagnostic where
  code : String
  severity : Severity
  message : String
  location : Option Location
deriving DecidableEq

/-- The diagnostic of an error in the text of a file. -/
def Diagnostic.ofError (e : Error) (file text : String) : Diagnostic :=
  let p := e.span.position text
  ⟨e.code, .error, e.message, some ⟨file, p.line.toUInt32, p.column.toUInt32⟩⟩

/-- A field, the text of its type and the byte at which it starts. -/
structure FieldReport where
  name : String
  type : String
  offset : Nat
deriving DecidableEq

/-- A method, the texts of its types and the byte at which it starts. -/
structure MethodReport where
  name : String
  returns : String
  params : List String
  offset : Nat
deriving DecidableEq

/-- A class with the members that it declares itself. -/
structure ClassReport where
  name : String
  parent : Option String
  fields : List FieldReport
  methods : List MethodReport
deriving DecidableEq

/-- The report on a class of a table; each offset is looked up by name in the layout. -/
def ClassReport.ofClass (t : SymbolTable) (c : ClassEntry) : ClassReport :=
  let layout := t.layout? c.name
  let fieldOffset (name : String) := (layout.bind (·.fieldOffset? name)).getD 0
  let methodOffset (name : String) := (layout.bind (·.methodOffset? name)).getD 0
  ⟨c.name, c.parent,
    c.fields.map fun v => ⟨v.name, v.type.text, fieldOffset v.name⟩,
    c.methods.map fun m =>
      ⟨m.name, m.returns.text, m.params.map (·.type.text), methodOffset m.name⟩⟩

/-- What came of the analysis of a file. -/
structure Report where
  sourceFile : String
  success : Bool
  diagnostics : List Diagnostic
  classes : List ClassReport
deriving DecidableEq

namespace Report

/-- The report on a file whose program has the table `t`. -/
def ofTable (file : String) (t : SymbolTable) : Report :=
  ⟨file, true, [], t.classes.map (.ofClass t)⟩

/-- The report on a file with something wrong. -/
def ofDiagnostics (file : String) (diagnostics : List Diagnostic) : Report :=
  ⟨file, false, diagnostics, []⟩

/-- The report on a file with the given text. -/
def ofText (file text : String) (number : Nat) : Report :=
  match analyzeText text number with
  | .ok t => ofTable file t
  | .error e => ofDiagnostics file [.ofError e file text]

end Report

end MiniJava
