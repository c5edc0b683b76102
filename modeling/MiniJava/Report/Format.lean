import MiniJava.Json.Printer
import MiniJava.Json.Reader
import MiniJava.Report.Basic

/-!
# Reports as JSON

`Report.write` and `Report.read?` are the two directions of one format.
-/

namespace MiniJava

namespace Location

/-- A location as JSON. -/
def toJson (l : Location) : Json :=
  .obj [("file", .str l.file), ("line", .num l.line.toNat), ("column", .num l.column.toNat)]

/-- The location that a value stands for. -/
def ofJson? (j : Json) : Option Location := do
  match ← j.record? [⟨"file", false⟩, ⟨"line", false⟩, ⟨"column", false⟩] with
  | [file, line, column] =>
    return ⟨← file.string?, (← line.natBelow? UInt32.size).toUInt32,
      (← column.natBelow? UInt32.size).toUInt32⟩
  | _ => none

end Location

namespace Severity

/-- The name of a severity. -/
def text : Severity → String
  | error => "Error"

/-- The severity that a value stands for: its name, alone or as the key of null. -/
def ofJson? : Json → Option Severity
  | .str "Error" | .obj [("Error", .null)] => some error
  | _ => none

end Severity

namespace Diagnostic

/-- A diagnostic as JSON. -/
def toJson (d : Diagnostic) : Json :=
  .obj [("code", .str d.code), ("severity", .str d.severity.text), ("message", .str d.message),
    ("location", d.location.elim .null Location.toJson)]

/-- The diagnostic that a value stands for. -/
def ofJson? (j : Json) : Option Diagnostic := do
  match ← j.record?
    [⟨"code", false⟩, ⟨"severity", false⟩, ⟨"message", false⟩, ⟨"location", true⟩] with
  | [code, severity, message, location] =>
    return ⟨← code.string?, ← Severity.ofJson? severity, ← message.string?,
      ← location.option? Location.ofJson?⟩
  | _ => none

end Diagnostic

/-- Offsets are read up to the largest number of 64 bits. -/
def offsetBound : Nat := UInt64.size

namespace FieldReport

/-- The report on a field as JSON. -/
def toJson (f : FieldReport) : Json :=
  .obj [("name", .str f.name), ("type", .str f.type), ("offset", .num f.offset)]

/-- The report on a field that a value stands for. -/
def ofJson? (j : Json) : Option FieldReport := do
  match ← j.record? [⟨"name", false⟩, ⟨"type", false⟩, ⟨"offset", false⟩] with
  | [name, type, offset] =>
    return ⟨← name.string?, ← type.string?, ← offset.natBelow? offsetBound⟩
  | _ => none

end FieldReport

namespace MethodReport

/-- The report on a method as JSON. -/
def toJson (m : MethodReport) : Json :=
  .obj [("name", .str m.name), ("return_type", .str m.returns),
    ("params", .arr (m.params.map .str)), ("offset", .num m.offset)]

/-- The report on a method that a value stands for. -/
def ofJson? (j : Json) : Option MethodReport := do
  match ← j.record?
    [⟨"name", false⟩, ⟨"return_type", false⟩, ⟨"params", false⟩, ⟨"offset", false⟩] with
  | [name, returns, params, offset] =>
    return ⟨← name.string?, ← returns.string?, ← params.list? Json.string?,
      ← offset.natBelow? offsetBound⟩
  | _ => none

end MethodReport

namespace ClassReport

/-- The report on a class as JSON. -/
def toJson (c : ClassReport) : Json :=
  .obj [("name", .str c.name), ("parent", c.parent.elim .null .str),
    ("fields", .arr (c.fields.map FieldReport.toJson)),
    ("methods", .arr (c.methods.map MethodReport.toJson))]

/-- The report on a class that a value stands for. -/
def ofJson? (j : Json) : Option ClassReport := do
  match ← j.record?
    [⟨"name", false⟩, ⟨"parent", true⟩, ⟨"fields", false⟩, ⟨"methods", false⟩] with
  | [name, parent, fields, methods] =>
    return ⟨← name.string?, ← parent.option? Json.string?, ← fields.list? FieldReport.ofJson?,
      ← methods.list? MethodReport.ofJson?⟩
  | _ => none

end ClassReport

namespace Report

/-- A report as JSON. -/
def toJson (r : Report) : Json :=
  .obj [("source_file", .str r.sourceFile), ("success", .bool r.success),
    ("diagnostics", .arr (r.diagnostics.map Diagnostic.toJson)),
    ("classes", .arr (r.classes.map ClassReport.toJson))]

/-- The report that a value stands for. -/
def ofJson? (j : Json) : Option Report := do
  match ← j.record?
    [⟨"source_file", false⟩, ⟨"success", false⟩, ⟨"diagnostics", false⟩, ⟨"classes", false⟩] with
  | [sourceFile, success, diagnostics, classes] =>
    return ⟨← sourceFile.string?, ← success.bool?, ← diagnostics.list? Diagnostic.ofJson?,
      ← classes.list? ClassReport.ofJson?⟩
  | _ => none

/-- The text of a report; an empty object stands for one that cannot be written. -/
def write (r : Report) : String :=
  r.toJson.pretty?.getD "\x7b\x7d"

/-- The report that a text holds. -/
def read? (text : String) : Option Report :=
  (Json.parse? text).bind ofJson?

end Report

end MiniJava
