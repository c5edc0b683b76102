import MiniJava.CommandLine.Run

/-!
# The program

Reads the files that the arguments name, and prints the answer.
-/

namespace MiniJava.CommandLine

/-- Reads a file as text. -/
def readInput (name : String) : IO Input := do
  try
    let bytes ← IO.FS.readBinFile name
    match String.fromUTF8? bytes with
    | some text => return ⟨name, .ok text⟩
    | none => return ⟨name, .error .notText⟩
  catch
    | .noFileOrDirectory .. => return ⟨name, .error .notFound⟩
    | .inappropriateType .. => return ⟨name, .error .isDirectory⟩
    | e => return ⟨name, .error (.other e.toString)⟩

/-- Prints an answer. -/
def Response.print (r : Response) : IO UInt32 := do
  (← IO.getStderr).putStr r.stderr
  (← IO.getStdout).putStr r.stdout
  return r.exitCode

/-- Prints what is logged about the files. -/
def printLog (inputs : List Input) : IO Unit :=
  inputs.zipIdx.forM fun (input, number) =>
    (debugLog number input).forM IO.eprintln

end MiniJava.CommandLine

open MiniJava.CommandLine in
def main (args : List String) : IO UInt32 := do
  match Request.parse args with
  | .error e => (respondUsage e).print
  | .ok request =>
    let inputs ← request.files.mapM readInput
    if let .run _ _ _ true := request then
      printLog inputs
    (respond request inputs).print
