/-
This module is the program itself. It looks up the files that its arguments name, runs the
program on them, and prints and writes what comes out.
-/
import MacroAssembler.CommandLine.Program

namespace MacroAssembler.CommandLine

def problemOf : IO.Error → FileProblem
  | .inappropriateType .. => .belowFile
  | .invalidArgument .. => .nameTooLong
  | _ => .missing

def lookUp (path : String) : IO (Except FileProblem Entry) := do
  if path = "" then return .error .missing
  try
    let content ← IO.FS.readFile path
    return .ok (.file (Text.carried content))
  catch problem =>
    try
      let _ ← IO.FS.Handle.mk (path ++ "/.") IO.FS.Mode.read
      return .ok .directory
    catch _ => return .error (problemOf problem)

end MacroAssembler.CommandLine

def main (arguments : List String) : IO UInt32 := do
  let arguments := arguments.map MacroAssembler.Text.carried
  let entries ← (MacroAssembler.CommandLine.pathsOfInterest arguments).mapM fun path => do
    return (path, ← MacroAssembler.CommandLine.lookUp (MacroAssembler.Text.released path))
  let surroundings := MacroAssembler.CommandLine.Surroundings.ofEntries entries
  let outcome := MacroAssembler.CommandLine.run surroundings arguments
  match outcome.written with
  | some written =>
    IO.FS.writeFile (MacroAssembler.Text.released written.path)
      (MacroAssembler.Text.released written.content)
  | none => pure ()
  IO.print (MacroAssembler.Text.released outcome.output)
  IO.eprint (MacroAssembler.Text.released outcome.errors)
  return outcome.exitCode.toUInt32
