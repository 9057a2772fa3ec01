import Dispatch.Cli

/-!
# Program

Reads the files that the arguments name, and prints what `Cli.run` says.
-/

set_option autoImplicit false

namespace Dispatch.Program

/-- What is at a path. -/
def fileState (path : String) : IO FileState := do
  try
    let content ← IO.FS.readBinFile path
    return .file content.toList
  catch _ => return .missing

/-- The files that arguments can name. -/
def filesOf (args : List String) : IO (String → FileState) := do
  let mut known : Table String FileState := []
  for arg in args do
    let (_, value) := Cli.splitValue arg
    for path in Cli.leadingPaths (value.getD arg) do
      known := Table.set path (← fileState path) known
  let table := known
  return fun path => (Table.get? path table).getD .missing

end Dispatch.Program

def main (args : List String) : IO UInt32 := do
  let files ← Dispatch.Program.filesOf args
  let exit := Dispatch.Cli.run files args
  IO.print exit.out
  if !exit.err.isEmpty then IO.eprintln exit.err
  return exit.code.toUInt32
