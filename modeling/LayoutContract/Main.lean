import LayoutContract.CommandLine

/-!
The program: files come from the file system, and the outcome goes to the standard streams.
-/
namespace LayoutContract

/-- The text of a file, or the reason why there is none. -/
def readText (path : String) : IO (Except String String) := do
  try
    return .ok (← IO.FS.readFile path)
  catch e =>
    return .error (toString e)

end LayoutContract

def main (arguments : List String) : IO UInt32 := do
  let isTerminal ← (← IO.getStdout).isTty
  let outcome ← LayoutContract.CommandLine.run LayoutContract.readText isTerminal arguments
  IO.print outcome.output
  IO.eprint outcome.errors
  return outcome.status.toUInt32
