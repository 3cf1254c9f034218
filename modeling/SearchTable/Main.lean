import SearchTable.Command.Basic
/-!
# The program

Runs a command line in the directory of the process.  What the run needs to know of files is looked
up first, and what it leaves behind is written afterwards.
-/

namespace SearchTable.Command

/-- What is found at a path, seen from the directory of the process. -/
def lookUp (path : String) : IO Found := do
  if path.isEmpty then return .missing
  let place := (← IO.currentDir) / path
  try
    return .text (← IO.FS.readFile place)
  catch _ =>
    return if ← place.pathExists then .unreadable else .missing

/-- Adds lines to the log in the directory of the process. -/
def appendLog (lines : List String) : IO Unit := do
  let log ← IO.FS.Handle.mk logFile .append
  for line in lines do
    log.putStrLn line

/-- Carries out a command line and returns its exit code. -/
def carryOut (words : List String) : IO UInt32 := do
  let configVariable ← IO.getEnv "SOLRSTORE_CONFIG"
  for name in openedFiles words do
    discard <| IO.FS.Handle.mk name .append
  let found ← (pathsOf configVariable words).mapM fun path => do return (path, ← lookUp path)
  let directory := (← IO.currentDir).toString
  let look (path : String) : Found := (found.lookup path).getD .missing
  let outcome := run ⟨configVariable, directory, look⟩ words
  IO.print outcome.output
  IO.eprint outcome.diagnostics
  outcome.log.forM appendLog
  return outcome.code.toUInt32

end SearchTable.Command

def main (words : List String) : IO UInt32 := SearchTable.Command.carryOut words
