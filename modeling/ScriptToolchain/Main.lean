import ScriptToolchain.CommandLine

/-!
# The command

Reads standard input to its end, runs what the arguments ask for and writes
the outcome.
-/

namespace ScriptToolchain

/-- All that is left of a stream, behind what was read before. -/
partial def readAll (input : IO.FS.Stream) (before : ByteArray) : IO ByteArray := do
  let more ← input.read 65536
  if more.isEmpty then
    return before
  readAll input (before ++ more)

end ScriptToolchain

/-- Runs the command; the exit code tells success. -/
def main (args : List String) : IO UInt32 := do
  let input ← ScriptToolchain.readAll (← IO.getStdin) ByteArray.empty
  let outcome := ScriptToolchain.CommandLine.run args input.data
  (← IO.getStdout).write ⟨outcome.output⟩
  (← IO.getStderr).putStr outcome.messages
  return if outcome.failed then 1 else 0
