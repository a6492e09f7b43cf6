/-
The command line program on a real system.
-/
import LispMachine.Command.Run

namespace LispMachine

/-- the bytes of a stream up to and with the next line feed, or to its end -/
partial def readThroughBreak (stream : IO.FS.Stream) (acc : List UInt8) : IO (List UInt8) := do
  match (← stream.read 1).data[0]? with
  | none => return acc.reverse
  | some b => if b = 10 then return (b :: acc).reverse else readThroughBreak stream (b :: acc)

/-- the bytes of a stream to its end -/
partial def readToEnd (stream : IO.FS.Stream) (acc : List UInt8) : IO (List UInt8) := do
  let chunk ← stream.read 4096
  if chunk.isEmpty then return acc.reverse
  else readToEnd stream (chunk.data.toList.reverse ++ acc)

/-- what is wrong with a file, from the error that using it failed with -/
def fileProblem : IO.Error → FileProblem
  | .inappropriateType _ 21 _ => .isDirectory
  | .inappropriateType _ _ _ => .notDirectory
  | .invalidArgument _ 36 _ => .nameTooLong
  | .invalidArgument _ _ _ => .invalid
  | _ => .missing

/-- the system the program runs on -/
def realHost : Host IO where
  getVariable name := IO.getEnv name
  workingDirectory := do return (← IO.currentDir).toString
  load path := try return .ok (← IO.FS.readBinFile path).data.toList catch e => return .error (fileProblem e)
  save path bytes := try return .ok (← IO.FS.writeBinFile path ⟨bytes.toArray⟩) catch e => return .error (fileProblem e)
  readLine := do readThroughBreak (← IO.getStdin) []
  readInput := do readToEnd (← IO.getStdin) []
  putOut s := do
    let out ← IO.getStdout
    out.putStr s
    out.flush
  putErr s := do (← IO.getStderr).putStr s
  clock := do return (← IO.monoNanosNow)

end LispMachine

def main (args : List String) : IO UInt32 := do
  let code ← LispMachine.Command.run LispMachine.realHost args
  return UInt32.ofNat code
