import QuantumRelay.CommandLine.Program
import QuantumRelay.Exchange.Http

/-!
# Main

Reads arguments and files, runs the program and prints what it leaves behind. Nothing is decided here.
Remote units are not reached from here: every exchange with one breaks down.
-/

open QuantumRelay

def readTextFile (path : String) : IO (Except FileFault String) := do
  try
    pure (.ok (← IO.FS.readFile path))
  catch e =>
    pure (.error (match e with
      | .noFileOrDirectory .. => .missing
      | .inappropriateType .. => .isFolder
      | .invalidArgument .. => .badName (toString e)
      | e => .other (toString e)))

def randomSeed : IO UInt64 := do
  let bytes ← IO.getRandomBytes 8
  pure (bytes.toList.foldl (fun n b => n * 256 + b.toUInt64) 0)

def main (args : List String) : IO UInt32 := do
  let outcome ← Program.run readTextFile Http.Unreachable.mk (← randomSeed) args
    (← IO.getEnv "QMESH_CONFIG")
  for line in outcome.lines do
    IO.println line
  match outcome.message with
  | some message => IO.eprintln ("Error: " ++ message)
  | none => if outcome.code = 2 then IO.eprintln "Error: arguments not understood"
  pure outcome.code
