import KustoFacts.Command.FreshId
import KustoFacts.Command.Run

/-!
    The command line. This layer answers what a session asks for, from the disk, from standard input
    and from the random source of the system, and prints what the run leaves. -/

namespace KustoFacts.Main

/-- The largest piece that is read from standard input at once. -/
def pieceSize : USize := 65536

/-- The pieces of a stream until its end, after those read so far, latest first. -/
partial def pieces (stream : IO.FS.Stream) (done : List Bytes) : IO (List Bytes) := do
  let piece ← stream.read pieceSize
  if piece.isEmpty then return done.reverse
  pieces stream (piece.data.toList :: done)

/-- The fault behind an error of the system; 21 is its number for a directory. -/
def faultOf : IO.Error → FileFault
  | .inappropriateType _ code _ => if code = 21 then .directory else .notDirectory
  | _ => .missing

/-- The contents of a file on the disk. -/
def contentsOf (path : Bytes) : IO (Except FileFault Bytes) := do
  let some path := path.toString? | return .error .missing
  try
    let contents ← IO.FS.readBinFile path
    return .ok contents.data.toList
  catch e => return .error (faultOf e)

/-- Answers a session. -/
def answer {α : Type} : Session α → IO α
  | .done a => pure a
  | .readFile path next => do answer (next (← contentsOf path))
  | .readInput next => do
    let input ← pieces (← IO.getStdin) []
    answer (next ⟨input, .complete⟩)
  | .freshId next => do
    let random ← IO.getRandomBytes 16
    answer (next (FreshId.text random.data.toList))

/-- The variables of the environment, as the system shows them to the process. -/
def environment : IO (List (Bytes × Bytes)) := do
  match ← contentsOf (bytes "/proc/self/environ") with
  | .error _ => return []
  | .ok text =>
    return (Bytes.splitOn 0 text).map fun entry =>
      (entry.takeWhile (· ≠ byteOf '='), (entry.dropWhile (· ≠ byteOf '=')).drop 1)

/-- Writes a text to a stream. -/
def put (stream : IO.FS.Stream) (text : Bytes) : IO Unit := do
  stream.write ⟨text.toArray⟩
  stream.flush

end KustoFacts.Main

/-- Runs the command. -/
def main (arguments : List String) : IO UInt32 := do
  let session := KustoFacts.Command.run (arguments.map KustoFacts.bytes)
    (← KustoFacts.Main.environment)
  let outcome ← KustoFacts.Main.answer session
  KustoFacts.Main.put (← IO.getStdout) outcome.stdout
  KustoFacts.Main.put (← IO.getStderr) outcome.stderr
  return outcome.exit.code.toUInt32
