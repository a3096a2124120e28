import KustoFacts.Files
import KustoFacts.Records.Source

/-!
    Sessions: computations that ask for what they need from their surroundings, a file, the input,
    or an id that was never given before, and go on with the answer. A session is a value, so that
    what a run does can be computed for any surroundings. -/

namespace KustoFacts

/-- A computation that asks. -/
inductive Session (α : Type) where
  | done (a : α)
  | readFile (path : Bytes) (next : Except FileFault Bytes → Session α)
  | readInput (next : Source → Session α)
  | freshId (next : Bytes → Session α)

/-- What a session can ask for. -/
structure Surroundings where
  files : Files
  input : Source
  id : Bytes

namespace Session

/-- A session followed by another. -/
def bind {α β : Type} : Session α → (α → Session β) → Session β
  | .done a, f => f a
  | .readFile path next, f => .readFile path fun c => (next c).bind f
  | .readInput next, f => .readInput fun s => (next s).bind f
  | .freshId next, f => .freshId fun i => (next i).bind f

instance : Monad Session where
  pure := .done
  bind := bind

/-- Asks for the contents of a file. -/
def contentsOf (path : Bytes) : Session (Except FileFault Bytes) := .readFile path .done

/-- Asks for the input. -/
def input : Session Source := .readInput .done

/-- Asks for an id. -/
def newId : Session Bytes := .freshId .done

/-- What a session comes to in given surroundings. -/
def within {α : Type} (s : Surroundings) : Session α → α
  | .done a => a
  | .readFile path next => (next (s.files.read path)).within s
  | .readInput next => (next s.input).within s
  | .freshId next => (next s.id).within s

end Session
end KustoFacts
