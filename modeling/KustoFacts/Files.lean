import KustoFacts.Text.Bytes

/-!
    Files by path, as far as the program needs them: whole contents, and the reasons why there are
    none. Directories are not listed; they exist by the files below them. -/

namespace KustoFacts

/-- Why a file has no contents. -/
inductive FileFault where
  | missing
  | directory
  /-- A part of the path names a file. -/
  | notDirectory
  deriving DecidableEq, Repr

/-- The wording of a fault at a path. -/
def FileFault.message (path : Bytes) : FileFault → Bytes
  | .missing => bytes "open " ++ path ++ bytes ": no such file or directory"
  | .directory => bytes "read " ++ path ++ bytes ": is a directory"
  | .notDirectory => bytes "open " ++ path ++ bytes ": not a directory"

namespace Path

/-- The slash, which divides a path. -/
def slash : UInt8 := byteOf '/'

/-- One more part of a path onto the parts so far, latest first; `absolute` paths do not lead above
    their root. -/
def push (absolute : Bool) (parts : List Bytes) (part : Bytes) : List Bytes :=
  if part = [] || part = bytes "." then parts
  else if part = bytes ".." then
    match parts with
    | [] => if absolute then [] else [part]
    | last :: rest => if last = bytes ".." then part :: parts else rest
  else part :: parts

/-- The parts of a path, without those that lead nowhere. -/
def parts (path : Bytes) : List Bytes :=
  ((Bytes.splitOn slash path).foldl (push (path.head? = some slash)) []).reverse

/-- A path without the parts that lead nowhere. -/
def clean (path : Bytes) : Bytes :=
  let absolute := path.head? = some slash
  match parts path with
  | [] => if absolute then [slash] else bytes "."
  | ps => (if absolute then [slash] else []) ++ Bytes.joinWith [slash] ps

end Path

/-- Files with their paths and contents. -/
structure Files where
  entries : List (Bytes × Bytes)
  deriving DecidableEq, Repr

namespace Files

/-- Whether a path leads to a directory that holds a file. -/
def isDirectory (f : Files) (path : List Bytes) : Bool :=
  f.entries.any fun e => path.length < (Path.parts e.1).length && path.isPrefixOf (Path.parts e.1)

/-- Whether a path leads through a file. -/
def leadsThrough (f : Files) (path : List Bytes) : Bool :=
  f.entries.any fun e => (Path.parts e.1).length < path.length && (Path.parts e.1).isPrefixOf path

/-- The contents of the file at a path. -/
def read (f : Files) (path : Bytes) : Except FileFault Bytes :=
  if path = [] || path.head? = some Path.slash then .error .missing
  else
    let ps := Path.parts path
    match f.entries.find? fun e => Path.parts e.1 = ps with
    | some e => .ok e.2
    | none =>
      if ps = [] || f.isDirectory ps then .error .directory
      else if f.leadsThrough ps then .error .notDirectory
      else .error .missing

end Files
end KustoFacts
