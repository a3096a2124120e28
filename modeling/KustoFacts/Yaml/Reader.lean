import KustoFacts.Yaml.Node
import KustoFacts.Yaml.Scan

/-!
    Reading YAML documents: the nodes that a stream of tokens spells. Of a stream only the first
    document is read, up to the token after its root. -/

namespace KustoFacts.Yaml

/-- An anchor, told from others of its name by a number. -/
structure Anchor where
  number : Nat
  name : Bytes
  /-- Its node, once that is complete. -/
  node : Option Node

/-- How far a document has been read. -/
structure Reading where
  scan : Scan
  /-- What the handles of tags stand for. -/
  handles : List (Bytes × Bytes)
  /-- The anchors so far, latest first. -/
  anchors : List Anchor
  /-- The anchors that were named inside of their own nodes. -/
  looped : List Nat

/-- Reads part of a document; there may be a fault. -/
abbrev Read := StateT Reading Option

namespace Read

/-! ### Tokens -/

/-- The next token. -/
def peek : Read Token := fun r => r.scan.peek.map fun (t, scan) => (t, { r with scan := scan })

/-- Skips the token that was looked at. -/
def skip : Read Unit := modify fun r => { r with scan := r.scan.next }

/-! ### Anchors and tags -/

/-- Makes an anchor known, if there is one; its node is still to come. -/
def declare : Option Bytes → Read (Option Nat)
  | none => return none
  | some name => do
    let number := (← get).anchors.length
    modify fun r => { r with anchors := ⟨number, name, none⟩ :: r.anchors }
    return some number

/-- A node that is complete, with its anchor if it has one. -/
def complete (anchor : Option Nat) (node : Node) : Read Node :=
  match anchor with
  | none => return node
  | some number => do
    let node := if (← get).looped.contains number then Node.unroll number node node else node
    modify fun r =>
      { r with anchors := r.anchors.map fun a => if a.number = number then { a with node := some node } else a }
    return node

/-- The node of the latest anchor of a name. -/
def named (name : Bytes) : Read Node := do
  match (← get).anchors.find? (·.name = name) with
  | none => failure
  | some ⟨_, _, some node⟩ => return .alias name node
  | some ⟨number, _, none⟩ =>
    modify fun r => { r with looped := number :: r.looped }
    return .loop name number

/-- The name of an anchor that comes next. -/
def takeAnchor : Read (Option Bytes) := do
  match ← peek with
  | .anchor name =>
    skip
    return some name
  | _ => return none

/-- A tag that comes next, with its handle replaced by what that stands for. -/
def takeTag : Read (Option Bytes) := do
  match ← peek with
  | .tag handle suffix =>
    skip
    if handle = [] then return some suffix
    match (← get).handles.lookup handle with
    | some stem => return some (stem ++ suffix)
    | none => failure
  | _ => return none

/-- The anchor and the tag of a node, in either order. -/
def takeProperties : Read (Option Bytes × Option Bytes) := do
  let anchor ← takeAnchor
  let tag ← takeTag
  if anchor.isSome || tag.isNone then return (anchor, tag)
  return (← takeAnchor, tag)

/-! ### Nodes -/

mutual

/-- A node. Blocks are told by indentation where `block` holds; where `level` holds, a list may
    stand in the column of the keys around it. -/
def node : (fuel : Nat) → (block level : Bool) → Read Node
  | 0, _, _ => failure
  | fuel + 1, block, level => do
    match ← peek with
    | .alias name =>
      skip
      named name
    | _ =>
      let (anchor, tag) ← takeProperties
      let number ← declare anchor
      complete number
        (← content fuel block level (anchor.isSome || tag.isSome) (tag.filter (· ≠ bytes "!")))

/-- What a node holds. Only where it has an anchor or a tag may there be nothing. -/
def content : (fuel : Nat) → (block level marked : Bool) → (tag : Option Bytes) → Read Node
  | 0, _, _, _, _ => failure
  | fuel + 1, block, level, marked, tag => do
    let empty : Read Node := if marked then return .scalar tag true [] else failure
    match ← peek with
    | .scalar plain text =>
      skip
      return .scalar tag plain text
    | .openList =>
      skip
      .list <$> items fuel []
    | .openMap =>
      skip
      .map <$> pairs fuel []
    | .dash => if level then .list <$> levelEntries fuel [] else empty
    | .blockListStart =>
      if !block then empty
      else
        skip
        .list <$> entries fuel []
    | .blockMapStart =>
      if !block then empty
      else
        skip
        .map <$> members fuel []
    | _ => empty

/-- The items of a list in brackets. An item may be a single pair. -/
def items : (fuel : Nat) → (done : List Node) → Read (List Node)
  | 0, _ => failure
  | fuel + 1, done => do
    if !done.isEmpty && (← peek) ≠ .closeList then
      guard ((← peek) = .comma)
      skip
    match ← peek with
    | .closeList =>
      skip
      return done.reverse
    | .key =>
      skip
      items fuel (.map [← pair fuel] :: done)
    | _ => items fuel ((← node fuel false false) :: done)

/-- A pair that stands for an item of a list in brackets. Of a key that is missing, the token
    after it is skipped. -/
def pair : (fuel : Nat) → Read (Node × Node)
  | 0 => failure
  | fuel + 1 => do
    let ends (t : Token) : Bool := t = .comma || t = .closeList
    let t ← peek
    let key ←
      if t = .value || ends t then do
        skip
        pure .nothing
      else node fuel false false
    if (← peek) ≠ .value then return (key, .nothing)
    skip
    if ends (← peek) then return (key, .nothing)
    return (key, ← node fuel false false)

/-- The entries of a map in brackets. A key may stand without a value. -/
def pairs : (fuel : Nat) → (done : List (Node × Node)) → Read (List (Node × Node))
  | 0, _ => failure
  | fuel + 1, done => do
    let ends (t : Token) : Bool := t = .comma || t = .closeMap
    if !done.isEmpty && (← peek) ≠ .closeMap then
      guard ((← peek) = .comma)
      skip
    match ← peek with
    | .closeMap =>
      skip
      return done.reverse
    | .key =>
      skip
      let t ← peek
      let key ← if t = .value || ends t then pure .nothing else node fuel false false
      if (← peek) ≠ .value then pairs fuel ((key, .nothing) :: done)
      else
        skip
        if ends (← peek) then pairs fuel ((key, .nothing) :: done)
        else pairs fuel ((key, ← node fuel false false) :: done)
    | _ => pairs fuel ((← node fuel false false, .nothing) :: done)

/-- The entries of a list told by indentation. -/
def entries : (fuel : Nat) → (done : List Node) → Read (List Node)
  | 0, _ => failure
  | fuel + 1, done => do
    match ← peek with
    | .dash =>
      skip
      let t ← peek
      if t = .dash || t = .blockEnd then entries fuel (.nothing :: done)
      else entries fuel ((← node fuel true false) :: done)
    | .blockEnd =>
      skip
      return done.reverse
    | _ => failure

/-- The entries of a list in the column of the keys around it. -/
def levelEntries : (fuel : Nat) → (done : List Node) → Read (List Node)
  | 0, _ => failure
  | fuel + 1, done => do
    match ← peek with
    | .dash =>
      skip
      let t ← peek
      if t = .dash || t.endsMember then levelEntries fuel (.nothing :: done)
      else levelEntries fuel ((← node fuel true false) :: done)
    | _ => return done.reverse

/-- The entries of a map told by indentation. -/
def members : (fuel : Nat) → (done : List (Node × Node)) → Read (List (Node × Node))
  | 0, _ => failure
  | fuel + 1, done => do
    match ← peek with
    | .key =>
      skip
      let key ← if (← peek).endsMember then pure .nothing else node fuel true true
      if (← peek) ≠ .value then members fuel ((key, .nothing) :: done)
      else
        skip
        if (← peek).endsMember then members fuel ((key, .nothing) :: done)
        else members fuel ((key, ← node fuel true true) :: done)
    | .blockEnd =>
      skip
      return done.reverse
    | _ => failure

end

/-! ### Documents -/

/-- The handles that need no directive. -/
def commonHandles : List (Bytes × Bytes) :=
  [(bytes "!", bytes "!"), (bytes "!!", standardStem)]

/-- Directives up to the document they stand before. A version is given once and is 1.1; a handle
    is declared once. -/
def directives : (fuel : Nat) → (versioned : Bool) → Read Unit
  | 0, _ => failure
  | fuel + 1, versioned => do
    match ← peek with
    | .version major minor =>
      guard (!versioned && major = 1 && minor = 1)
      skip
      directives fuel true
    | .tagHandle handle stem =>
      guard ((← get).handles.lookup handle).isNone
      modify fun r => { r with handles := (handle, stem) :: r.handles }
      skip
      directives fuel versioned
    | _ => return

/-- The root of the first document. -/
def document (fuel : Nat) : Read Node := do
  guard ((← peek) = .streamStart)
  skip
  let first ← peek
  if first = .streamEnd then return .nothing
  directives fuel false
  modify fun r => { r with handles := r.handles ++ commonHandles }
  let root ←
    if !first.endsDocument || first = .documentEnd then node fuel true false
    else do
      guard ((← peek) = .documentStart)
      skip
      if (← peek).endsDocument then pure .nothing else node fuel true false
  let _ ← peek
  return root

end Read

/-- The root of the first document of a text. -/
def read? (text : Bytes) : Option Node := do
  let scan := Scan.start (← cells? text)
  let (root, _) ← (Read.document (4 * scan.bound)).run ⟨scan, [], [], []⟩
  return root

end KustoFacts.Yaml
