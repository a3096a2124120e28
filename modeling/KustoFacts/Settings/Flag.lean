import KustoFacts.Duration
import KustoFacts.Number.Integer
import KustoFacts.Text.Quoted

/-!
    Flags on a command line. A flag has a long name after two hyphens and may have a letter after
    one; letters can be run together. A value follows an equals sign, directly the letter, or as
    the next argument. Flags and other arguments may be mixed; two hyphens alone end the flags. -/

namespace KustoFacts

/-- What a flag takes. -/
inductive FlagKind where
  | text
  | int
  | duration
  | switch
  deriving DecidableEq, Repr

/-- A flag. The default is what the help shows, not a value. -/
structure Flag where
  name : String
  letter : Option Char
  kind : FlagKind
  usage : String
  default : Option String
  deriving DecidableEq, Repr

/-- The value given to a flag. -/
inductive FlagValue where
  | text (t : Bytes)
  | int (n : Int)
  | duration (d : Duration)
  | switch (b : Bool)
  deriving DecidableEq, Repr

/-- Why arguments cannot be read. -/
inductive FlagError where
  | malformed (argument : Bytes)
  | unknown (name : Bytes)
  | unknownLetter (letter : UInt8) (group : Bytes)
  | needsValue (name : Bytes)
  | letterNeedsValue (letter : UInt8) (group : Bytes)
  | invalid (flag : Flag) (value why : Bytes)
  | helpRequested
  deriving DecidableEq, Repr

namespace Flag

/-- How messages name a flag. -/
def label (f : Flag) : Bytes :=
  match f.letter with
  | some c => bytes "-" ++ [byteOf c] ++ bytes ", --" ++ bytes f.name
  | none => bytes "--" ++ bytes f.name

end Flag

/-- The wording of an error. A letter outside of ASCII is shown by the first byte of its own
    spelling. -/
def FlagError.message : FlagError → Bytes
  | .malformed argument => bytes "bad flag syntax: " ++ argument
  | .unknown name => bytes "unknown flag: --" ++ name
  | .unknownLetter letter group =>
    bytes "unknown shorthand flag: " ++
      Quoted.byte ((Utf8.encode letter.toNat).headD letter) ++ bytes " in -" ++ group
  | .needsValue name => bytes "flag needs an argument: --" ++ name
  | .letterNeedsValue letter group =>
    bytes "flag needs an argument: " ++ Quoted.byte letter ++ bytes " in -" ++ group
  | .invalid flag value why =>
    bytes "invalid argument " ++ Quoted.text value ++ bytes " for " ++ Quoted.text flag.label ++
      bytes " flag: " ++ why
  | .helpRequested => bytes "pflag: help requested"

/-! ### Values -/

/-- The truth value that a text spells. -/
def truth? (text : Bytes) : Option Bool :=
  if ["1", "t", "T", "TRUE", "true", "True"].any fun s => bytes s = text then some true
  else if ["0", "f", "F", "FALSE", "false", "False"].any fun s => bytes s = text then some false
  else none

/-- The complaint about a text that a reader refuses. -/
def refusal (reader : String) (text why : Bytes) : Bytes :=
  bytes "strconv." ++ bytes reader ++ bytes ": parsing " ++ Quoted.text text ++ bytes ": " ++ why

/-- The value of a kind that a text spells, or the complaint. -/
def FlagKind.read (kind : FlagKind) (text : Bytes) : Except Bytes FlagValue :=
  match kind with
  | .text => .ok (.text text)
  | .int =>
    match Spelling.literal.signed text with
    | .ok n => .ok (.int n)
    | .error e => .error (refusal "ParseInt" text e.message)
  | .duration =>
    match Duration.read text with
    | .ok d => .ok (.duration d)
    | .error e => .error (Duration.faultMessage text e)
  | .switch =>
    match truth? text with
    | some b => .ok (.switch b)
    | none => .error (refusal "ParseBool" text IntegerFault.malformed.message)

/-! ### Arguments -/

/-- What arguments say: the flags given, latest first, and the other arguments, latest first. -/
structure Arguments where
  given : List (String × FlagValue)
  others : List Bytes
  deriving DecidableEq, Repr

namespace Arguments

/-- Nothing was said. -/
def empty : Arguments := ⟨[], []⟩

/-- The value last given to a flag. -/
def get? (a : Arguments) (name : String) : Option FlagValue := a.given.lookup name

/-- The text last given to a flag; nothing if there is none. -/
def text (a : Arguments) (name : String) : Bytes :=
  match a.get? name with
  | some (.text t) => t
  | _ => []

/-- Whether a switch was last set. -/
def isSet (a : Arguments) (name : String) : Bool := a.get? name = some (.switch true)

/-- A value given to a flag. -/
def give (a : Arguments) (flag : Flag) (value : Bytes) : Except FlagError Arguments :=
  match flag.kind.read value with
  | .ok v => .ok { a with given := (flag.name, v) :: a.given }
  | .error why => .error (.invalid flag value why)

/-- The value of a flag that none is written for; only switches have one. -/
def impliedValue? (flag : Flag) : Option Bytes :=
  if flag.kind = .switch then some (bytes "true") else none

/-- Reads an argument with a long name, `next` being the argument after it; tells also whether that
    was taken as the value. -/
def readLong (flags : List Flag) (a : Arguments) (argument : Bytes) (next : Option Bytes) :
    Except FlagError (Arguments × Bool) := do
  let body := argument.drop 2
  let name := body.takeWhile (· ≠ byteOf '=')
  if name.isEmpty || name.head? = some (byteOf '-') then throw (.malformed argument)
  let some flag := flags.find? fun f => bytes f.name = name
    | throw (if name = bytes "help" then .helpRequested else .unknown name)
  match body.dropWhile (· ≠ byteOf '=') with
  | _ :: value => return (← a.give flag value, false)
  | [] =>
    match impliedValue? flag, next with
    | some value, _ => return (← a.give flag value, false)
    | none, some value => return (← a.give flag value, true)
    | none, none => throw (.needsValue name)

/-- Reads letters that were run together. From `test.` on they are passed over. -/
def readLetters (flags : List Flag) (next : Option Bytes) :
    Arguments → Bytes → Except FlagError (Arguments × Bool)
  | a, [] => .ok (a, false)
  | a, c :: rest =>
    match flags.find? fun f => f.letter.any fun l => byteOf l = c with
    | none =>
      if Bytes.beginsWith (c :: rest) (bytes "test.") then .ok (a, false)
      else if c = byteOf 'h' then .error .helpRequested
      else .error (.unknownLetter c (c :: rest))
    | some flag =>
      let give (value : Bytes) (taken : Bool) : Except FlagError (Arguments × Bool) :=
        (a.give flag value).map fun a => (a, taken)
      match rest with
      | e :: v :: value =>
        if e = byteOf '=' then give (v :: value) false
        else
          match impliedValue? flag with
          | some implied =>
            match a.give flag implied with
            | .ok a => readLetters flags next a rest
            | .error e => .error e
          | none => give rest false
      | [_] | [] =>
        match impliedValue? flag with
        | some implied =>
          match a.give flag implied with
          | .ok a => readLetters flags next a rest
          | .error e => .error e
        | none =>
          if !rest.isEmpty then give rest false
          else
            match next with
            | some value => give value true
            | none => .error (.letterNeedsValue c (c :: rest))

/-- Reads an argument that begins with a hyphen. -/
def readFlag (flags : List Flag) (a : Arguments) (argument : Bytes) (next : Option Bytes) :
    Except FlagError (Arguments × Bool) :=
  if argument.beginsWith (bytes "--") then readLong flags a argument next
  else readLetters flags next a (argument.drop 1)

/-- Reads all arguments. -/
def readAll (flags : List Flag) : Arguments → List Bytes → Except FlagError Arguments
  | a, [] => .ok a
  | a, argument :: rest =>
    if argument = bytes "--" then .ok { a with others := rest.reverse ++ a.others }
    else if argument.length < 2 || argument.head? ≠ some (byteOf '-') then
      readAll flags { a with others := argument :: a.others } rest
    else
      match rest with
      | [] => (readFlag flags a argument none).map (·.1)
      | next :: rest' =>
        match readFlag flags a argument (some next) with
        | .error e => .error e
        | .ok (a, true) => readAll flags a rest'
        | .ok (a, false) => readAll flags a (next :: rest')

end Arguments
end KustoFacts
