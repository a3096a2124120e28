import KustoFacts.Number.Power
import KustoFacts.Text.Letter
import KustoFacts.Text.Utf8

/-!
    The order of keys in a YAML map: as a reader would sort them, with numbers inside of keys
    compared by value. -/

namespace KustoFacts.KeyOrder

/-- A run of digits read onto a number; it wraps around at 64 bits. -/
def readRun (start : Int) (digits : List Nat) : Int :=
  digits.foldl (fun n (d : Nat) => wrapped (10 * n + ((d : Int) - 0x30))) start

/-- Whether the first of two keys comes before the second, where they differ in their first
    character. Of a letter and another character the other one comes first, unless the part they
    share ends in a digit. The shared part is given latest first: a digit other than zero at its
    end keeps the zeros of the two runs from being leading zeros. -/
def differing (shared : List Nat) (a : Nat) (as : List Nat) (b : Nat) (bs : List Nat) : Bool :=
  let nought := Char.toNat '0'
  if isLetterCode a && isLetterCode b then a < b
  else if isLetterCode a || isLetterCode b then
    if shared.head?.any isDigitCode then isLetterCode a else isLetterCode b
  else
    let start : Int :=
      if (a = nought || b = nought) && (shared.takeWhile isDigitCode).any (· ≠ nought) then 1 else 0
    let runA := (a :: as).takeWhile isDigitCode
    let runB := (b :: bs).takeWhile isDigitCode
    let m := readRun start runA
    let n := readRun start runB
    if m ≠ n then m < n
    else if runA.length ≠ runB.length then runA.length < runB.length
    else a < b

/-- Whether the first of two keys comes before the second, after a shared part given latest
    first. -/
def before (shared : List Nat) : List Nat → List Nat → Bool
  | _, [] => false
  | [], _ :: _ => true
  | a :: as, b :: bs => if a = b then before (a :: shared) as bs else differing shared a as b bs

/-- Entries in the order of their keys. -/
def sort {α : Type} (entries : List (Bytes × α)) : List (Bytes × α) :=
  entries.mergeSort fun x y => !before [] (Utf8.codes y.1) (Utf8.codes x.1)

end KustoFacts.KeyOrder
