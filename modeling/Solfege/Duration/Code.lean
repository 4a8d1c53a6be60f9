import Solfege.Numeral.Reader

/-! Duration codes: a count and a suffix. `2m` is two measures of four quarters, `8n` an eighth
note, `8n.` a dotted eighth, `8t` an eighth-note triplet, and `0` alone is no time at all. A code
denotes an exact number of quarters. -/
namespace Solfege.Duration

inductive Suffix
  | measures | plain | dotted | triplet
deriving DecidableEq

namespace Suffix

def toChars : Suffix → List Char
  | .measures => ['m']
  | .plain => ['n']
  | .dotted => ['n', '.']
  | .triplet => ['t']

def read? : List Char → Option Suffix
  | ['m'] => some .measures
  | ['n'] => some .plain
  | ['n', '.'] => some .dotted
  | ['t'] => some .triplet
  | _ => none

def quarters (count : Nat) : Suffix → Rat
  | .measures => count * 4
  | .plain => 4 / count
  | .dotted => 4 / count * (3 / 2)
  | .triplet => 4 / count * (2 / 3)

end Suffix

/-- The digits of the count and the suffix of a code: at least one digit, then a suffix and nothing
more. -/
def split? (code : List Char) : Option (List Char × Suffix) :=
  let ds := code.takeWhile Text.isDigit
  if ds.isEmpty then none
  else (Suffix.read? (code.dropWhile Text.isDigit)).map fun suffix => (ds, suffix)

/-- The exact number of quarters of a code. -/
def quarters (code : List Char) : Except Fault Rat :=
  if code = ['0'] then return 0
  else match split? code with
    | none => throw (.notDuration (String.ofList code))
    | some (ds, suffix) => do
      let count ← Numeral.ofDigits ds
      if count = 0 then throw (.zeroSubdivision (String.ofList code))
      else return suffix.quarters count

/-- Whether a text is a duration code. A count of too many digits leaves that open. -/
def isCode (text : String) : Except Fault Bool :=
  match quarters text.toList with
  | .ok _ => return true
  | .error (.tooManyDigits count?) => throw (.tooManyDigits count?)
  | .error _ => return false

end Solfege.Duration
