import Solfege.Music.Basic
import Solfege.Number.Arithmetic

/-! How far to transpose: a number of semitones, or a random number of them drawn once for a whole
phrase. Chance is a list of numbers taken in order. -/
namespace Solfege

/-- A source of chance: the numbers still to come and how many draws were made. Once the list is
used up every number is zero. -/
structure Chance where
  numbers : List Int
  draws : Nat

namespace Chance

def ofList (numbers : List Int) : Chance := ⟨numbers, 0⟩

/-- A whole number between two bounds, both included. -/
def draw (chance : Chance) (low high : Int) : Int × Chance :=
  (low + chance.numbers.headD 0 % (high - low + 1), ⟨chance.numbers.tail, chance.draws + 1⟩)

end Chance

inductive Transposition
  | random
  | semitones (n : Int)
deriving DecidableEq

namespace Transposition

/-- A transposition from what a caller hands over: the word random, or anything that is read as a
whole number. -/
def ofDatum : Datum → Except Fault Transposition
  | .text "random" => return .random
  | .text s => return .semitones (← Numeral.readInt s)
  | .number n => return .semitones (← n.toWhole)
  | other => throw (.notWhole other)

/-- The semitones of a transposition. Random ones lie between -5 and 6 and cost one draw. -/
def resolve (transposition : Transposition) (chance : Chance) : Int × Chance :=
  match transposition with
  | .random => chance.draw (-5) 6
  | .semitones n => (n, chance)

end Transposition
end Solfege
