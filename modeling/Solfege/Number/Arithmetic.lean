import Solfege.Binary64.Arithmetic
import Solfege.Fault
import Solfege.Numeral.Reader

/-! Arithmetic on numbers of mixed kinds. Whole numbers are exact among themselves; beside a real
they are first rounded to one, which fails for the largest. Order is always exact. -/
namespace Solfege

namespace Binary64

def truncated : Binary64 → Except Fault Int
  | .nan => throw .wholeOfNaN
  | .infinite _ => throw .wholeOfInfinity
  | .finite negative units _ => return signed negative (units / oneUnits)

/-- The whole number nearest to a real, a tie going to the even one. -/
def rounded : Binary64 → Except Fault Int
  | .nan => throw .wholeOfNaN
  | .infinite _ => throw .wholeOfInfinity
  | .finite negative units _ => return signed negative (nearest units oneUnits)

/-- The real nearest to a whole number that is not too large. -/
def ofWhole (n : Int) : Except Fault Binary64 :=
  if (ofInt n).isFinite then return ofInt n else throw .wholeTooLarge

end Binary64

namespace Number

def toReal : Number → Except Fault Binary64
  | .real x => return x
  | .whole n => Binary64.ofWhole n
  | .flag set => Binary64.ofWhole (if set then 1 else 0)

def toWhole : Number → Except Fault Int
  | .real x => x.truncated
  | .whole n => return n
  | .flag set => return if set then 1 else 0

/-- The strict order, exact between kinds. -/
def lt : Number → Number → Bool
  | .real x, .real y => x < y
  | .real (.infinite negative), _ => negative
  | _, .real (.infinite negative) => !negative
  | .real .nan, _ => false
  | _, .real .nan => false
  | .real (.finite s units _), y => Binary64.signed s units < y.whole?.getD 0 * Binary64.oneUnits
  | x, .real (.finite s units _) => x.whole?.getD 0 * Binary64.oneUnits < Binary64.signed s units
  | x, y => x.whole?.getD 0 < y.whole?.getD 0

def isPositiveOrNaN : Number → Bool
  | .real .nan => true
  | x => Number.lt 0 x

/-- The first of the smallest numbers; what is not a number never replaces another. -/
def least : Number → List Number → Number :=
  List.foldl fun best x => if x.lt best then x else best

/-- A difference, exact between whole numbers. -/
def sub (x y : Number) : Except Fault Number :=
  match x.whole?, y.whole? with
  | some a, some b => return .whole (a - b)
  | _, _ => return .real ((← x.toReal) - (← y.toReal))

def dividing (n : Int) : Number → Except Fault Binary64
  | .real x =>
    if x.compare? 0 = some .eq then throw .realByZero else return (← Binary64.ofWhole n) / x
  | x =>
    let d := x.whole?.getD 0
    if d = 0 then throw .wholeByZero
    else if (Binary64.ofRatio n d).isFinite then return .ofRatio n d
    else throw .quotientTooLarge

end Number
end Solfege
