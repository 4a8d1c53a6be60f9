import Solfege.Binary64.Basic

/-! The shortest decimal that reads back to a binary64 magnitude. The numbers that round to a
magnitude form an interval, closed when the magnitude is an even multiple of its spacing. The
decimal grids are tried from coarse to fine; the first one with a point in the interval next to
the magnitude gives the digits, the nearer of two such points wins, and a tie goes to the even
one. -/
namespace Solfege.Numeral
open Binary64

structure Decimal where
  digits : Nat
  exponent : Int
deriving DecidableEq

/-- The distance from a magnitude down to the end of its interval, in quarters of a unit: below a
power of two it is half of what it is elsewhere. -/
def gapBelow (units : Nat) : Nat :=
  if units = 1 <<< units.log2 ∧ 52 < units.log2 then spacing units else 2 * spacing units

/-- Whether a decimal lies among the numbers that round to a magnitude. Both are compared in
quarters of a unit. -/
def readsBack (units : Nat) (d : Decimal) : Bool :=
  let point := 4 * (d.digits * Nat.pow 10 d.exponent.toNat * oneUnits)
  let scale := Nat.pow 10 (-d.exponent).toNat
  let low := (4 * units - gapBelow units) * scale
  let high := (4 * units + 2 * spacing units) * scale
  if units / spacing units % 2 = 0 then low ≤ point && point ≤ high
  else low < point && point < high

/-- The point next to a magnitude on the grid of `10 ^ exponent` that reads back, if there is
one. -/
def onGrid? (units : Nat) (exponent : Int) : Option Decimal :=
  let num := units * Nat.pow 10 (-exponent).toNat
  let den := oneUnits * Nat.pow 10 exponent.toNat
  let below : Decimal := ⟨num / den, exponent⟩
  let above : Decimal := ⟨num / den + 1, exponent⟩
  match readsBack units below, readsBack units above with
  | true, true => some ⟨nearest num den, exponent⟩
  | true, false => some below
  | false, true => some above
  | false, false => none

/-- An exponent whose power of ten exceeds the magnitude. -/
def startExponent (units : Nat) : Int := ((units.log2 : Int) - 1073) * 30103 / 100000 + 2

/-- The shortest decimal that reads back. Seventeen digits always suffice; the exact value stands
behind the search so that no guess is ever returned. -/
def shortest (units : Nat) : Decimal :=
  ((List.range 20).findSome? fun (i : Nat) => onGrid? units (startExponent units - i)).getD
    ⟨units * Nat.pow 5 1074, -1074⟩

end Solfege.Numeral
