import Solfege.Numeral.Shortest

/-! How numbers are written. A whole number is written in all its digits, and not at all when these
are more than a set number. A real is written with the fewest digits that read back: with a point
and at least one digit on each side of it while its leading digit stands between 10^-4 and 10^15,
and with a signed exponent of at least two digits otherwise. A real can also be written with a set
number of places, its exact value rounded with ties to the even last digit. -/
namespace Solfege.Numeral
open Binary64

def digits (n : Nat) : List Char := Nat.toDigits 10 n

/-- The most digits in which a whole number is read or written. -/
def digitLimit : Nat := 4300

/-- A whole number as it is written; none when it has too many digits. A minus is no digit. -/
def whole? (n : Int) : Option String :=
  if (digits n.natAbs).length ≤ digitLimit then some (toString n) else none

def padZeros (width : Nat) (text : List Char) : List Char :=
  List.replicate (width - text.length) '0' ++ text

/-- Digits with the point after the first `point` of them, zeros filling both sides. -/
def positional (ds : List Char) (point : Int) : List Char :=
  if point ≤ 0 then '0' :: '.' :: (List.replicate (-point).toNat '0' ++ ds)
  else
    let whole := ds.take point.toNat
    let rest := ds.drop point.toNat
    whole ++ List.replicate (point.toNat - ds.length) '0' ++
      '.' :: (if rest.isEmpty then ['0'] else rest)

/-- Digits with a point after the first and an exponent of ten. -/
def scientific (ds : List Char) (exponent : Int) : List Char :=
  let rest := ds.drop 1
  ds.take 1 ++ (if rest.isEmpty then [] else '.' :: rest) ++
    'e' :: (if exponent < 0 then '-' else '+') :: padZeros 2 (digits exponent.natAbs)

/-- A decimal in the form its size calls for. -/
def natural (d : Decimal) : List Char :=
  let ds := digits d.digits
  let exponent := (ds.length : Int) + d.exponent - 1
  if -4 ≤ exponent ∧ exponent < 16 then positional ds (exponent + 1) else scientific ds exponent

def withSign (negative : Bool) (text : List Char) : List Char :=
  if negative then '-' :: text else text

def real : Binary64 → String
  | .nan => "nan"
  | .infinite negative => String.ofList (withSign negative ['i', 'n', 'f'])
  | .finite negative units _ =>
    String.ofList (withSign negative
      (if units = 0 then ['0', '.', '0'] else natural (shortest units)))

/-- A magnitude with a set number of places, at least one. -/
def fixedMagnitude (places units : Nat) : List Char :=
  let ds := padZeros (places + 1) (digits (nearest (units * Nat.pow 10 places) oneUnits))
  ds.take (ds.length - places) ++ '.' :: ds.drop (ds.length - places)

def fixed (places : Nat) : Binary64 → String
  | .finite negative units _ => String.ofList (withSign negative (fixedMagnitude places units))
  | x => real x

def alignRight (width : Nat) (text : String) : String :=
  String.ofList (List.replicate (width - text.length) ' ') ++ text

def alignLeft (width : Nat) (text : String) : String :=
  text ++ String.ofList (List.replicate (width - text.length) ' ')

end Solfege.Numeral
