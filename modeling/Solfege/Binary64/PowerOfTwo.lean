import Solfege.Binary64.Arithmetic

/-! Two to a binary64 power. The exponent is multiplied by the logarithm of two in two parts, and
the product is split into a whole number of 128ths of that logarithm and a small remainder. The
128ths give a power from a table of 128 correctly rounded powers, each with its own error; the
remainder gives a correction of degree five. All of this is binary64 arithmetic, so the last digit
of a power follows from the roundings on the way and not from the exact power. -/
namespace Solfege.Binary64

/-- The fixed-point denominator of the table, 2^200. -/
def seriesOne : Nat := 1 <<< 200

/-- The natural logarithm of two in fixed point, from the series of 1 / (n 2^n). -/
def logTwo : Nat :=
  ((List.range 210).map fun n => seriesOne / ((n + 1) <<< (n + 1))).foldr (· + ·) 0

/-- The partial sums of the exponential series of `x`: the term after `n` terms and the sum up to
it. -/
def exponential (x : Nat) : Nat → Nat × Nat
  | 0 => (seriesOne, seriesOne)
  | n + 1 =>
    let (term, sum) := exponential x n
    let next := term * x / ((n + 1) * seriesOne)
    (next, sum + next)

/-- Two to the power of a number of 128ths, in fixed point. -/
def fixedRoot (i : Nat) : Nat := (exponential (i * logTwo / 128) 50).2

/-- A power from the table: the value nearest to it, and what is missing as a share of the
value. -/
structure Root where
  value : Binary64
  rest : Binary64

def root (i : Nat) : Root :=
  let exact : Int := fixedRoot i <<< 874
  let units := roundUnits exact.toNat 1
  ⟨ofQuotient false units 1, ofQuotient (exact < units) ((exact - units).natAbs * oneUnits) units⟩

def dyadic (negative : Bool) (mantissa exponent : Nat) : Binary64 :=
  ofQuotient negative (mantissa * oneUnits) (1 <<< exponent)

/-- The logarithm of two, and what it lacks. -/
def logHigh : Binary64 := dyadic false 0x162e42fefa39ef 53

def logLow : Binary64 := dyadic false 0x1abc9e3b398000 108

/-- The number of 128ths of the logarithm of two in one. -/
def partsInOne : Binary64 := dyadic false 0x171547652b82fe 45

/-- A 128th of the logarithm of two with the sign turned, and what it lacks. -/
def partHigh : Binary64 := dyadic true 0x162e42fefa0000 60

def partLow : Binary64 := dyadic true 0x1cf79abc9e3b3a 99

/-- The exponential less one for a small `r`, to which a small amount is added on the way. -/
def correction (r rest : Binary64) : Binary64 :=
  let square := r * r
  let low := mulAdd r (dyadic false 0x1555555555543c 55) (dyadic false 0x1ffffffffffdbd 54)
  let high := mulAdd r (dyadic false 0x11111167a4d017 59) (dyadic false 0x155555cf172b91 57)
  mulAdd (square * square) high (mulAdd square low (rest + r))

/-- The whole number nearest to a product, an exact tie going to the even one; zero for what is
not finite. -/
def nearestProduct : Binary64 → Binary64 → Int
  | .finite s a _, .finite t b _ => signed (s ^^ t) (nearest (a * b) (oneUnits * oneUnits))
  | _, _ => 0

def shifted (x : Binary64) (exponent : Int) : Binary64 :=
  match x with
  | .finite s n _ => ofQuotient s (n <<< exponent.toNat) (1 <<< (-exponent).toNat)
  | _ => x

/-- A value below one, given with what it lacks, on the grid of the values just above one. -/
def onUnitGrid (x rest : Binary64) : Binary64 :=
  let above := 1 + x
  (above + ((1 - above + x) + rest)) - 1

/-- A small power: it is worked out 2^1022 times too large, the correction rounded on its own, and
is brought to the wider spacing of the smallest values before it is made small. -/
def smallPower (value : Binary64) (exponent : Int) (correction : Binary64) : Binary64 :=
  let large := shifted value (exponent + 1022)
  let added := large * correction
  let sum := large + added
  shifted (if sum < 1 then onUnitGrid sum ((large - sum) + added) else sum) (-1022)

/-- Two to the power of a value between -1100 and 1024. -/
def finitePower (x : Binary64) : Binary64 :=
  let high := x * logHigh
  let low := mulAdd x logLow (mulAdd x logHigh (-high))
  let parts := nearestProduct partsInOne high
  let count := ofInt parts
  let r := mulAdd count partLow (mulAdd count partHigh high) + low
  let root := root (parts % 128).toNat
  let added := correction r root.rest
  if high ≤ -512 then smallPower root.value (parts / 128) added
  else shifted (mulAdd root.value added root.value) (parts / 128)

/-- Two to the power `x`, or nothing when the result of a finite `x` is too large. Powers below
2^-1100 are zero. -/
def powerOfTwo? : Binary64 → Option Binary64
  | .nan => some .nan
  | .infinite negative => some (if negative then zero false else .infinite false)
  | .finite negative units representable =>
    let whole := signed negative units / oneUnits
    if 1024 ≤ whole then none
    else if whole < -1100 then some (zero false)
    else some (finitePower (.finite negative units representable))

end Solfege.Binary64
