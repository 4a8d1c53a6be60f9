/-! Binary64 values. A finite magnitude is a count of units of 2^-1074, the least positive value,
and is a multiple of the spacing at its size, so every value has exactly one form. An exact
quotient of naturals is rounded once, by `ofQuotient`, to the nearest grid point with ties to the
even multiple; every operation of the library on these values ends in that one rounding. -/
namespace Solfege

namespace Binary64

def oneUnits : Nat := 1 <<< 1074

/-- The first magnitude that no finite value reaches, 2^1024. -/
def limitUnits : Nat := 1 <<< 2098

/-- The distance between neighbouring magnitudes around `n` units: 53 significant bits, and one
unit for the small magnitudes. -/
def spacing (n : Nat) : Nat := 1 <<< (n.log2 - 52)

def Representable (n : Nat) : Prop := spacing n ∣ n ∧ n < limitUnits

instance (n : Nat) : Decidable (Representable n) := inferInstanceAs (Decidable (_ ∧ _))

/-- The natural number nearest to `num / den`, an exact tie going to the even neighbour. -/
def nearest (num den : Nat) : Nat :=
  let q := num / den
  let r := num % den
  if 2 * r < den ∨ (2 * r = den ∧ q % 2 = 0) then q else q + 1

/-- The grid point nearest to `num / den` units, before the upper limit is looked at. -/
def roundUnits (num den : Nat) : Nat :=
  nearest num (den * spacing (num / den)) * spacing (num / den)

theorem spacing_pos (n : Nat) : 0 < spacing n := by
  rw [spacing, Nat.one_shiftLeft]
  exact Nat.two_pow_pos _

theorem oneUnits_pos : 0 < oneUnits := by
  delta oneUnits
  rw [Nat.one_shiftLeft]
  apply Nat.two_pow_pos

theorem limitUnits_pos : 0 < limitUnits := by
  delta limitUnits
  rw [Nat.one_shiftLeft]
  apply Nat.two_pow_pos

theorem le_nearest (num den : Nat) : num / den ≤ nearest num den := by
  unfold nearest
  dsimp only
  split <;> omega

theorem nearest_le (num den : Nat) : nearest num den ≤ num / den + 1 := by
  unfold nearest
  dsimp only
  split <;> omega

/-- At most 2^53 steps of a power of two make a magnitude on the grid. -/
theorem spacing_dvd_shiftLeft {k : Nat} (hk : k ≤ 1 <<< 53) (e : Nat) :
    spacing (k <<< e) ∣ k <<< e := by
  rw [Nat.one_shiftLeft] at hk
  rw [spacing, Nat.one_shiftLeft, Nat.shiftLeft_eq]
  rcases Nat.eq_zero_or_pos k with rfl | pos
  · simp
  rcases Nat.lt_or_eq_of_le hk with lt | rfl
  · have size : k * 2 ^ e < 2 ^ (53 + e) := by
      rw [Nat.pow_add]
      exact Nat.mul_lt_mul_of_pos_right lt (Nat.pow_pos (by decide))
    have ne : k * 2 ^ e ≠ 0 := Nat.ne_of_gt (Nat.mul_pos pos (Nat.pow_pos (by decide)))
    have bits := (Nat.log2_lt ne).mpr size
    exact Nat.dvd_trans (Nat.pow_dvd_pow 2 (by omega)) (Nat.dvd_mul_left _ _)
  · rw [← Nat.pow_add, Nat.log2_two_pow]
    exact Nat.pow_dvd_pow 2 (by omega)

theorem spacing_dvd_roundUnits (num den : Nat) :
    spacing (roundUnits num den) ∣ roundUnits num den := by
  have step : roundUnits num den =
      nearest num (den * spacing (num / den)) <<< ((num / den).log2 - 52) := by
    rw [Nat.shiftLeft_eq, ← Nat.one_shiftLeft]
    rfl
  rw [step]
  refine spacing_dvd_shiftLeft ?_ _
  refine Nat.le_trans (nearest_le _ _) ?_
  rw [← Nat.div_div_eq_div_mul]
  refine Nat.div_lt_of_lt_mul ?_
  refine Nat.lt_of_lt_of_le (Nat.lt_log2_self (n := num / den)) ?_
  rw [spacing, Nat.one_shiftLeft, Nat.one_shiftLeft, ← Nat.pow_add]
  exact Nat.pow_le_pow_right (by decide) (by omega)

theorem representable_zero : Representable 0 := ⟨Nat.dvd_zero _, limitUnits_pos⟩

end Binary64

open Binary64 in
/-- A binary64 value: not a number, a signed infinity, or a signed count of units. Zero has a
sign. -/
inductive Binary64
  | nan
  | infinite (negative : Bool)
  | finite (negative : Bool) (units : Nat) (representable : Representable units)
deriving DecidableEq

namespace Binary64

def zero (negative : Bool) : Binary64 := .finite negative 0 representable_zero

/-- The value nearest to `num / den` units with the given sign. A magnitude that rounds to 2^1024
or more is infinite. -/
def ofQuotient (negative : Bool) (num den : Nat) : Binary64 :=
  if h : roundUnits num den < limitUnits then
    .finite negative (roundUnits num den) ⟨spacing_dvd_roundUnits num den, h⟩
  else .infinite negative

/-- The value nearest to a whole number. -/
def ofInt (n : Int) : Binary64 := ofQuotient (n < 0) (n.natAbs * oneUnits) 1

/-- The value nearest to the exact quotient of two whole numbers, the second not zero. A zero
quotient has the sign that the operands' signs give. -/
def ofRatio (num den : Int) : Binary64 :=
  ofQuotient ((num < 0) ^^ (den < 0)) (num.natAbs * oneUnits) den.natAbs

/-- The value nearest to `digits * 10 ^ exponent`. Beyond 10^400 nothing is finite, and below
2^-1100 everything rounds to zero, so neither end builds a large power. -/
def ofDecimal (negative : Bool) (digits : Nat) (exponent : Int) : Binary64 :=
  if digits = 0 then zero negative
  else if 400 < exponent then .infinite negative
  else if digits.log2 + 1100 < 3 * (-exponent) then zero negative
  else ofQuotient negative (digits * Nat.pow 10 exponent.toNat * oneUnits)
    (Nat.pow 10 (-exponent).toNat)

instance (n : Nat) : OfNat Binary64 n := ⟨ofInt n⟩

instance : OfScientific Binary64 where
  ofScientific digits below places := ofDecimal false digits (if below then -places else places)

def isFinite : Binary64 → Bool
  | .finite .. => true
  | _ => false

def isNaN : Binary64 → Bool
  | .nan => true
  | _ => false

def signed (negative : Bool) (units : Nat) : Int := if negative then -units else units

/-- The place of a value in the order: its signed units, with the infinities beyond every finite
value and no place for what is not a number. The two zeros share a place. -/
def rank? : Binary64 → Option Int
  | .nan => none
  | .infinite negative => some (signed negative limitUnits)
  | .finite negative units _ => some (signed negative units)

/-- Compares by rank; what is not a number compares with nothing. -/
def compare? (x y : Binary64) : Option Ordering := do
  let a ← x.rank?
  let b ← y.rank?
  return compare a b

instance : LT Binary64 := ⟨fun x y => x.compare? y = some .lt⟩
instance : LE Binary64 := ⟨fun x y => x.compare? y = some .lt ∨ x.compare? y = some .eq⟩

instance (x y : Binary64) : Decidable (x < y) :=
  inferInstanceAs (Decidable (x.compare? y = some .lt))
instance (x y : Binary64) : Decidable (x ≤ y) := inferInstanceAs (Decidable (_ ∨ _))

end Binary64
end Solfege
