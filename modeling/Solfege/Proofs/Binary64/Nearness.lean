import Mathlib.Algebra.Order.Floor.Semifield
import Mathlib.Data.Rat.Floor
import Mathlib.Tactic.FieldSimp
import Mathlib.Tactic.GCongr
import Mathlib.Tactic.Linarith
import Mathlib.Tactic.NormNum
import Mathlib.Tactic.Positivity
import Mathlib.Tactic.Ring
import Solfege.Number.Arithmetic
import Solfege.Proofs.Binary64.Rounding

/-! How far rounding moves a value. One rounding changes a value of ordinary size by a factor
between `1 / (1 + 2 ^ -53)` and `1 + 2 ^ -53`, and along a chain of products and quotients the
factors multiply. -/
namespace Solfege.Binary64
variable {m n num den : ℕ}

/-! One rounding, in units. -/

theorem nearest_mul_le_add (num den : ℕ) : 2 * (nearest num den * den) ≤ 2 * num + den := by
  have whole := Nat.div_add_mod num den
  unfold nearest
  dsimp only
  rw [Nat.mul_comm] at whole
  split
  · omega
  · rw [Nat.add_mul, Nat.one_mul]
    omega

theorem le_nearest_mul_add (num : ℕ) (pos : 0 < den) :
    2 * num ≤ 2 * (nearest num den * den) + den := by
  have whole := Nat.div_add_mod num den
  have rest := Nat.mod_lt num pos
  unfold nearest
  dsimp only
  rw [Nat.mul_comm] at whole
  split
  · omega
  · rw [Nat.add_mul, Nat.one_mul]
    omega

/-- Where there are 53 significant bits, the spacing is small beside the value. -/
theorem spacing_mul_le (normal : 2 ^ 52 ≤ n) : 2 ^ 52 * spacing n ≤ n := by
  have positive : n ≠ 0 := by
    rintro rfl
    exact absurd normal (by decide)
  have size : 52 ≤ n.log2 := (Nat.le_log2 positive).mpr normal
  rw [spacing, Nat.one_shiftLeft, ← Nat.pow_add, Nat.add_sub_cancel' size]
  exact Nat.log2_self_le positive

theorem roundUnits_mul_le (normal : 2 ^ 52 ≤ num / den) :
    2 ^ 53 * (roundUnits num den * den) ≤ (2 ^ 53 + 1) * num := by
  have near := nearest_mul_le_add num (den * spacing (num / den))
  have small : 2 ^ 52 * (den * spacing (num / den)) ≤ num := by
    rw [Nat.mul_left_comm]
    exact (Nat.mul_le_mul_left den (spacing_mul_le normal)).trans (Nat.mul_div_le num den)
  rw [roundUnits, Nat.mul_assoc, Nat.mul_comm (spacing _) den]
  omega

theorem le_roundUnits_mul (pos : 0 < den) (normal : 2 ^ 52 ≤ num / den) :
    2 ^ 53 * num ≤ (2 ^ 53 + 1) * (roundUnits num den * den) := by
  have step : 0 < den * spacing (num / den) := Nat.mul_pos pos (spacing_pos _)
  have near := le_nearest_mul_add num step
  -- The rounded value keeps the leading power of two, so it too has 53 bits.
  have large : 2 ^ 52 ≤ nearest num (den * spacing (num / den)) := by
    refine Nat.le_trans ?_ (le_nearest num _)
    rw [← Nat.div_div_eq_div_mul]
    exact (Nat.le_div_iff_mul_le (spacing_pos _)).mpr (spacing_mul_le normal)
  have small := Nat.mul_le_mul_right (den * spacing (num / den)) large
  rw [roundUnits, Nat.mul_assoc, Nat.mul_comm (spacing _) den]
  omega

/-! Chains of roundings. -/

/-- What one rounding at most multiplies or divides by. -/
def slack : ℚ := 1 + 1 / 2 ^ 53

theorem slack_pos : 0 < slack := by
  norm_num [slack]

theorem one_le_slack : 1 ≤ slack := by
  norm_num [slack]

/-- Two rationals lie no more than a number of roundings apart. -/
structure Within (n : ℕ) (a b : ℚ) : Prop where
  le : a ≤ b * slack ^ n
  ge : b ≤ a * slack ^ n

namespace Within
variable {a b c d : ℚ}

theorem refl (a : ℚ) : Within 0 a a := by
  constructor <;> simp

theorem symm (near : Within n a b) : Within n b a := ⟨near.ge, near.le⟩

theorem trans (first : Within m a b) (second : Within n b c) : Within (n + m) a c := by
  have grow := pow_pos slack_pos
  constructor
  · calc a ≤ b * slack ^ m := first.le
      _ ≤ c * slack ^ n * slack ^ m := mul_le_mul_of_nonneg_right second.le (grow m).le
      _ = c * slack ^ (n + m) := by rw [pow_add, mul_assoc]
  · calc c ≤ b * slack ^ n := second.ge
      _ ≤ a * slack ^ m * slack ^ n := mul_le_mul_of_nonneg_right first.ge (grow n).le
      _ = a * slack ^ (n + m) := by rw [Nat.add_comm, pow_add, mul_assoc]

theorem mul (first : Within m a b) (second : Within n c d) (ha : 0 ≤ a) (hb : 0 ≤ b) (hc : 0 ≤ c)
    (hd : 0 ≤ d) : Within (m + n) (a * c) (b * d) := by
  have grow := pow_pos slack_pos
  constructor
  · calc a * c ≤ b * slack ^ m * (d * slack ^ n) :=
        mul_le_mul first.le second.le hc (mul_nonneg hb (grow m).le)
      _ = b * d * slack ^ (m + n) := by rw [pow_add]; ring
  · calc b * d ≤ a * slack ^ m * (c * slack ^ n) :=
        mul_le_mul first.ge second.ge hd (mul_nonneg ha (grow m).le)
      _ = a * c * slack ^ (m + n) := by rw [pow_add]; ring

theorem inv (near : Within n a b) (ha : 0 < a) (hb : 0 < b) : Within n a⁻¹ b⁻¹ := by
  constructor
  · rw [inv_mul_eq_div, le_div_iff₀ hb, inv_mul_eq_div, div_le_iff₀ ha, mul_comm]
    exact near.ge
  · rw [inv_mul_eq_div, le_div_iff₀ ha, inv_mul_eq_div, div_le_iff₀ hb, mul_comm]
    exact near.le

theorem div (first : Within m a b) (second : Within n c d) (ha : 0 ≤ a) (hb : 0 ≤ b) (hc : 0 < c)
    (hd : 0 < d) : Within (m + n) (a / c) (b / d) := by
  rw [div_eq_mul_inv, div_eq_mul_inv]
  exact first.mul (second.inv hc hd) ha hb (inv_nonneg.mpr hc.le) (inv_nonneg.mpr hd.le)

end Within

/-- A few roundings do not double a value. -/
theorem slack_pow_le_two (few : n ≤ 16) : slack ^ n ≤ 2 := by
  calc slack ^ n ≤ slack ^ 16 := pow_le_pow_right₀ one_le_slack few
    _ ≤ 2 := by norm_num [slack]

/-! Values near a rational. -/

theorem pow_le_oneUnits : 2 ^ 153 ≤ oneUnits := by decide +kernel

theorem mul_oneUnits_lt : 2 ^ 102 * oneUnits < limitUnits := by decide +kernel

/-- Zero or of a size far from the ends of the grid. -/
def Ordinary (q : ℚ) : Prop := q = 0 ∨ 1 ≤ q * 2 ^ 100 ∧ q ≤ 2 ^ 100

theorem Ordinary.nonneg {q : ℚ} (size : Ordinary q) : 0 ≤ q := by
  rcases size with rfl | ⟨large, _⟩
  · exact le_refl 0
  · by_contra negative
    have := mul_neg_of_neg_of_pos (not_le.mp negative) (by positivity : (0 : ℚ) < 2 ^ 100)
    linarith

/-- A value that is not negative and at most a number of roundings away from a rational. -/
def Near (n : ℕ) (x : Binary64) (q : ℚ) : Prop :=
  ∃ units representable, x = .finite false units representable ∧ Within n (units / oneUnits) q

/-- The rounding of a quotient with 53 significant bits. -/
theorem within_roundUnits (pos : 0 < den) (normal : 2 ^ 52 ≤ num / den) :
    Within 1 (roundUnits num den) (num / den) := by
  have dens : (0 : ℚ) < den := Nat.cast_pos.mpr pos
  have above : (2 : ℚ) ^ 53 * (roundUnits num den * den) ≤ (2 ^ 53 + 1) * num :=
    mod_cast roundUnits_mul_le normal
  have below : (2 : ℚ) ^ 53 * num ≤ (2 ^ 53 + 1) * (roundUnits num den * den) :=
    mod_cast le_roundUnits_mul pos normal
  constructor
  · rw [pow_one, div_mul_eq_mul_div, le_div_iff₀ dens, slack]
    linarith
  · rw [pow_one, div_le_iff₀ dens, slack]
    linarith

theorem ofQuotient_eq {c : ℕ} (negative : Bool) (same : roundUnits num den = c)
    (grid : Representable c) : ofQuotient negative num den = .finite negative c grid := by
  subst same
  exact dif_pos grid.2

/-- What is near an ordinary rational has 53 significant bits. -/
theorem normal_of_within {q : ℚ} (pos : 0 < den) (near : Within n (num / den / oneUnits) q)
    (few : n ≤ 16) (large : 1 ≤ q * 2 ^ 100) : 2 ^ 52 ≤ num / den := by
  have one : (0 : ℚ) < oneUnits := Nat.cast_pos.mpr oneUnits_pos
  have dens : (0 : ℚ) < den := Nat.cast_pos.mpr pos
  have units : (2 : ℚ) ^ 153 ≤ oneUnits := mod_cast pow_le_oneUnits
  have atLeast : 1 ≤ num / den / oneUnits * (2 : ℚ) ^ 101 := by
    have grow := near.ge
    have two := slack_pow_le_two few
    have nonneg : (0 : ℚ) ≤ num / den / oneUnits :=
      div_nonneg (div_nonneg (Nat.cast_nonneg _) dens.le) one.le
    generalize (num / den / oneUnits : ℚ) = r at *
    calc 1 ≤ q * 2 ^ 100 := large
      _ ≤ r * slack ^ n * 2 ^ 100 := by gcongr
      _ ≤ r * 2 * 2 ^ 100 := by gcongr
      _ = r * 2 ^ 101 := by ring
  rw [div_mul_eq_mul_div, one_le_div one, div_mul_eq_mul_div, le_div_iff₀ dens] at atLeast
  have enough : (2 : ℚ) ^ 52 * den ≤ num := by
    refine le_of_mul_le_mul_right ?_ (by positivity : (0 : ℚ) < 2 ^ 101)
    calc (2 : ℚ) ^ 52 * (den : ℚ) * 2 ^ 101 = (2 : ℚ) ^ 153 * (den : ℚ) := by ring
      _ ≤ (oneUnits : ℚ) * (den : ℚ) := mul_le_mul_of_nonneg_right units dens.le
      _ ≤ (num : ℚ) * 2 ^ 101 := atLeast
  exact (Nat.le_div_iff_mul_le pos).mpr (mod_cast enough)

/-- What is near an ordinary rational is not too large. -/
theorem below_of_within {units : ℕ} {q : ℚ} (near : Within n (units / oneUnits) q) (few : n ≤ 17)
    (small : q ≤ 2 ^ 100) : units < limitUnits := by
  have one : (0 : ℚ) < oneUnits := Nat.cast_pos.mpr oneUnits_pos
  have grow : slack ^ n ≤ 4 := by
    calc slack ^ n ≤ slack ^ 17 := pow_le_pow_right₀ one_le_slack few
      _ ≤ 4 := by norm_num [slack]
  have atMost : (units / oneUnits : ℚ) ≤ 2 ^ 102 :=
    calc (units / oneUnits : ℚ) ≤ q * slack ^ n := near.le
      _ ≤ 2 ^ 100 * 4 := mul_le_mul small grow (pow_pos slack_pos n).le (by positivity)
      _ = 2 ^ 102 := by norm_num
  rw [div_le_iff₀ one] at atMost
  have whole : units ≤ 2 ^ 102 * oneUnits := mod_cast atMost
  exact Nat.lt_of_le_of_lt whole mul_oneUnits_lt

/-- One more rounding is made in finding the value nearest to a quotient. -/
theorem near_ofQuotient {q : ℚ} (pos : 0 < den) (near : Within n (num / den / oneUnits) q)
    (few : n ≤ 16) (size : Ordinary q) : Near (n + 1) (ofQuotient false num den) q := by
  have one : (0 : ℚ) < oneUnits := Nat.cast_pos.mpr oneUnits_pos
  have dens : (0 : ℚ) < den := Nat.cast_pos.mpr pos
  rcases size with rfl | ⟨large, small⟩
  · have none : num = 0 := by
      have atMost := near.le
      rw [zero_mul] at atMost
      by_contra nonzero
      have : (0 : ℚ) < num := Nat.cast_pos.mpr (Nat.pos_of_ne_zero nonzero)
      exact absurd (div_pos (div_pos this dens) one) (not_lt.mpr atMost)
    subst none
    refine ⟨0, representable_zero, ofQuotient_eq false (roundUnits_zero den) _, ?_⟩
    constructor <;> simp
  · have rounded := within_roundUnits pos (normal_of_within pos near few large)
    have within : Within (n + 1) (roundUnits num den / oneUnits) q := by
      have scaled := rounded.div (Within.refl (oneUnits : ℚ)) (Nat.cast_nonneg _)
        (div_nonneg (Nat.cast_nonneg _) dens.le) one one
      exact scaled.trans near
    have grid : Representable (roundUnits num den) :=
      ⟨spacing_dvd_roundUnits num den, below_of_within within (by omega) small⟩
    exact ⟨_, grid, ofQuotient_eq false rfl grid, within⟩

theorem Near.mul {x y : Binary64} {p q : ℚ} (first : Near m x p) (second : Near n y q)
    (few : m + n ≤ 16) (hp : 0 ≤ p) (hq : 0 ≤ q) (size : Ordinary (p * q)) :
    Near (m + n + 1) (x * y) (p * q) := by
  obtain ⟨a, ha, rfl, hx⟩ := first
  obtain ⟨b, hb, rfl, hy⟩ := second
  have one : (0 : ℚ) < oneUnits := Nat.cast_pos.mpr oneUnits_pos
  refine near_ofQuotient oneUnits_pos ?_ few size
  rw [Nat.cast_mul, mul_div_assoc, mul_div_right_comm]
  exact hx.mul hy (div_nonneg (Nat.cast_nonneg _) one.le) hp
    (div_nonneg (Nat.cast_nonneg _) one.le) hq

theorem Near.isFinite {x : Binary64} {q : ℚ} (near : Near n x q) : x.isFinite = true := by
  obtain ⟨units, representable, rfl, _⟩ := near
  rfl

theorem Near.nonneg {x : Binary64} {q : ℚ} (near : Near n x q) : 0 ≤ x := by
  obtain ⟨units, representable, rfl, _⟩ := near
  rw [zero_eq]
  exact le_iff.mpr ⟨0, units, rfl, rfl, Int.natCast_nonneg _⟩

/-- A value near something positive is positive. -/
theorem Near.pos {x : Binary64} {q : ℚ} (near : Near n x q) (positive : 0 < q) : 0 < x := by
  obtain ⟨units, representable, rfl, within⟩ := near
  refine pos_finite.mpr ⟨rfl, Nat.pos_of_ne_zero ?_⟩
  rintro rfl
  have atMost := within.ge
  rw [Nat.cast_zero, zero_div, zero_mul] at atMost
  exact absurd positive (not_lt.mpr atMost)

theorem Near.div {x y : Binary64} {p q : ℚ} (first : Near m x p) (second : Near n y q)
    (few : m + n ≤ 16) (hp : 0 ≤ p) (hq : 0 < q) (size : Ordinary (p / q)) :
    Near (m + n + 1) (x / y) (p / q) := by
  obtain ⟨a, ha, rfl, hx⟩ := first
  obtain ⟨b, hb, rfl, hy⟩ := second
  have one : (0 : ℚ) < oneUnits := Nat.cast_pos.mpr oneUnits_pos
  have positive : 0 < b := (pos_finite.mp (Near.pos ⟨b, hb, rfl, hy⟩ hq)).2
  have quotient : finite false a ha / finite false b hb = ofQuotient false (a * oneUnits) b :=
    if_neg positive.ne'
  rw [quotient]
  refine near_ofQuotient positive ?_ few size
  have same : ((a * oneUnits : ℕ) / b / oneUnits : ℚ) = a / oneUnits / (b / oneUnits) := by
    rw [Nat.cast_mul]
    field_simp
  rw [same]
  exact hx.div hy (div_nonneg (Nat.cast_nonneg _) one.le) hp
    (div_pos (Nat.cast_pos.mpr positive) one) hq

/-- A value is cut down to the whole number below it. -/
theorem Near.truncated {x : Binary64} {q : ℚ} (near : Near n x q) :
    ∃ v, 0 ≤ v ∧ Within n v q ∧ x.truncated = .ok ⌊v⌋₊ := by
  obtain ⟨units, representable, rfl, within⟩ := near
  refine ⟨units / oneUnits, div_nonneg (Nat.cast_nonneg _) (Nat.cast_nonneg _), within, ?_⟩
  rw [Nat.floor_div_eq_div]
  rfl

/-! Whole numbers below rationals that are a few roundings apart. -/

theorem slack_pow_le (few : n ≤ 7) : slack ^ n ≤ 1 + 1 / 2 ^ 50 := by
  calc slack ^ n ≤ slack ^ 7 := pow_le_pow_right₀ one_le_slack few
    _ ≤ 1 + 1 / 2 ^ 50 := by norm_num [slack]

theorem Within.floor_le {v w : ℚ} (near : Within n v w) (few : n ≤ 7) (hv : 0 ≤ v) (hw : 0 ≤ w) :
    2 ^ 50 * ⌊v⌋₊ ≤ 2 ^ 50 * ⌊w⌋₊ + 2 ^ 50 + ⌊w⌋₊ := by
  have below : (⌊v⌋₊ : ℚ) < (⌊w⌋₊ + 1) * (1 + 1 / 2 ^ 50) :=
    calc (⌊v⌋₊ : ℚ) ≤ v := Nat.floor_le hv
      _ ≤ w * slack ^ n := near.le
      _ ≤ w * (1 + 1 / 2 ^ 50) := mul_le_mul_of_nonneg_left (slack_pow_le few) hw
      _ < (⌊w⌋₊ + 1) * (1 + 1 / 2 ^ 50) :=
        mul_lt_mul_of_pos_right (Nat.lt_floor_add_one w) (by norm_num)
  have scaled : (2 ^ 50 * ⌊v⌋₊ : ℚ) < 2 ^ 50 * ⌊w⌋₊ + 2 ^ 50 + ⌊w⌋₊ + 1 := by linarith
  have whole : 2 ^ 50 * ⌊v⌋₊ < 2 ^ 50 * ⌊w⌋₊ + 2 ^ 50 + ⌊w⌋₊ + 1 := mod_cast scaled
  omega

/-- They differ by one, and by the share that the roundings make up of them. -/
theorem Within.floors {v w : ℚ} (near : Within n v w) (few : n ≤ 7) (hv : 0 ≤ v) (hw : 0 ≤ w) :
    2 ^ 50 * |(⌊v⌋₊ : Int) - ⌊w⌋₊| ≤ 2 ^ 50 + ⌊w⌋₊ := by
  have up := near.floor_le few hv hw
  have down := near.symm.floor_le few hw hv
  rcases abs_cases ((⌊v⌋₊ : Int) - ⌊w⌋₊) with ⟨same, _⟩ | ⟨same, _⟩ <;> rw [same] <;> omega

/-- Below what is near a small whole number lies that or the one before it. -/
theorem Within.floor_whole {v : ℚ} {k : ℕ} (near : Within n v k) (few : n ≤ 7) (hv : 0 ≤ v)
    (small : k < 2 ^ 49) : ⌊v⌋₊ = k ∨ ⌊v⌋₊ + 1 = k := by
  have below : v < (k + 1 : ℕ) := by
    have share : (k : ℚ) < 2 ^ 49 := mod_cast small
    calc v ≤ k * slack ^ n := near.le
      _ ≤ k * (1 + 1 / 2 ^ 50) := mul_le_mul_of_nonneg_left (slack_pow_le few) k.cast_nonneg
      _ < k + 1 := by linarith
      _ = (k + 1 : ℕ) := by rw [Nat.cast_add, Nat.cast_one]
  have atMost : ⌊v⌋₊ < k + 1 := (Nat.floor_lt hv).mpr below
  have atLeast := near.symm.floor_le few k.cast_nonneg hv
  rw [Nat.floor_natCast] at atLeast
  omega

end Solfege.Binary64
