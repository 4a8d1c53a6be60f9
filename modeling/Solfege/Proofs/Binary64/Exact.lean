import Solfege.Proofs.Binary64.Nearness

/-! Values and products that need no rounding: whole numbers of 53 bits, and what is multiplied by a
power of two. Rounded once, a rational is near its value. -/
namespace Solfege.Binary64
variable {m e i num den c : ℕ}

theorem roundUnits_mul (grid : spacing c ∣ c) (pos : 0 < den) : roundUnits (c * den) den = c := by
  have step : 0 < den * spacing c := Nat.mul_pos pos (spacing_pos c)
  obtain ⟨k, whole⟩ := grid
  have multiple : c * den = k * (den * spacing c) := by
    conv_lhs => rw [whole]
    ac_rfl
  rw [roundUnits, Nat.mul_div_cancel _ pos, multiple,
    nearest_of_dvd (Nat.dvd_mul_left _ k) step, Nat.mul_div_cancel _ step, Nat.mul_comm, ← whole]

/-- What is on the grid is its own rounding. -/
theorem ofUnits_eq (grid : Representable c) : ofUnits c false = finite false c grid := by
  by_cases none : c = 0
  · subst none
    rfl
  · rw [ofUnits, if_neg (by omega), decide_eq_false (by omega), Int.natAbs_natCast]
    exact ofQuotient_eq false (roundedUnits_of_dvd grid.1) grid

/-! Counts that are a number of 53 bits, shifted. -/

theorem representable_shift (few : m ≤ 1 <<< 53) (size : e ≤ 2044) : Representable (m <<< e) := by
  refine ⟨spacing_dvd_shiftLeft few e, ?_⟩
  rw [Nat.one_shiftLeft] at few
  calc m <<< e = m * 2 ^ e := Nat.shiftLeft_eq m e
    _ ≤ 2 ^ 53 * 2 ^ 2044 := Nat.mul_le_mul few (Nat.pow_le_pow_right (by decide) size)
    _ < limitUnits := by decide +kernel

theorem ofInt_eq (few : m ≤ 1 <<< 53) :
    ofInt m = .finite false (m <<< 1074) (representable_shift few (by decide)) := by
  have units : m * oneUnits = m <<< 1074 := by
    rw [oneUnits, Nat.one_shiftLeft, Nat.shiftLeft_eq]
  have negative : decide ((m : Int) < 0) = false := by simp
  rw [ofInt, negative, Int.natAbs_natCast, units]
  refine ofQuotient_eq false ?_ _
  conv_lhs => rw [← Nat.mul_one (m <<< 1074)]
  exact roundUnits_mul (spacing_dvd_shiftLeft few 1074) Nat.one_pos

theorem finite_congr {a b : ℕ} {negative : Bool} (same : a = b) (ha : Representable a)
    (hb : Representable b) : finite negative a ha = finite negative b hb := by
  subst same
  rfl

theorem shift_mul_shift (m : ℕ) {k : ℕ} (low : k ≤ e + i) :
    m <<< e * 1 <<< i = m <<< (e + i - k) * 1 <<< k := by
  rw [Nat.one_shiftLeft, Nat.one_shiftLeft, Nat.shiftLeft_eq, Nat.shiftLeft_eq, Nat.mul_assoc,
    Nat.mul_assoc, ← Nat.pow_add, ← Nat.pow_add, Nat.sub_add_cancel low]

/-- Multiplying by a power of two is exact. -/
theorem mul_shift (few : m ≤ 1 <<< 53) (low : 1074 ≤ e + i) (high : e + i ≤ 3118)
    (hx : Representable (m <<< e)) (hy : Representable (1 <<< i)) :
    finite false (m <<< e) hx * finite false (1 <<< i) hy =
      finite false (m <<< (e + i - 1074)) (representable_shift few (by omega)) := by
  refine ofQuotient_eq false ?_ _
  have product : m <<< e * 1 <<< i = m <<< (e + i - 1074) * oneUnits := shift_mul_shift m low
  rw [product]
  exact roundUnits_mul (spacing_dvd_shiftLeft few _) oneUnits_pos

/-! Values near a rational. -/

theorem near_ofInt (few : m ≤ 1 <<< 53) : Near 0 (ofInt m) m := by
  refine ⟨_, _, ofInt_eq few, ?_⟩
  have one : (oneUnits : ℚ) ≠ 0 := Nat.cast_ne_zero.mpr oneUnits_pos.ne'
  have units : m <<< 1074 = m * oneUnits := by
    rw [oneUnits, Nat.one_shiftLeft, Nat.shiftLeft_eq]
  rw [units, Nat.cast_mul, mul_div_cancel_right₀ _ one]
  exact Within.refl _

theorem near_ofRatio {a b : ℕ} (pos : 0 < b) (size : Ordinary (a / b)) :
    Near 1 (ofRatio a b) (a / b) := by
  have one : (oneUnits : ℚ) ≠ 0 := Nat.cast_ne_zero.mpr oneUnits_pos.ne'
  have sign : (decide ((a : Int) < 0) ^^ decide ((b : Int) < 0)) = false := by
    rw [decide_eq_false (Int.not_lt.mpr a.cast_nonneg),
      decide_eq_false (Int.not_lt.mpr b.cast_nonneg)]
    rfl
  rw [ofRatio, sign, Int.natAbs_natCast, Int.natAbs_natCast]
  refine near_ofQuotient pos ?_ (by decide) size
  rw [Nat.cast_mul, mul_div_right_comm, mul_div_cancel_right₀ _ one]
  exact Within.refl _

theorem near_ofRat {q : ℚ} (size : Ordinary q) : Near 1 (ofRatio q.num q.den) q := by
  obtain ⟨a, num⟩ := Int.eq_ofNat_of_zero_le (Rat.num_nonneg.mpr size.nonneg)
  have exact : (a / q.den : ℚ) = q := by
    conv_rhs => rw [← Rat.num_div_den q, num, Int.cast_natCast]
  have near := near_ofRatio (a := a) q.den_pos (by rwa [exact])
  rw [exact] at near
  rwa [num]

/-! Moderate sizes. A sum of many short times stays moderate: once it is large enough, what is added
to it is rounded away. -/

/-- The count of units in 2^-10. -/
def leastModerate : ℕ := 1 <<< 1064

/-- The count of units in 2^56. -/
def mostModerate : ℕ := 1 <<< 1130

/-- Zero or from 2^-10 to 2^56. -/
def Moderate (x : Binary64) : Prop :=
  ∃ units representable, x = .finite false units representable ∧
    (units = 0 ∨ leastModerate ≤ units ∧ units ≤ mostModerate)

/-- A moderate value of four at most. -/
def Brief (x : Binary64) : Prop :=
  ∃ units representable, x = .finite false units representable ∧
    (units = 0 ∨ leastModerate ≤ units) ∧ units ≤ 4 * oneUnits

instance : DecidablePred Moderate
  | .finite false units representable =>
    decidable_of_iff (units = 0 ∨ leastModerate ≤ units ∧ units ≤ mostModerate)
      ⟨fun size => ⟨units, representable, rfl, size⟩, fun ⟨_, _, same, size⟩ => by
        cases same
        exact size⟩
  | .finite true _ _ => isFalse fun ⟨_, _, same, _⟩ => nomatch same
  | .infinite _ => isFalse fun ⟨_, _, same, _⟩ => nomatch same
  | .nan => isFalse fun ⟨_, _, same, _⟩ => nomatch same

instance : DecidablePred Brief
  | .finite false units representable =>
    decidable_of_iff ((units = 0 ∨ leastModerate ≤ units) ∧ units ≤ 4 * oneUnits)
      ⟨fun size => ⟨units, representable, rfl, size⟩, fun ⟨_, _, same, size⟩ => by
        cases same
        exact size⟩
  | .finite true _ _ => isFalse fun ⟨_, _, same, _⟩ => nomatch same
  | .infinite _ => isFalse fun ⟨_, _, same, _⟩ => nomatch same
  | .nan => isFalse fun ⟨_, _, same, _⟩ => nomatch same

theorem Moderate.zero : Moderate 0 := ⟨0, representable_zero, zero_eq, .inl rfl⟩

theorem Moderate.add {x y : Binary64} (first : Moderate x) (second : Brief y) :
    Moderate (x + y) := by
  obtain ⟨a, ha, rfl, sizeA⟩ := first
  obtain ⟨b, hb, rfl, sizeB, small⟩ := second
  have sum : finite false a ha + finite false b hb = ofUnits ((a + b : ℕ) : Int) false := rfl
  rw [sum, ofUnits]
  by_cases none : a + b = 0
  · rw [none]
    exact ⟨0, representable_zero, rfl, .inl rfl⟩
  · have atLeast : leastModerate ≤ roundedUnits (a + b) := by
      rcases sizeA with rfl | ⟨large, _⟩
      · have large : leastModerate ≤ b := by omega
        rw [Nat.zero_add, roundedUnits_of_dvd hb.1]
        exact large
      · calc leastModerate ≤ a := large
          _ = roundedUnits a := (roundedUnits_of_dvd ha.1).symm
          _ ≤ roundedUnits (a + b) := roundedUnits_mono (Nat.le_add_right a b)
    have atMost : roundedUnits (a + b) ≤ mostModerate := by
      have top : roundedUnits (mostModerate + 4 * oneUnits) = mostModerate := by decide +kernel
      rw [← top]
      exact roundedUnits_mono (Nat.add_le_add (by omega) small)
    have grid : Representable (roundedUnits (a + b)) := by
      refine ⟨spacing_dvd_roundUnits _ _, Nat.lt_of_le_of_lt atMost ?_⟩
      decide +kernel
    refine ⟨_, grid, ?_, .inr ⟨atLeast, atMost⟩⟩
    rw [if_neg (by omega), decide_eq_false (by omega), Int.natAbs_natCast]
    exact ofQuotient_eq false rfl grid

/-- The size of what a moderate value stands for. -/
def ModerateSize (q : ℚ) : Prop := q = 0 ∨ 1 ≤ q * 2 ^ 10 ∧ q ≤ 2 ^ 56

theorem ModerateSize.nonneg {q : ℚ} (size : ModerateSize q) : 0 ≤ q := by
  rcases size with rfl | ⟨large, _⟩
  · exact le_refl 0
  · linarith

theorem ModerateSize.mul {q r : ℚ} (size : ModerateSize q) (low : 1 ≤ r * 2 ^ 20)
    (high : r ≤ 2 ^ 20) : Ordinary (q * r) := by
  rcases size with rfl | ⟨large, small⟩
  · exact .inl (zero_mul r)
  · have positive : 0 < r := by
      by_contra negative
      linarith
    have atLeast : 1 ≤ q * 2 ^ 10 * (r * 2 ^ 20) := one_le_mul_of_one_le_of_one_le large low
    have atMost : q * r ≤ 2 ^ 56 * 2 ^ 20 := mul_le_mul small high positive.le (by norm_num)
    exact .inr ⟨by linarith, by linarith⟩

theorem ModerateSize.ordinary {q : ℚ} (size : ModerateSize q) : Ordinary q :=
  mul_one q ▸ size.mul (by norm_num) (by norm_num)

theorem Moderate.near {x : Binary64} (moderate : Moderate x) :
    ∃ q, Near 0 x q ∧ ModerateSize q := by
  obtain ⟨units, representable, rfl, size⟩ := moderate
  have one : (0 : ℚ) < oneUnits := Nat.cast_pos.mpr oneUnits_pos
  refine ⟨_, ⟨units, representable, rfl, Within.refl _⟩, ?_⟩
  rcases size with rfl | ⟨large, small⟩
  · exact .inl (by simp)
  · right
    have low : oneUnits ≤ units * 2 ^ 10 := by
      have same : oneUnits = leastModerate * 2 ^ 10 := by decide +kernel
      rw [same]
      exact Nat.mul_le_mul_right _ large
    have high : units ≤ 2 ^ 56 * oneUnits := by
      have same : mostModerate = 2 ^ 56 * oneUnits := by decide +kernel
      exact same ▸ small
    rw [div_mul_eq_mul_div, one_le_div one, div_le_iff₀ one]
    exact ⟨mod_cast low, mod_cast high⟩

/-- A moderate value is a number of 53 bits, shifted. -/
theorem Moderate.shift {x : Binary64} (moderate : Moderate x) :
    ∃ m e, ∃ (few : m ≤ 1 <<< 53) (low : 1000 ≤ e) (high : e ≤ 1100),
      x = .finite false (m <<< e) (representable_shift few (by omega)) := by
  obtain ⟨units, representable, rfl, size⟩ := moderate
  rcases size with rfl | ⟨large, small⟩
  · refine ⟨0, 1000, by decide, by decide, by decide, finite_congr ?_ _ _⟩
    rw [Nat.zero_shiftLeft]
  · have nonzero : units ≠ 0 := by
      rintro rfl
      exact absurd large (by decide +kernel)
    have low : 1064 ≤ units.log2 := by
      rw [leastModerate, Nat.one_shiftLeft] at large
      exact (Nat.le_log2 nonzero).mpr large
    have high : units.log2 < 1131 := by
      refine (Nat.log2_lt nonzero).mpr (Nat.lt_of_le_of_lt small ?_)
      decide +kernel
    obtain ⟨m, whole⟩ := representable.1
    have shifted : units = m <<< (units.log2 - 52) := by
      conv_lhs => rw [whole, spacing, Nat.one_shiftLeft, Nat.mul_comm]
      rw [Nat.shiftLeft_eq]
    have few : m ≤ 1 <<< 53 := by
      rw [Nat.one_shiftLeft]
      refine Nat.le_of_lt (Nat.lt_of_mul_lt_mul_right (a := 2 ^ (units.log2 - 52)) ?_)
      calc m * 2 ^ (units.log2 - 52) = units := by rw [← Nat.shiftLeft_eq, ← shifted]
        _ < 2 ^ (units.log2 + 1) := Nat.lt_log2_self
        _ = 2 ^ 53 * 2 ^ (units.log2 - 52) := by
          rw [← Nat.pow_add]
          congr 1
          omega
    exact ⟨m, units.log2 - 52, few, by omega, by omega, finite_congr shifted _ _⟩

end Solfege.Binary64
