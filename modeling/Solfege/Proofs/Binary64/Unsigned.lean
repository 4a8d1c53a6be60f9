import Solfege.Proofs.Binary64.Exact

/-! Values without a negative sign. Adding zero and multiplying by one leave them as they are, and
whole multiples of them are in order. -/
namespace Solfege.Binary64
variable {x y : Binary64} {a b i j : ℕ}

theorem decide_natCast_neg (n : ℕ) : decide ((n : Int) < 0) = false :=
  decide_eq_false (Int.not_lt.mpr (Int.natCast_nonneg n))

/-- A value without a negative sign. -/
inductive Unsigned : Binary64 → Prop
  | nan : Unsigned .nan
  | infinite : Unsigned (.infinite false)
  | finite (units : ℕ) (representable : Representable units) :
    Unsigned (.finite false units representable)

namespace Unsigned

theorem ofQuotient (num den : ℕ) : Unsigned (ofQuotient false num den) := by
  unfold Binary64.ofQuotient
  split
  · exact .finite _ _
  · exact .infinite

theorem ofInt (n : ℕ) : Unsigned (ofInt n) := by
  rw [Binary64.ofInt, decide_natCast_neg]
  exact .ofQuotient _ _

theorem of_pos (positive : 0 < x) : Unsigned x := by
  cases x with
  | nan => exact .nan
  | infinite negative =>
    cases negative with
    | false => exact .infinite
    | true =>
      have negative : Binary64.infinite true < 0 := infinite_neg.mpr rfl
      exact absurd negative (not_lt_of_le (le_of_lt positive))
  | finite negative units representable =>
    obtain ⟨rfl, _⟩ := pos_finite.mp positive
    exact .finite units representable

theorem one : Unsigned 1 := of_pos (by decide +kernel)

theorem mul (hx : Unsigned x) (hy : Unsigned y) : Unsigned (x * y) := by
  change Unsigned (Binary64.mul x y)
  cases hx with
  | nan => exact .nan
  | infinite =>
    cases hy with
    | nan => exact .nan
    | infinite => exact .infinite
    | finite b hb =>
      rw [Binary64.mul]
      split
      · exact .nan
      · exact .infinite
  | finite a ha =>
    cases hy with
    | nan => exact .nan
    | infinite =>
      rw [Binary64.mul]
      split
      · exact .nan
      · exact .infinite
    | finite b hb => exact .ofQuotient _ _

theorem div (hx : Unsigned x) (hy : Unsigned y) : Unsigned (x / y) := by
  change Unsigned (Binary64.div x y)
  cases hx with
  | nan => exact .nan
  | infinite =>
    cases hy with
    | nan => exact .nan
    | infinite => exact .nan
    | finite b hb => exact .infinite
  | finite a ha =>
    cases hy with
    | nan => exact .nan
    | infinite => exact .finite _ _
    | finite b hb =>
      rw [Binary64.div]
      split
      · split
        · exact .nan
        · exact .infinite
      · exact .ofQuotient _ _

theorem zero_add (hx : Unsigned x) : 0 + x = x := by
  rw [zero_eq]
  cases hx with
  | nan => rfl
  | infinite => rfl
  | finite a ha =>
    have sum : zero false + .finite false a ha = ofUnits (0 + a) false := rfl
    rw [sum, Int.zero_add, ofUnits_eq ha]

theorem add_zero (hx : Unsigned x) : x + 0 = x := by
  rw [zero_eq]
  cases hx with
  | nan => rfl
  | infinite => rfl
  | finite a ha =>
    have sum : .finite false a ha + zero false = ofUnits (a + 0) false := rfl
    rw [sum, Int.add_zero, ofUnits_eq ha]

theorem mul_one (hx : Unsigned x) : x * 1 = x := by
  have one : (1 : Binary64) = .finite false oneUnits (by decide +kernel) := by decide +kernel
  rw [one]
  cases hx with
  | nan => rfl
  | infinite =>
    change Binary64.mul _ _ = _
    rw [Binary64.mul, if_neg oneUnits_pos.ne']
    rfl
  | finite a ha => exact ofQuotient_eq false (roundUnits_mul ha.1 oneUnits_pos) ha

theorem nonneg (hx : Unsigned x) (finite : x.isFinite) : 0 ≤ x := by
  rw [zero_eq]
  cases hx with
  | nan => cases finite
  | infinite => cases finite
  | finite a ha => exact le_iff.mpr ⟨0, a, rfl, rfl, Int.natCast_nonneg a⟩

/-- Values without a sign that are no greater than each other are the same: there is one zero among
them. -/
theorem le_antisymm (hx : Unsigned x) (hy : Unsigned y) (le : x ≤ y) (ge : y ≤ x) : x = y := by
  obtain ⟨a, b, rankX, rankY, below⟩ := le_iff.mp le
  obtain ⟨_, _, rankY', rankX', above⟩ := le_iff.mp ge
  cases rankX.symm.trans rankX'
  cases rankY.symm.trans rankY'
  obtain rfl : a = b := Int.le_antisymm below above
  cases hx with
  | nan => cases rankX
  | infinite =>
    cases hy with
    | nan => cases rankY
    | infinite => rfl
    | finite b hb =>
      cases rankX
      have same : (b : Int) = limitUnits := Option.some.inj rankY
      have inside := hb.2
      omega
  | finite a ha =>
    cases rankX
    cases hy with
    | nan => cases rankY
    | infinite =>
      have same : (limitUnits : Int) = a := Option.some.inj rankY
      have inside := ha.2
      omega
    | finite b hb =>
      have same : (b : Int) = a := Option.some.inj rankY
      exact finite_congr (Int.ofNat.inj same).symm ha hb

end Unsigned

theorem Moderate.unsigned (moderate : Moderate x) : Unsigned x := by
  obtain ⟨units, representable, rfl, _⟩ := moderate
  exact .finite units representable

theorem Moderate.isFinite (moderate : Moderate x) : x.isFinite := by
  obtain ⟨units, representable, rfl, _⟩ := moderate
  rfl

theorem Brief.unsigned (brief : Brief x) : Unsigned x := by
  obtain ⟨units, representable, rfl, _⟩ := brief
  exact .finite units representable

theorem Brief.isFinite (brief : Brief x) : x.isFinite := by
  obtain ⟨units, representable, rfl, _⟩ := brief
  rfl

theorem Near.unsigned {n : ℕ} {q : ℚ} (near : Near n x q) : Unsigned x := by
  obtain ⟨units, representable, rfl, _⟩ := near
  exact .finite units representable

/-! Multiples. -/

theorem finite_of_ofQuotient {negative : Bool} (finite : (ofQuotient negative a b).isFinite) :
    roundUnits a b < limitUnits := by
  unfold ofQuotient at finite
  split at finite
  · assumption
  · cases finite

theorem ofInt_natCast (n : ℕ) : ofInt n = ofQuotient false (n * oneUnits) 1 := by
  rw [ofInt, decide_natCast_neg, Int.natAbs_natCast]

/-- The factors of a finite product are finite. -/
theorem isFinite_of_mul (finite : (x * y).isFinite) : x.isFinite ∧ y.isFinite := by
  change (mul x y).isFinite at finite
  cases x with
  | nan => cases finite
  | infinite s =>
    cases y with
    | nan => cases finite
    | infinite t => cases finite
    | finite t b hb =>
      rw [mul] at finite
      split at finite <;> cases finite
  | finite s a ha =>
    cases y with
    | nan => cases finite
    | infinite t =>
      rw [mul] at finite
      split at finite <;> cases finite
    | finite t b hb => exact ⟨rfl, rfl⟩

/-- Finite multiples are in the order of their factors. -/
theorem ofInt_mul_le (hx : Unsigned x) (le : i ≤ j) (finite : (ofInt j * x).isFinite) :
    ofInt i * x ≤ ofInt j * x := by
  obtain ⟨factor, whole⟩ := isFinite_of_mul finite
  have fewer : roundUnits (i * oneUnits) 1 ≤ roundUnits (j * oneUnits) 1 :=
    roundUnits_mono Nat.one_pos (Nat.mul_le_mul_right _ le)
  rw [ofInt_natCast] at factor
  have large := finite_of_ofQuotient factor
  have small := Nat.lt_of_le_of_lt fewer large
  rw [ofInt_natCast, ofInt_natCast, ofQuotient, ofQuotient, dif_pos large, dif_pos small]
  cases hx with
  | nan => cases whole
  | infinite => cases whole
  | finite b hb =>
    refine le_iff.mpr ⟨_, _, rank_ofQuotient .., rank_ofQuotient .., ?_⟩
    have product := roundUnits_mono oneUnits_pos (Nat.mul_le_mul_right b fewer)
    simp only [Bool.xor_false, signed_false]
    omega

end Solfege.Binary64
