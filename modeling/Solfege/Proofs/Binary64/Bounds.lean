import Solfege.Proofs.Binary64.Unsigned

/-! Values bounded by powers of two, with either sign. Sums, differences, products and halves of
them are bounded by powers of two, and so are finite. -/
namespace Solfege.Binary64
variable {x y : Binary64} {a b e i : ℕ}

/-- A finite value of at most so many units, as a power of two, with either sign. -/
def Below (e : ℕ) (x : Binary64) : Prop :=
  ∃ negative units representable, x = .finite negative units representable ∧ units ≤ 2 ^ e

instance (e : ℕ) (x : Binary64) : Decidable (Below e x) :=
  match x with
  | .finite negative units representable => decidable_of_iff (units ≤ 2 ^ e)
    ⟨fun small => ⟨negative, units, representable, rfl, small⟩,
      fun ⟨_, _, _, same, small⟩ => (Binary64.finite.inj same).2 ▸ small⟩
  | .infinite _ => isFalse fun ⟨_, _, _, same, _⟩ => by cases same
  | .nan => isFalse fun ⟨_, _, _, same, _⟩ => by cases same

theorem pow_lt_shiftLeft (less : e < i) : 2 ^ e < 1 <<< i := by
  rw [Nat.one_shiftLeft]
  exact Nat.pow_lt_pow_right (by decide) less

theorem pow_add_shiftLeft (i e : ℕ) : 2 ^ (i + e) = 2 ^ e * 1 <<< i := by
  rw [Nat.one_shiftLeft, ← Nat.pow_add, Nat.add_comm]

namespace Below

theorem isFinite (below : Below e x) : x.isFinite := by
  obtain ⟨_, _, _, rfl, _⟩ := below
  rfl

theorem mono (below : Below e x) (le : e ≤ i) : Below i x := by
  obtain ⟨negative, a, ha, same, small⟩ := below
  exact ⟨negative, a, ha, same, Nat.le_trans small (Nat.pow_le_pow_right (by decide) le)⟩

theorem ofQuotient (negative : Bool) (pos : 0 < b) (le : a ≤ 2 ^ e * b) (fits : e < 2098) :
    Below e (ofQuotient negative a b) := by
  have small := roundUnits_le_pow pos le
  have limit : 2 ^ e < limitUnits := pow_lt_shiftLeft fits
  rw [Binary64.ofQuotient, dif_pos (Nat.lt_of_le_of_lt small limit)]
  exact ⟨negative, _, _, rfl, small⟩

theorem ofInt {n : ℕ} (le : n ≤ 2 ^ i) (fits : 1074 + i < 2098) : Below (1074 + i) (ofInt n) := by
  rw [ofInt_natCast]
  refine .ofQuotient false Nat.one_pos ?_ fits
  rw [Nat.mul_one, pow_add_shiftLeft]
  exact Nat.mul_le_mul_right oneUnits le

theorem mul {k : ℕ} (hx : Below e x) (hy : Below i y) (size : e + i = 1074 + k)
    (fits : k < 2098) : Below k (x * y) := by
  obtain ⟨s, a, ha, rfl, small⟩ := hx
  obtain ⟨t, b, hb, rfl, few⟩ := hy
  refine .ofQuotient (s ^^ t) oneUnits_pos ?_ fits
  calc a * b ≤ 2 ^ e * 2 ^ i := Nat.mul_le_mul small few
    _ = 2 ^ k * oneUnits := by rw [← Nat.pow_add, size, pow_add_shiftLeft, oneUnits]

theorem half (hx : Below e x) (fits : e < 2098) : Below e (x / 2) := by
  have two : (2 : Binary64) = .finite false (2 * oneUnits) (by decide +kernel) := by
    decide +kernel
  have some : 2 * oneUnits ≠ 0 := Nat.mul_ne_zero (by decide) oneUnits_pos.ne'
  obtain ⟨s, a, ha, rfl, small⟩ := hx
  have quotient : .finite s a ha / (2 : Binary64) =
      Binary64.ofQuotient (s ^^ false) (a * oneUnits) (2 * oneUnits) := by
    rw [two]
    change div _ _ = _
    rw [div, if_neg some]
  rw [quotient]
  refine .ofQuotient _ (Nat.pos_of_ne_zero some) ?_ fits
  exact Nat.mul_le_mul small (Nat.le_mul_of_pos_left _ (by decide))

theorem add (hx : Below e x) (hy : Below e y) (fits : e + 1 < 2098) : Below (e + 1) (x + y) := by
  obtain ⟨s, a, ha, rfl, small⟩ := hx
  obtain ⟨t, b, hb, rfl, few⟩ := hy
  change Below (e + 1) (ofUnits (signed s a + signed t b) (s && t))
  rw [ofUnits]
  split
  · exact ⟨_, 0, representable_zero, rfl, Nat.zero_le _⟩
  · refine .ofQuotient _ Nat.one_pos ?_ fits
    have size := Int.natAbs_add_le (signed s a) (signed t b)
    rw [natAbs_signed, natAbs_signed] at size
    rw [Nat.pow_succ]
    omega

theorem sub (hx : Below e x) (hy : Below e y) (fits : e + 1 < 2098) : Below (e + 1) (x - y) := by
  obtain ⟨t, b, hb, rfl, few⟩ := hy
  exact hx.add ⟨!t, b, hb, rfl, few⟩ fits

/-- An unsigned number that is no larger than a value has its bound. -/
theorem of_le (unsigned : Unsigned x) (le : x ≤ y) (below : Below e y) : Below e x := by
  obtain ⟨t, b, hb, rfl, few⟩ := below
  obtain ⟨m, n, rank, rank', le⟩ := le_iff.mp le
  cases rank'
  have small : signed t b ≤ b := by cases t <;> simp only [signed_true, signed_false] <;> omega
  cases unsigned with
  | nan => cases rank
  | infinite =>
    cases rank
    have limit := hb.2
    rw [signed_false] at le
    omega
  | finite a ha =>
    cases rank
    rw [signed_false] at le
    exact ⟨false, a, ha, rfl, by omega⟩

end Below
end Solfege.Binary64
