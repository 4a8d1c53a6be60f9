import Solfege.Binary64.Arithmetic

/-! The order of binary64 values is that of their ranks. It is total on what is a number, and what
is not a number compares with nothing, itself included. -/
namespace Solfege.Binary64
variable {x y z : Binary64}

theorem lt_iff : x < y ↔ ∃ a b, x.rank? = some a ∧ y.rank? = some b ∧ a < b := by
  change x.compare? y = some .lt ↔ _
  unfold compare?
  cases x.rank? with
  | none => simp
  | some a =>
    cases y.rank? with
    | none => simp
    | some b => simp [Int.compare_eq_lt]

theorem le_iff : x ≤ y ↔ ∃ a b, x.rank? = some a ∧ y.rank? = some b ∧ a ≤ b := by
  change x.compare? y = some .lt ∨ x.compare? y = some .eq ↔ _
  unfold compare?
  cases x.rank? with
  | none => simp
  | some a =>
    cases y.rank? with
    | none => simp
    | some b => simp [Int.compare_eq_lt, Int.le_iff_lt_or_eq]

theorem le_refl_iff : x ≤ x ↔ x.isNaN = false := by
  rw [le_iff]
  cases x <;> simp [rank?, isNaN]

theorem le_of_lt (less : x < y) : x ≤ y := by
  obtain ⟨a, b, hx, hy, less⟩ := lt_iff.mp less
  exact le_iff.mpr ⟨a, b, hx, hy, by omega⟩

theorem le_trans (first : x ≤ y) (second : y ≤ z) : x ≤ z := by
  rw [le_iff] at *
  grind

theorem lt_of_le_of_lt (first : x ≤ y) (second : y < z) : x < z := by
  rw [lt_iff, le_iff] at *
  grind

theorem lt_irrefl (x : Binary64) : ¬ x < x := by
  rw [lt_iff]
  grind

theorem not_lt_of_le (le : x ≤ y) : ¬ y < x := fun less => lt_irrefl x (lt_of_le_of_lt le less)

theorem le_self_left (le : x ≤ y) : x ≤ x := by
  obtain ⟨a, _, hx, _⟩ := le_iff.mp le
  exact le_iff.mpr ⟨a, a, hx, hx, Int.le_refl a⟩

theorem le_self_right (le : x ≤ y) : y ≤ y := by
  obtain ⟨_, b, _, hy, _⟩ := le_iff.mp le
  exact le_iff.mpr ⟨b, b, hy, hy, Int.le_refl b⟩

/-- Numbers that are not less are at least as large. -/
theorem le_of_not_lt (hx : x ≤ x) (hy : y ≤ y) (notLess : ¬ y < x) : x ≤ y := by
  rw [lt_iff] at notLess
  rw [le_iff] at *
  grind

/-- Numbers that are not at most as large are greater. -/
theorem lt_of_not_le (hx : x ≤ x) (hy : y ≤ y) (notLe : ¬ y ≤ x) : x < y := by
  rw [lt_iff]
  rw [le_iff] at *
  grind

end Solfege.Binary64
