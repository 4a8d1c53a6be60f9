import Mathlib.Algebra.Group.Nat.Defs
import Mathlib.Data.Nat.Log
import Solfege.Proofs.Binary64.Order

/-! Rounding keeps the order and leaves what is on the grid as it is. So sums keep the order, and
adding what is not negative does not lower a value. Products and quotients of what is not negative
are not negative. -/
namespace Solfege.Binary64
variable {m n d : Nat} {x y z : Binary64}

/-! The nearest natural number. -/

theorem nearest_mono (d : Nat) (le : m ≤ n) : nearest m d ≤ nearest n d := by
  rcases Nat.lt_or_ge (m / d) (n / d) with less | atLeast
  · exact Nat.le_trans (nearest_le m d) (Nat.le_trans less (le_nearest n d))
  · have same : m / d = n / d := Nat.le_antisymm (Nat.div_le_div_right le) atLeast
    have rest : m % d ≤ n % d := by
      have hm := Nat.div_add_mod m d
      have hn := Nat.div_add_mod n d
      rw [same] at hm
      omega
    unfold nearest
    rw [same]
    dsimp only
    split <;> split <;> omega

theorem nearest_of_dvd (dvd : d ∣ n) (pos : 0 < d) : nearest n d = n / d := by
  unfold nearest
  rw [Nat.mod_eq_zero_of_dvd dvd]
  simp [pos]

theorem nearest_mul_le {k : Nat} (le : n ≤ k * d) (pos : 0 < d) : nearest n d ≤ k := by
  have whole : nearest (k * d) d = k := by
    rw [nearest_of_dvd (Nat.dvd_mul_left d k) pos, Nat.mul_div_cancel _ pos]
  exact whole ▸ nearest_mono d le

theorem le_nearest_mul {k : Nat} (le : k * d ≤ n) (pos : 0 < d) : k ≤ nearest n d := by
  have whole : nearest (k * d) d = k := by
    rw [nearest_of_dvd (Nat.dvd_mul_left d k) pos, Nat.mul_div_cancel _ pos]
  exact whole ▸ nearest_mono d le

/-! Magnitudes on the grid. -/

/-- The grid point nearest to a whole number of units. -/
def roundedUnits (n : Nat) : Nat := roundUnits n 1

theorem roundedUnits_eq (n : Nat) : roundedUnits n = nearest n (spacing n) * spacing n := by
  simp [roundedUnits, roundUnits]

theorem roundedUnits_of_dvd (grid : spacing n ∣ n) : roundedUnits n = n := by
  rw [roundedUnits_eq, nearest_of_dvd grid (spacing_pos n), Nat.div_mul_cancel grid]

theorem log2_mono (le : m ≤ n) : m.log2 ≤ n.log2 := by
  rw [Nat.log2_eq_log_two, Nat.log2_eq_log_two]
  exact Nat.log_mono_right le

/-- The grid around a larger power of two is no finer. -/
theorem spacing_dvd_pow {e : Nat} (size : n.log2 ≤ e) : spacing n ∣ 2 ^ e := by
  rw [spacing, Nat.one_shiftLeft]
  exact Nat.pow_dvd_pow 2 (Nat.le_trans (Nat.sub_le _ _) size)

theorem roundUnits_le_pow {e den : Nat} (pos : 0 < den) (le : n ≤ 2 ^ e * den) :
    roundUnits n den ≤ 2 ^ e := by
  have size : (n / den).log2 ≤ e :=
    Nat.log2_two_pow (n := e) ▸ log2_mono (Nat.div_le_of_le_mul (Nat.mul_comm den _ ▸ le))
  obtain ⟨k, whole⟩ := spacing_dvd_pow size
  rw [Nat.mul_comm] at whole
  rw [whole, Nat.mul_assoc, Nat.mul_comm _ den] at le
  rw [roundUnits, whole]
  exact Nat.mul_le_mul_right _ (nearest_mul_le le (Nat.mul_pos pos (spacing_pos _)))

theorem pow_le_roundUnits {e den : Nat} (pos : 0 < den) (le : 2 ^ e * den ≤ n)
    (size : (n / den).log2 ≤ e) : 2 ^ e ≤ roundUnits n den := by
  obtain ⟨k, whole⟩ := spacing_dvd_pow size
  rw [Nat.mul_comm] at whole
  rw [whole, Nat.mul_assoc, Nat.mul_comm _ den] at le
  rw [roundUnits, whole]
  exact Nat.mul_le_mul_right _ (le_nearest_mul le (Nat.mul_pos pos (spacing_pos _)))

/-- Quotients with as many bits share a grid, and between others there is a power of two. -/
theorem roundUnits_mono {den : Nat} (pos : 0 < den) (le : m ≤ n) :
    roundUnits m den ≤ roundUnits n den := by
  have quotients : m / den ≤ n / den := Nat.div_le_div_right le
  rcases Nat.lt_or_ge (m / den).log2 (n / den).log2 with fewer | atLeast
  · have some : n / den ≠ 0 := by
      intro none
      rw [none] at fewer
      cases fewer
    have below : m ≤ 2 ^ (n / den).log2 * den := by
      have size : m / den < 2 ^ ((m / den).log2 + 1) := Nat.lt_log2_self
      have grow : 2 ^ ((m / den).log2 + 1) ≤ 2 ^ (n / den).log2 :=
        Nat.pow_le_pow_right (by decide) fewer
      exact Nat.le_of_lt ((Nat.div_lt_iff_lt_mul pos).mp (Nat.lt_of_lt_of_le size grow))
    have above : 2 ^ (n / den).log2 * den ≤ n :=
      (Nat.le_div_iff_mul_le pos).mp (Nat.log2_self_le some)
    exact Nat.le_trans (roundUnits_le_pow pos below)
      (pow_le_roundUnits pos above (Nat.le_refl _))
  · have same : spacing (m / den) = spacing (n / den) := by
      rw [spacing, spacing, Nat.le_antisymm (log2_mono quotients) atLeast]
    rw [roundUnits, roundUnits, same]
    exact Nat.mul_le_mul_right _ (nearest_mono _ le)

theorem roundedUnits_mono (le : m ≤ n) : roundedUnits m ≤ roundedUnits n :=
  roundUnits_mono Nat.one_pos le

/-! Sums. -/

@[simp] theorem signed_true (n : Nat) : signed true n = -n := rfl

@[simp] theorem signed_false (n : Nat) : signed false n = n := rfl

@[simp] theorem natAbs_signed (negative : Bool) (n : Nat) : (signed negative n).natAbs = n := by
  cases negative <;> simp

theorem sign_signed (negative : Bool) (pos : 0 < n) :
    decide (signed negative n < 0) = negative := by
  cases negative with
  | true => simp [pos]
  | false => simp [Int.not_lt.mpr (Int.natCast_nonneg n)]

/-- A function of magnitudes, continued to the negative side. -/
def mirrored (g : Nat → Nat) (units : Int) : Int := signed (units < 0) (g units.natAbs)

theorem mirrored_mono {g : Nat → Nat} (mono : ∀ {m n}, m ≤ n → g m ≤ g n) {a b : Int}
    (le : a ≤ b) : mirrored g a ≤ mirrored g b := by
  have grow (h : a.natAbs ≤ b.natAbs) := mono h
  have shrink (h : b.natAbs ≤ a.natAbs) := mono h
  unfold mirrored signed
  by_cases ha : a < 0 <;> by_cases hb : b < 0 <;> simp only [ha, hb, decide_true, decide_false,
    if_true, Bool.false_eq_true, if_false] <;> omega

theorem mirrored_signed {g : Nat → Nat} (zero : g 0 = 0) (negative : Bool) (units : Nat) :
    mirrored g (signed negative units) = signed negative (g units) := by
  rw [mirrored, natAbs_signed]
  rcases Nat.eq_zero_or_pos units with rfl | pos
  · rw [zero]
    cases negative <;> rfl
  · rw [sign_signed negative pos]

/-- The place in the order of the value nearest to a signed number of units. -/
def roundedRank (units : Int) : Int :=
  signed (units < 0) (min (roundedUnits units.natAbs) limitUnits)

theorem rank_ofUnits (units : Int) (zeroNegative : Bool) :
    (ofUnits units zeroNegative).rank? = some (roundedRank units) := by
  unfold ofUnits roundedRank
  split
  · subst_vars
    rw [Int.natAbs_zero, roundedUnits_of_dvd (Nat.dvd_zero _), Nat.zero_min]
    cases zeroNegative <;> rfl
  · unfold ofQuotient
    split
    · rename_i below
      rw [roundedUnits, Nat.min_eq_left (Nat.le_of_lt below)]
      rfl
    · rename_i beyond
      rw [roundedUnits, Nat.min_eq_right (Nat.le_of_not_lt beyond)]
      rfl

theorem roundedRank_mono {a b : Int} (le : a ≤ b) : roundedRank a ≤ roundedRank b := by
  have mono {m n : Nat} (le : m ≤ n) :
      min (roundedUnits m) limitUnits ≤ min (roundedUnits n) limitUnits := by
    have rounded := roundedUnits_mono le
    omega
  exact mirrored_mono mono le

/-- What is representable is its own rounding. -/
theorem roundedRank_signed {negative : Bool} {units : Nat} (grid : Representable units) :
    roundedRank (signed negative units) = signed negative units := by
  have zero : min (roundedUnits 0) limitUnits = 0 := by
    rw [roundedUnits_of_dvd (Nat.dvd_zero _), Nat.zero_min]
  have kept : min (roundedUnits units) limitUnits = units := by
    rw [roundedUnits_of_dvd grid.1, Nat.min_eq_left (Nat.le_of_lt grid.2)]
  have rounded : roundedRank (signed negative units) = signed negative _ :=
    @mirrored_signed (fun n => min (roundedUnits n) limitUnits) zero negative units
  rw [rounded, kept]

theorem roundedRank_zero : roundedRank 0 = 0 := @roundedRank_signed false 0 representable_zero

theorem rank_add (hx : x.isFinite) (hy : y.isFinite) :
    ∃ a b, x.rank? = some a ∧ y.rank? = some b ∧ roundedRank a = a ∧
      (x + y).rank? = some (roundedRank (a + b)) := by
  cases x with
  | nan => cases hx
  | infinite => cases hx
  | finite s a ha =>
    cases y with
    | nan => cases hy
    | infinite => cases hy
    | finite t b hb => exact ⟨_, _, rfl, rfl, roundedRank_signed ha, rank_ofUnits _ _⟩

theorem zero_eq : (0 : Binary64) = zero false := by decide +kernel

theorem rank_zero : (0 : Binary64).rank? = some 0 := by
  rw [zero_eq]
  rfl

/-- Adding what is not negative does not lower a value. -/
theorem le_add_of_nonneg (hx : x.isFinite) (hy : y.isFinite) (nonneg : 0 ≤ y) : x ≤ x + y := by
  obtain ⟨a, b, rx, ry, same, sum⟩ := rank_add hx hy
  obtain ⟨c, d, rz, ry', le⟩ := le_iff.mp nonneg
  have up : roundedRank a ≤ roundedRank (a + b) := roundedRank_mono (by grind [rank_zero])
  rw [same] at up
  exact le_iff.mpr ⟨a, roundedRank (a + b), rx, sum, up⟩

theorem roundedRank_le (units : Int) : roundedRank units ≤ limitUnits := by
  unfold roundedRank signed
  split <;> omega

/-- Sums with the same value are ordered as what is added, unless the greater is not a number. -/
theorem add_le_add_left (hx : x.isFinite) (le : x ≤ y) (number : z + y ≤ z + y) :
    z + x ≤ z + y := by
  obtain ⟨a, b, rx, ry, le⟩ := le_iff.mp le
  cases x with
  | nan => cases hx
  | infinite => cases hx
  | finite s m hm =>
    cases z with
    | nan => cases y <;> exact number
    | infinite u =>
      cases y with
      | nan => cases ry
      | finite t n hn => exact number
      | infinite t =>
        by_cases same : u = t
        · subst same
          have sum : Binary64.infinite u + .infinite u = .infinite u := if_pos rfl
          rw [sum] at number ⊢
          exact number
        · have sum : Binary64.infinite u + .infinite t = .nan := if_neg same
          rw [sum] at number
          exact absurd (le_refl_iff.mp number) (by decide)
    | finite u k hk =>
      cases y with
      | nan => cases ry
      | finite t n hn =>
        cases rx
        cases ry
        refine le_iff.mpr ⟨_, _, rank_ofUnits _ _, rank_ofUnits _ _, roundedRank_mono ?_⟩
        omega
      | infinite t =>
        cases rx
        cases ry
        -- A finite value lies above the negative infinity, so this is the positive one.
        have positive : t = false := by
          have below := hm.2
          cases t with
          | false => rfl
          | true => cases s <;> simp only [signed_true, signed_false] at le <;> omega
        subst positive
        exact le_iff.mpr ⟨_, _, rank_ofUnits _ _, rfl, roundedRank_le _⟩

theorem number_of_add (number : z + y ≤ z + y) : z ≤ z := by
  cases z with
  | nan => cases y <;> exact number
  | infinite s => exact le_refl_iff.mpr rfl
  | finite s n hn => exact le_refl_iff.mpr rfl

theorem add_number (number : z ≤ z) (hx : x.isFinite) : z + x ≤ z + x := by
  cases x with
  | nan => cases hx
  | infinite => cases hx
  | finite s m hm =>
    cases z with
    | nan => exact number
    | infinite u => exact le_refl_iff.mpr rfl
    | finite u k hk => exact le_iff.mpr ⟨_, _, rank_ofUnits _ _, rank_ofUnits _ _, Int.le_refl _⟩

theorem number_add (hz : z.isFinite) (number : y ≤ y) : z + y ≤ z + y := by
  cases z with
  | nan => cases hz
  | infinite => cases hz
  | finite u k hk =>
    cases y with
    | nan => exact number
    | infinite t => exact le_refl_iff.mpr rfl
    | finite t n hn => exact le_iff.mpr ⟨_, _, rank_ofUnits _ _, rank_ofUnits _ _, Int.le_refl _⟩

/-- Zero does not raise a number. -/
theorem zero_add_le (number : x ≤ x) : 0 + x ≤ x := by
  rw [zero_eq]
  cases x with
  | nan => exact absurd (le_refl_iff.mp number) (by decide)
  | infinite => exact number
  | finite s n hn =>
    have same : signed false 0 + signed s n = signed s n := by simp
    refine le_iff.mpr ⟨_, _, rank_ofUnits _ _, rfl, ?_⟩
    rw [same, roundedRank_signed hn]

theorem sub_zero (x : Binary64) : x - 0 = x := by
  rw [zero_eq]
  cases x with
  | nan => rfl
  | infinite s => rfl
  | finite s n hn =>
    have same : signed s n + signed true 0 = signed s n := by simp
    show ofUnits (signed s n + signed true 0) (s && true) = _
    rw [same, Bool.and_true]
    rcases Nat.eq_zero_or_pos n with rfl | pos
    · cases s <;> rfl
    · have grid : roundUnits n 1 = n := roundedUnits_of_dvd hn.1
      have nonzero : signed s n ≠ 0 := by cases s <;> simp <;> omega
      rw [ofUnits, if_neg nonzero, sign_signed s pos, natAbs_signed, ofQuotient,
        dif_pos (grid.symm ▸ hn.2)]
      simp only [grid]

/-! Signs. -/

theorem rank_ofQuotient (negative : Bool) (num den : Nat) :
    (ofQuotient negative num den).rank? =
      some (signed negative (min (roundUnits num den) limitUnits)) := by
  unfold ofQuotient
  split
  · rename_i below
    rw [Nat.min_eq_left (Nat.le_of_lt below)]
    rfl
  · rename_i beyond
    rw [Nat.min_eq_right (Nat.le_of_not_lt beyond)]
    rfl

theorem roundUnits_zero (den : Nat) : roundUnits 0 den = 0 := by
  have none : nearest 0 (den * spacing (0 / den)) = 0 := by
    unfold nearest
    rw [Nat.zero_div, Nat.zero_mod]
    dsimp only
    exact if_pos (by omega)
  rw [roundUnits, none, Nat.zero_mul]

@[simp] theorem finite_neg {negative : Bool} {n : Nat} {h : Representable n} :
    finite negative n h < 0 ↔ negative = true ∧ 0 < n := by
  rw [lt_iff, zero_eq]
  cases negative <;> simp [rank?, zero]

@[simp] theorem infinite_neg {negative : Bool} : infinite negative < 0 ↔ negative = true := by
  rw [lt_iff, zero_eq]
  cases negative <;> simp [rank?, zero, limitUnits_pos]

@[simp] theorem nan_neg : ¬ nan < 0 := by
  rw [lt_iff]
  simp [rank?]

theorem ofQuotient_neg {negative : Bool} {num den : Nat} (less : ofQuotient negative num den < 0) :
    negative = true ∧ 0 < num := by
  obtain ⟨a, b, rank, zero, less⟩ := lt_iff.mp less
  rw [zero_eq] at zero
  rw [rank_ofQuotient] at rank
  cases zero
  cases rank
  cases negative with
  | false =>
    rw [signed_false, signed_false] at less
    omega
  | true =>
    refine ⟨rfl, Nat.pos_of_ne_zero ?_⟩
    rintro rfl
    rw [roundUnits_zero, Nat.zero_min] at less
    cases less

/-- Values that are not negative have no negative product. -/
theorem mul_not_neg (hx : ¬ x < 0) (hy : ¬ y < 0) : ¬ x * y < 0 := by
  change ¬ mul x y < 0
  intro less
  cases x with
  | nan => cases y <;> exact nan_neg less
  | infinite s =>
    cases y with
    | nan => exact nan_neg less
    | infinite t =>
      have odd : (s ^^ t) = true := infinite_neg.mp less
      grind [infinite_neg]
    | finite t b hb =>
      rw [mul] at less
      split at less
      · exact nan_neg less
      · have odd : (s ^^ t) = true := infinite_neg.mp less
        grind [infinite_neg, finite_neg]
  | finite s a ha =>
    cases y with
    | nan => exact nan_neg less
    | infinite t =>
      rw [mul] at less
      split at less
      · exact nan_neg less
      · have odd : (s ^^ t) = true := infinite_neg.mp less
        grind [infinite_neg, finite_neg]
    | finite t b hb =>
      obtain ⟨odd, positive⟩ := ofQuotient_neg less
      have left := Nat.pos_of_mul_pos_right positive
      have right := Nat.pos_of_mul_pos_left positive
      grind [finite_neg]

theorem pos_finite {negative : Bool} {n : Nat} {h : Representable n} :
    0 < finite negative n h ↔ negative = false ∧ 0 < n := by
  rw [lt_iff, zero_eq]
  cases negative <;> simp [rank?, zero]

/-- A value that is not negative has no negative quotient by a positive one. -/
theorem div_not_neg (hx : ¬ x < 0) (hy : 0 < y) : ¬ x / y < 0 := by
  change ¬ div x y < 0
  intro less
  cases x with
  | nan => cases y <;> exact nan_neg less
  | infinite s =>
    cases y with
    | nan => exact nan_neg less
    | infinite t => exact nan_neg less
    | finite t b hb =>
      obtain ⟨rfl, _⟩ := pos_finite.mp hy
      rw [div, Bool.xor_false] at less
      exact hx (infinite_neg.mpr (infinite_neg.mp less))
  | finite s a ha =>
    cases y with
    | nan => exact nan_neg less
    | infinite t => exact Nat.lt_irrefl 0 (finite_neg.mp less).2
    | finite t b hb =>
      obtain ⟨rfl, positive⟩ := pos_finite.mp hy
      rw [div, if_neg (by omega), Bool.xor_false] at less
      obtain ⟨negative, some⟩ := ofQuotient_neg less
      exact hx (finite_neg.mpr ⟨negative, Nat.pos_of_mul_pos_right some⟩)

end Solfege.Binary64
