import Solfege.Number.Arithmetic
import Solfege.Proofs.Binary64.Unsigned

/-! Ranks of differences, of products with a positive value and of rounded values. Each comes from
the ranks of the operands by a function of their magnitudes that keeps the order, continued to the
negative side. -/
namespace Solfege.Binary64
variable {x y : Binary64} {a b : Int}

theorem rank_of_isFinite (finite : x.isFinite = true) : ∃ a, x.rank? = some a := by
  cases x with
  | nan => cases finite
  | infinite negative => cases finite
  | finite negative units representable => exact ⟨_, rfl⟩

theorem not_neg_of_rank (rank : x.rank? = some a) (nonneg : 0 ≤ a) : ¬ x < 0 := by
  rw [lt_iff]
  rintro ⟨b, c, rank', zero, less⟩
  cases rank.symm.trans rank'
  cases rank_zero.symm.trans zero
  omega

theorem nonneg_of_not_neg (finite : x.isFinite = true) (notNeg : ¬ x < 0) : 0 ≤ x := by
  obtain ⟨a, rank⟩ := rank_of_isFinite finite
  refine le_iff.mpr ⟨0, a, rank_zero, rank, Int.not_lt.mp fun less => ?_⟩
  exact notNeg (lt_iff.mpr ⟨a, 0, rank, rank_zero, less⟩)

theorem compare_zero (rank : x.rank? = some 0) : x.compare? 0 = some .eq := by
  rw [compare?, rank, rank_zero]
  rfl

/-! Differences. -/

theorem rank_sub (hx : x.isFinite = true) (hy : y.isFinite = true) (rankX : x.rank? = some a)
    (rankY : y.rank? = some b) : (x - y).rank? = some (roundedRank (a - b)) := by
  cases x with
  | nan => cases hx
  | infinite negative => cases hx
  | finite s m hm =>
    cases y with
    | nan => cases hy
    | infinite negative => cases hy
    | finite t n hn =>
      cases rankX
      cases rankY
      have turned : signed (!t) n = -signed t n := by cases t <;> simp
      have difference : finite s m hm - finite t n hn =
          ofUnits (signed s m + signed (!t) n) (s && !t) := rfl
      rw [difference, rank_ofUnits, turned, Int.sub_eq_add_neg]

theorem rank_ofInt (n : Int) : (ofInt n).rank? = some (roundedRank (n * oneUnits)) := by
  have sign : (n * oneUnits < 0) = (n < 0) := by
    refine propext ⟨fun less => ?_, fun less => ?_⟩
    · exact Int.neg_of_mul_neg_left less (Int.natCast_nonneg _)
    · exact Int.mul_neg_of_neg_of_pos less (Int.natCast_pos.mpr oneUnits_pos)
  have size : (n * oneUnits).natAbs = n.natAbs * oneUnits := by
    rw [Int.natAbs_mul, Int.natAbs_natCast]
  rw [ofInt, rank_ofQuotient, roundedRank, roundedUnits, size]
  simp only [sign]

/-! Products. -/

/-- The magnitude of a product with a value of `k` units. -/
def scaledUnits (k n : ℕ) : ℕ := min (roundUnits (n * k) oneUnits) limitUnits

theorem scaledUnits_mono (k : ℕ) {m n : ℕ} (le : m ≤ n) : scaledUnits k m ≤ scaledUnits k n := by
  have product := roundUnits_mono oneUnits_pos (Nat.mul_le_mul_right k le)
  unfold scaledUnits
  omega

theorem scaledUnits_zero (k : ℕ) : scaledUnits k 0 = 0 := by
  rw [scaledUnits, Nat.zero_mul, roundUnits_zero, Nat.zero_min]

theorem rank_mul {k : ℕ} (hk : Representable k) (hx : x.isFinite = true)
    (rank : x.rank? = some a) :
    (x * finite false k hk).rank? = some (mirrored (scaledUnits k) a) := by
  cases x with
  | nan => cases hx
  | infinite negative => cases hx
  | finite s m hm =>
    cases rank
    have product : finite s m hm * finite false k hk =
        ofQuotient (s ^^ false) (m * k) oneUnits := rfl
    rw [product, rank_ofQuotient, mirrored_signed (scaledUnits_zero k), Bool.xor_false, scaledUnits]

/-- A finite product with a zero is a zero. -/
theorem rank_mul_zero (finite : (x * y).isFinite = true) (zero : x.rank? = some 0) :
    (x * y).rank? = some 0 := by
  obtain ⟨hx, hy⟩ := isFinite_of_mul finite
  cases x with
  | nan => cases hx
  | infinite negative => cases hx
  | finite s m hm =>
    cases y with
    | nan => cases hy
    | infinite negative => cases hy
    | finite t n hn =>
      have none : m = 0 := by
        have same : signed s m = 0 := Option.some.inj zero
        rw [← natAbs_signed s m, same]
        rfl
      have product : Binary64.finite s m hm * .finite t n hn =
          ofQuotient (s ^^ t) (m * n) oneUnits := rfl
      rw [product, none, Nat.zero_mul, rank_ofQuotient, roundUnits_zero, Nat.zero_min]
      cases s <;> cases t <;> rfl

/-! Whole numbers nearest to values. -/

/-- The whole number nearest to a magnitude. -/
def nearestWhole (units : ℕ) : ℕ := nearest units oneUnits

theorem nearestWhole_mono {m n : ℕ} (le : m ≤ n) : nearestWhole m ≤ nearestWhole n :=
  nearest_mono oneUnits le

theorem nearestWhole_zero : nearestWhole 0 = 0 := by
  rw [nearestWhole, nearest_of_dvd (Nat.dvd_zero _) oneUnits_pos, Nat.zero_div]

theorem rounded_eq {n : Int} (rank : x.rank? = some a) (whole : x.rounded = .ok n) :
    n = mirrored nearestWhole a := by
  cases x with
  | nan => cases whole
  | infinite negative => cases whole
  | finite s m hm =>
    cases rank
    cases whole
    rw [mirrored_signed nearestWhole_zero]
    rfl

theorem rounded_finite (finite : x.isFinite = true) : ∃ n, x.rounded = .ok n := by
  cases x with
  | nan => cases finite
  | infinite negative => cases finite
  | finite s m hm => exact ⟨_, rfl⟩

theorem isFinite_of_rounded {n : Int} (whole : x.rounded = .ok n) : x.isFinite = true := by
  cases x with
  | nan => cases whole
  | infinite negative => cases whole
  | finite s m hm => rfl

end Solfege.Binary64
