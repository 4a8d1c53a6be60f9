import Solfege.Proofs.Binary64.Ranks
import Solfege.Proofs.Outcome

/-! The order of numbers of mixed kinds. A finite number is a whole count of the units that reals
are made of, and finite numbers are ordered as their counts. Reading a number as a real keeps the
order, and a difference has the sign that the order gives. -/
namespace Solfege.Number
variable {x y : Number} {a : Binary64} {n : Int}

/-- A number that is neither infinite nor not a number. -/
def isFinite : Number → Bool
  | .real x => x.isFinite
  | _ => true

/-- The count of units of a finite number. -/
def units : Number → Int
  | .real (.finite negative units _) => Binary64.signed negative units
  | .real _ => 0
  | x => x.whole?.getD 0 * Binary64.oneUnits

theorem units_whole (whole : x.whole? = some n) : x.units = n * Binary64.oneUnits := by
  cases x with
  | real x => cases whole
  | flag set =>
    cases whole
    rfl
  | whole m =>
    cases whole
    rfl

theorem units_real (finite : a.isFinite = true) : a.rank? = some (Number.real a).units := by
  cases a with
  | nan => cases finite
  | infinite negative => cases finite
  | finite negative units representable => rfl

theorem whole_lt_iff {m n : Int} :
    decide (m < n) = true ↔ m * (Binary64.oneUnits : Int) < n * Binary64.oneUnits := by
  rw [decide_eq_true_eq, Int.mul_lt_mul_right (Int.natCast_pos.mpr Binary64.oneUnits_pos)]

/-- Finite numbers are in the order of their units, whatever their kinds. -/
theorem lt_iff_units (hx : x.isFinite = true) (hy : y.isFinite = true) :
    x.lt y = true ↔ x.units < y.units := by
  cases x with
  | real x =>
    cases x with
    | nan => cases hx
    | infinite negative => cases hx
    | finite s m hm =>
      cases y with
      | flag set => exact decide_eq_true_iff
      | whole n => exact decide_eq_true_iff
      | real y =>
        cases y with
        | nan => cases hy
        | infinite negative => cases hy
        | finite t n hn =>
          refine decide_eq_true_iff.trans (Binary64.lt_iff.trans ⟨?_, ?_⟩)
          · rintro ⟨_, _, ⟨⟩, ⟨⟩, less⟩
            exact less
          · intro less
            exact ⟨_, _, rfl, rfl, less⟩
  | flag set =>
    cases y with
    | flag other => exact whole_lt_iff
    | whole n => exact whole_lt_iff
    | real y =>
      cases y with
      | nan => cases hy
      | infinite negative => cases hy
      | finite t n hn => exact decide_eq_true_iff
  | whole m =>
    cases y with
    | flag other => exact whole_lt_iff
    | whole n => exact whole_lt_iff
    | real y =>
      cases y with
      | nan => cases hy
      | infinite negative => cases hy
      | finite t n hn => exact decide_eq_true_iff

theorem units_le_iff (hx : x.isFinite = true) (hy : y.isFinite = true) :
    y.lt x = false ↔ x.units ≤ y.units := by
  rw [← Int.not_lt, ← lt_iff_units hy hx, Bool.not_eq_true]

/-- The least of finite numbers is no greater than any of them. -/
theorem least_units_le {rest : List Number} (finite : ∀ y ∈ x :: rest, y.isFinite = true) :
    ∀ y ∈ x :: rest, (least x rest).units ≤ y.units := by
  induction rest generalizing x with
  | nil =>
    intro y here
    rw [List.mem_singleton.mp here]
    exact Int.le_refl _
  | cons z rest ih =>
    obtain ⟨hx, hz, others⟩ : x.isFinite = true ∧ z.isFinite = true ∧
        ∀ y ∈ rest, y.isFinite = true := by
      simpa only [List.forall_mem_cons] using finite
    -- What is kept of the first two is no greater than either.
    let kept := if z.lt x then z else x
    have step : least x (z :: rest) = least kept rest := rfl
    have both : kept.isFinite = true ∧ kept.units ≤ x.units ∧ kept.units ≤ z.units := by
      unfold kept
      cases less : z.lt x with
      | true =>
        exact ⟨hz, Int.le_of_lt ((lt_iff_units hz hx).mp less), Int.le_refl _⟩
      | false => exact ⟨hx, Int.le_refl _, (units_le_iff hx hz).mp less⟩
    obtain ⟨whole, first, second⟩ := both
    have all := ih (List.forall_mem_cons.mpr ⟨whole, others⟩)
    have here := all kept List.mem_cons_self
    rw [step]
    intro y member
    rcases List.mem_cons.mp member with rfl | member
    · omega
    · rcases List.mem_cons.mp member with rfl | later
      · omega
      · exact all y (List.mem_cons_of_mem _ later)

/-! Readings as reals. -/

theorem ofWhole_ok (made : Binary64.ofWhole n = .ok a) : a.isFinite = true ∧ a = .ofInt n := by
  unfold Binary64.ofWhole at made
  split at made
  · cases made
    exact ⟨by assumption, rfl⟩
  · cases made

theorem toReal_rank (finite : x.isFinite = true) (real : x.toReal = .ok a) :
    a.isFinite = true ∧ a.rank? = some (Binary64.roundedRank x.units) := by
  cases x with
  | real value =>
    cases real
    cases a with
    | nan => cases finite
    | infinite negative => cases finite
    | finite negative units representable =>
      exact ⟨rfl, congrArg some (Binary64.roundedRank_signed representable).symm⟩
  | flag set =>
    obtain ⟨reached, rfl⟩ := ofWhole_ok real
    exact ⟨reached, Binary64.rank_ofInt _⟩
  | whole n =>
    obtain ⟨reached, rfl⟩ := ofWhole_ok real
    exact ⟨reached, Binary64.rank_ofInt _⟩

/-- A difference of finite numbers is exact between whole numbers and else one of reals. Either way
it has the sign that the order gives, and it is a zero where neither is less. -/
theorem sub_rank {gap : Number} {seconds : Binary64} (hx : x.isFinite = true)
    (hy : y.isFinite = true) (apart : x.sub y = .ok gap) (real : gap.toReal = .ok seconds) :
    ∃ r, seconds.rank? = some r ∧ (x.lt y = false → 0 ≤ r) ∧ (y.lt x = false → r ≤ 0) := by
  have signs {r : Int} (up : y.units ≤ x.units → 0 ≤ r) (down : x.units ≤ y.units → r ≤ 0)
      (rank : seconds.rank? = some (Binary64.roundedRank r)) :
      ∃ r, seconds.rank? = some r ∧ (x.lt y = false → 0 ≤ r) ∧ (y.lt x = false → r ≤ 0) := by
    rw [units_le_iff hx hy, units_le_iff hy hx]
    refine ⟨_, rank, fun le => ?_, fun le => ?_⟩
    · rw [← Binary64.roundedRank_zero]
      exact Binary64.roundedRank_mono (up le)
    · rw [← Binary64.roundedRank_zero]
      exact Binary64.roundedRank_mono (down le)
  unfold sub at apart
  split at apart
  · rename_i m n whole whole'
    cases apart
    obtain ⟨_, rfl⟩ := ofWhole_ok real
    have scaled : (m - n) * (Binary64.oneUnits : Int) = x.units - y.units := by
      rw [units_whole whole, units_whole whole', Int.sub_mul]
    exact signs (by omega) (by omega) (Binary64.rank_ofInt _)
  · obtain ⟨a, first, apart⟩ := bind_eq_ok.mp apart
    obtain ⟨b, second, apart⟩ := bind_eq_ok.mp apart
    cases apart
    cases real
    obtain ⟨ha, rankA⟩ := toReal_rank hx first
    obtain ⟨hb, rankB⟩ := toReal_rank hy second
    refine signs (fun le => ?_) (fun le => ?_) (Binary64.rank_sub ha hb rankA rankB)
    · exact Int.sub_nonneg_of_le (Binary64.roundedRank_mono le)
    · exact Int.sub_nonpos_of_le (Binary64.roundedRank_mono le)

end Solfege.Number
