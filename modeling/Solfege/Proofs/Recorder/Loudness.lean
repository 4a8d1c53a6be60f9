import Solfege.Proofs.Number.Order
import Solfege.Recorder.Writing

/-! Loudness on the scale of the format. It goes by how large a velocity is, whatever its kind, and
never falls as the velocity grows. -/
namespace Solfege.Recorder
variable {velocity other : Number} {quiet loud : Int}

/-- The top of the scale in units. -/
def topUnits : ℕ := 127 * Binary64.oneUnits

theorem topUnits_representable : Binary64.Representable topUnits := by decide +kernel

theorem top_eq : (127 : Binary64) = .finite false topUnits topUnits_representable := by
  decide +kernel

/-- The loudness of so many units. -/
def loudness (units : Int) : Int :=
  max 1 (min 127 (Binary64.mirrored Binary64.nearestWhole
    (Binary64.mirrored (Binary64.scaledUnits topUnits) units)))

theorem loudness_mono {a b : Int} (le : a ≤ b) : loudness a ≤ loudness b := by
  have scaled := Binary64.mirrored_mono (Binary64.scaledUnits_mono topUnits) le
  have nearest := Binary64.mirrored_mono Binary64.nearestWhole_mono scaled
  unfold loudness
  omega

theorem loudness_zero : loudness 0 = 1 := by decide +kernel

theorem loudness_one : loudness Binary64.oneUnits = 127 := by decide +kernel

theorem loudness_bounds (units : Int) : 1 ≤ loudness units ∧ loudness units ≤ 127 := by
  unfold loudness
  omega

/-- A whole velocity is at one end of the scale or the other. -/
theorem loudness_whole (n : Int) :
    loudness (n * Binary64.oneUnits) = max 1 (min 127 (n * 127)) := by
  have bounds := loudness_bounds (n * Binary64.oneUnits)
  rcases Int.lt_or_le 0 n with positive | nonpos
  · have least := Int.mul_le_mul_of_nonneg_right (show 1 ≤ n from positive)
      (Int.natCast_nonneg Binary64.oneUnits)
    rw [Int.one_mul] at least
    have loud := loudness_mono least
    rw [loudness_one] at loud
    omega
  · have most : n * (Binary64.oneUnits : Int) ≤ 0 :=
      Int.mul_nonpos_of_nonpos_of_nonneg nonpos (Int.natCast_nonneg _)
    have quiet := loudness_mono most
    rw [loudness_zero] at quiet
    omega

theorem volume_eq (made : volume velocity = .ok loud) :
    velocity.isFinite = true ∧ loud = loudness velocity.units := by
  cases velocity with
  | flag set =>
    cases made
    exact ⟨rfl, (loudness_whole _).symm⟩
  | whole n =>
    cases made
    exact ⟨rfl, (loudness_whole _).symm⟩
  | real x =>
    obtain ⟨scaled, nearest, made⟩ := bind_eq_ok.mp made
    cases made
    obtain ⟨finite, _⟩ := Binary64.isFinite_of_mul (Binary64.isFinite_of_rounded nearest)
    rw [top_eq] at nearest
    have rank := Binary64.rank_mul topUnits_representable finite (Number.units_real finite)
    exact ⟨finite, by rw [Binary64.rounded_eq rank nearest, loudness]⟩

/-- A velocity has a loudness unless it is a real that is too large to be scaled. -/
theorem volume_ok (fits : ∀ x, velocity = .real x → (x * 127).isFinite = true) :
    ∃ loud, volume velocity = .ok loud := by
  cases velocity with
  | flag set => exact ⟨_, rfl⟩
  | whole n => exact ⟨_, rfl⟩
  | real x =>
    obtain ⟨scaled, size⟩ := Binary64.rounded_finite (fits x rfl)
    exact ⟨max 1 (min 127 scaled), bind_eq_ok.mpr ⟨scaled, size, rfl⟩⟩

theorem volume_bounds (made : volume velocity = .ok loud) : 1 ≤ loud ∧ loud ≤ 127 := by
  obtain ⟨_, rfl⟩ := volume_eq made
  exact loudness_bounds _

theorem volume_mono (first : volume velocity = .ok quiet) (second : volume other = .ok loud)
    (atLeast : other.lt velocity = false) : quiet ≤ loud := by
  obtain ⟨finite, rfl⟩ := volume_eq first
  obtain ⟨finite', rfl⟩ := volume_eq second
  exact loudness_mono ((Number.units_le_iff finite finite').mp atLeast)

end Solfege.Recorder
