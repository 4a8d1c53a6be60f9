import Solfege.Proofs.Outcome
import Solfege.Proofs.Pitch.Name

/-! The spelling of numbers. A number whose octave can be written has one spelling, with naturals
and sharps, and is read back from it. Names spelled anew are the same exactly when they stand for
one number, and what is spelled anew once stays as it is. -/
namespace Solfege.Pitch
variable {name normal : String} {m n : Int}

/-- A name as its number is spelled. -/
def respelled (name : String) : Except Fault String := do nameOf (← numberOf name)

theorem respelled_named (named : numberOf name = .ok n) : respelled name = nameOf n := by
  rw [respelled, named]
  rfl

theorem respelled_eq_ok : respelled name = .ok normal ↔
    ∃ n, numberOf name = .ok n ∧ nameOf n = .ok normal := bind_eq_ok

theorem numberOf_nameOf (named : nameOf n = .ok name) : numberOf name = .ok n := by
  obtain ⟨nameable, rfl⟩ := nameOf_eq_ok.mp named
  exact numberOf_spell nameable

theorem nameOf_inj (named : nameOf m = .ok name) (also : nameOf n = .ok name) : m = n :=
  Except.ok.inj ((numberOf_nameOf named).symm.trans (numberOf_nameOf also))

theorem respelled_nameOf (named : nameOf n = .ok name) : respelled name = .ok name :=
  (respelled_named (numberOf_nameOf named)).trans named

/-- The names that are spelled as their numbers are. -/
theorem respelled_self : respelled name = .ok name ↔ ∃ n, nameOf n = .ok name := by
  constructor
  · intro same
    obtain ⟨n, _, named⟩ := respelled_eq_ok.mp same
    exact ⟨n, named⟩
  · rintro ⟨n, named⟩
    exact respelled_nameOf named

/-- Spelling and reading are inverse. Every number whose octave can be written is read back from its
spelling, no two share one, and no other number is spelled. A name of such a number can be spelled
anew, which makes it the spelling of a number, and that is spelled anew as it is. Two names of which
one can be spelled anew are spelled anew alike exactly when they stand for the same number. -/
theorem spelling_inverse :
    (∀ n, Nameable n → ∃ name, nameOf n = .ok name ∧ numberOf name = .ok n) ∧
    (∀ n, ¬ Nameable n → nameOf n = .error (.tooManyDigits none)) ∧
    (∀ m n name, nameOf m = .ok name → nameOf n = .ok name → m = n) ∧
    (∀ x n, numberOf x = .ok n → Nameable n →
      ∃ normal, respelled x = .ok normal ∧ respelled normal = .ok normal) ∧
    (∀ x, respelled x = .ok x ↔ ∃ n, nameOf n = .ok x) ∧
    ∀ x y normal, respelled x = .ok normal →
      (respelled x = respelled y ↔ numberOf x = numberOf y) := by
  refine ⟨fun n nameable => ⟨_, nameOf_nameable nameable, numberOf_spell nameable⟩,
    fun _ => nameOf_unnameable, fun _ _ _ => nameOf_inj, ?_, fun _ => respelled_self, ?_⟩
  · intro x n named nameable
    have spelled := nameOf_nameable nameable
    exact ⟨spell n, (respelled_named named).trans spelled, respelled_nameOf spelled⟩
  · intro x y normal anew
    constructor
    · intro same
      obtain ⟨m, named, spelled⟩ := respelled_eq_ok.mp anew
      obtain ⟨n, named', spelled'⟩ := respelled_eq_ok.mp (same.symm.trans anew)
      rw [named, named', nameOf_inj spelled spelled']
    · intro same
      rw [respelled, respelled, same]

/-- Spellings from both sides of the border of an octave meet below zero. -/
theorem spelling_inverse_enharmonic :
    Nameable (-12) ∧ numberOf "b#-3" = .ok (-12) ∧ respelled "b#-3" = .ok "C-2" ∧
      respelled "C-2" = .ok "C-2" ∧ respelled "b#-3" = respelled "Dbb-2" := by
  obtain ⟨_, _, _, fixed, _, meet⟩ := spelling_inverse
  have number : (numberOf "b#-3").toOption = some (-12) := by decide +kernel
  have number' : (numberOf "Dbb-2").toOption = some (-12) := by decide +kernel
  have spelled : (nameOf (-12)).toOption = some "C-2" := by decide +kernel
  have named := eq_ok_of_toOption number
  have nameable : Nameable (-12) := by decide
  obtain ⟨normal, anew, stays⟩ := fixed "b#-3" (-12) named nameable
  obtain rfl : normal = "C-2" := Except.ok.inj
    (anew.symm.trans ((respelled_named named).trans (eq_ok_of_toOption spelled)))
  exact ⟨nameable, named, anew, stays,
    (meet _ _ _ anew).mpr (named.trans (eq_ok_of_toOption number').symm)⟩

/-- The first number whose octave has too many digits is not spelled. -/
theorem spelling_beyond :
    let n : Int := 12 * (10 ^ Numeral.digitLimit + 1)
    nameOf n = .error (.tooManyDigits none) ∧
      ¬ ∃ name, nameOf n = .ok name ∧ numberOf name = .ok n := by
  intro n
  have beyond : nameOf n = .error (.tooManyDigits none) :=
    nameOf_unnameable (unnameable_of_le (by omega))
  refine ⟨beyond, ?_⟩
  rintro ⟨name, spelled, _⟩
  cases beyond.symm.trans spelled

end Solfege.Pitch
