import Solfege.Proofs.Outcome
import Solfege.Proofs.Pitch.Name
import Solfege.Recorder.Basic

/-! What an engine records of a sound. Names are read one after the other, and a note is recorded
for each. The first that is not that of a pitch ends the reading, and the notes before it stay. -/
namespace Solfege.Recorder
variable {duration start velocity : Number} {names : List String}

/-- The numbers that names stand for, one for one. -/
abbrev Named : List String → List Int → Prop :=
  List.Forall₂ fun name number => Pitch.numberOf name = .ok number

/-- The first name of some that is not that of a pitch, behind others that are, and its fault. -/
structure Misnamed (names heard : List String) (misnomer : String) (fault : Fault)
    (numbers : List Int) : Prop where
  cut : ∃ unheard, names = heard ++ misnomer :: unheard
  named : Named heard numbers
  unnamed : Pitch.Misnames misnomer fault

/-- The notes of numbers that sound together. -/
def chord (duration start velocity : Number) (numbers : List Int) : List RecordedNote :=
  numbers.map fun number => ⟨number, start, duration, velocity⟩

/-- Names are all read, or up to the first that is not that of a pitch. -/
theorem notesFor_cases (duration start velocity : Number) (names : List String) :
    (∃ numbers, Named names numbers ∧
      notesFor duration start velocity names = (chord duration start velocity numbers, .ok ())) ∨
    ∃ heard misnomer fault numbers, Misnamed names heard misnomer fault numbers ∧
      notesFor duration start velocity names =
        (chord duration start velocity numbers, .error fault) := by
  induction names with
  | nil => exact .inl ⟨[], .nil, rfl⟩
  | cons name rest ih =>
    rw [notesFor]
    cases named : Pitch.numberOf name with
    | error fault =>
      have unnamed := Pitch.numberOf_eq_error.mp named
      exact .inr ⟨[], name, fault, [], ⟨⟨rest, rfl⟩, .nil, unnamed⟩, rfl⟩
    | ok number =>
      rcases ih with ⟨numbers, others, read⟩ | ⟨heard, misnomer, fault, numbers, misnamed, read⟩
      · rw [read]
        exact .inl ⟨number :: numbers, .cons named others, rfl⟩
      · obtain ⟨⟨unheard, cut⟩, others, unnamed⟩ := misnamed
        rw [read]
        refine .inr ⟨name :: heard, misnomer, fault, number :: numbers,
          ⟨⟨unheard, ?_⟩, ?_, unnamed⟩, rfl⟩
        · rw [cut, List.cons_append]
        · exact .cons named others

/-- The reading succeeds when all names are those of pitches. -/
theorem notesFor_ok : (notesFor duration start velocity names).2 = .ok () ↔
    ∀ name ∈ names, ∃ number, Pitch.numberOf name = .ok number := by
  rcases notesFor_cases duration start velocity names with
    ⟨numbers, named, read⟩ | ⟨heard, misnomer, fault, numbers, ⟨⟨unheard, cut⟩, _, unnamed⟩, read⟩
  · simp only [read, true_iff]
    intro name here
    obtain ⟨number, _, named⟩ := exists_of_mem_left named here
    exact ⟨number, named⟩
  · simp only [read, reduceCtorEq, false_iff]
    intro pitches
    obtain ⟨number, named⟩ := pitches misnomer (by simp [cut])
    cases (Pitch.numberOf_eq_error.mpr unnamed).symm.trans named

/-- A sound is recorded whole, one note for each of its names in their order, when all of them are
those of pitches. Otherwise the first that is not is at fault, and what stands before it is
recorded: nothing, if and only if the sound begins with it. -/
theorem trigger_whole_or_begun (recorder : Recorder) (sound : Sound)
    (duration start velocity : Number) :
    let (later, outcome) := recorder.trigger sound.names duration start velocity
    (∃ numbers, Named sound.names numbers ∧ outcome = .ok () ∧
      later = { recorder with
        notes := recorder.notes ++ chord duration start velocity numbers }) ∨
    ∃ heard misnomer fault numbers, Misnamed sound.names heard misnomer fault numbers ∧
      outcome = .error fault ∧
      later = { recorder with
        notes := recorder.notes ++ chord duration start velocity numbers } ∧
      (later = recorder ↔ heard = []) := by
  rw [trigger]
  rcases notesFor_cases duration start velocity sound.names with
    ⟨numbers, named, read⟩ | ⟨heard, misnomer, fault, numbers, misnamed, read⟩
  · rw [read]
    exact .inl ⟨numbers, named, rfl, rfl⟩
  · rw [read]
    refine .inr ⟨heard, misnomer, fault, numbers, misnamed, rfl, rfl, ?_⟩
    have sizes := misnamed.named.length_eq
    constructor
    · intro same
      have notes : recorder.notes ++ chord duration start velocity numbers = recorder.notes :=
        congrArg Recorder.notes same
      have none : numbers = [] := List.map_eq_nil_iff.mp (List.append_right_eq_self.mp notes)
      rw [none] at sizes
      exact List.length_eq_zero_iff.mp sizes
    · rintro rfl
      have none : numbers = [] := List.length_eq_zero_iff.mp sizes.symm
      rw [none, chord, List.map_nil, List.append_nil]

/-- The first name of a group is recorded, although the second is not that of a pitch. -/
theorem trigger_begun :
    let recorder : Recorder := .standard 0
    let done := recorder.trigger (Sound.group ["C4", "H4"]).names (.real 1) (.real 0) (.real 1)
    done.2 = .error (.notPitch "H4") ∧ done.1.notes = [⟨60, .real 0, .real 1, .real 1⟩] ∧
      recorder.notes = [] := by
  have first : Pitch.numberOf "C4" = .ok 60 := eq_ok_of_toOption (by decide +kernel)
  have second : Pitch.numberOf "H4" = .error (.notPitch "H4") :=
    Pitch.numberOf_unsplit (by decide +kernel)
  simp [trigger, notesFor, Sound.names, first, second, standard]

end Solfege.Recorder
