import Solfege.Proofs.Duration.Language
import Solfege.Proofs.Duration.Seconds
import Solfege.Proofs.Outcome

/-! Texts that are recognised as duration codes, and texts that are converted. Both are read by one
reader, but blanks around a code are ignored only where it is converted. -/
namespace Solfege

/-- What goes wrong with a text that is no duration code. -/
inductive Fault.NoCode : Fault → Prop
  | unread (code : String) : NoCode (.notDuration code)
  | uncounted (code : String) : NoCode (.zeroSubdivision code)

namespace Duration
variable {code : List Char} {quarters : Rat} {fault : Fault} {text : String}

/-- A text is converted at the reference tempo. It may be too long for a real, but nothing is wrong
with it as a code. -/
def Converts (text : String) : Prop :=
  ∀ fault, (NoteLength.code text).toSeconds referenceTempo = .error fault → ¬ fault.NoCode

/-- What is written between the blanks of a text has no more digits than numbers are read from. -/
def Within (text : String) : Prop := ∀ w : Written, w.chars = Text.trimmed text → w.Short

theorem quarters_error (within : Within text)
    (failed : Duration.quarters (Text.trimmed text) = .error fault) : fault.NoCode := by
  cases quarters_eq_error.mp failed with
  | unwritten => exact .unread _
  | uncounted => exact .uncounted _
  | overlong w same long => exact absurd (within w same) long

theorem quartersReal_error (failed : quartersReal quarters = .error fault) :
    fault = .quotientTooLarge := by
  unfold quartersReal at failed
  dsimp only at failed
  split at failed <;> cases failed
  rfl

/-- What is converted is what is read as a code between its blanks. -/
theorem converts_iff (within : Within text) :
    Converts text ↔ ∃ q, Duration.quarters (Text.trimmed text) = .ok q := by
  have reference : (0 : Binary64) < 120 := by decide +kernel
  have seconds : (NoteLength.code text).toSeconds referenceTempo =
      (Duration.quarters (Text.trimmed text) >>= quartersReal).map (· * (60 / 120)) :=
    codeSeconds_eq reference text
  rw [Converts, seconds]
  simp only [map_eq_error, bind_eq_error]
  cases read : Duration.quarters (Text.trimmed text) with
  | error fault =>
    constructor
    · intro converts
      exact absurd (quarters_error within read) (converts fault (.inl rfl))
    · rintro ⟨q, made⟩
      cases made
  | ok q =>
    refine ⟨fun _ => ⟨q, rfl⟩, fun _ fault failed => ?_⟩
    rcases failed with failed | ⟨_, _, failed⟩
    · cases failed
    · rw [quartersReal_error failed]
      rintro ⟨⟩

theorem isCode_iff_quarters :
    isCode text = .ok true ↔ ∃ q, Duration.quarters text.toList = .ok q := by
  unfold isCode
  cases Duration.quarters text.toList with
  | ok q => simp [pure, Except.pure]
  | error fault =>
    have unknown : ¬ ∃ q, (Except.error fault : Except Fault Rat) = .ok q := nofun
    refine iff_of_false (fun known => ?_) unknown
    cases fault <;> cases known

/-- There are no blanks in a code. -/
theorem Written.solid (w : Written) : ∀ c ∈ w.chars, Text.isBlank c = false := by
  have suffixes (suffix : Suffix) : ∀ c ∈ suffix.toChars, Text.isBlank c = false :=
    Text.not_blank_of_all (by cases suffix <;> decide)
  obtain ⟨_, numeric, _⟩ := Text.denotes_iff.mp w.denotes
  intro c here
  rcases List.mem_append.mp here with digit | letter
  · exact Text.not_blank_of_digit (numeric c digit)
  · exact suffixes w.suffix c letter

theorem trimmed_of_quarters {q : Rat} (made : Duration.quarters text.toList = .ok q) :
    Text.trimmed text = text.toList := by
  have zero : ∀ c ∈ ['0'], Text.isBlank c = false := Text.not_blank_of_all (by decide)
  apply Text.trim_of_not_blank
  rcases quarters_eq_ok.mp made with ⟨same, _⟩ | ⟨w, same, _⟩
  · rwa [same]
  · rw [← same]
    exact w.solid

/-- The check of a code whose digits are not too many has an answer. -/
theorem exists_isCode (within : Within text) : ∃ known, isCode text = .ok known := by
  unfold isCode
  cases read : Duration.quarters text.toList with
  | ok q => exact ⟨true, rfl⟩
  | error fault =>
    cases quarters_eq_error.mp read with
    | unwritten => exact ⟨false, rfl⟩
    | uncounted => exact ⟨false, rfl⟩
    | overlong w same long =>
      have bare : Text.trimmed text = text.toList :=
        Text.trim_of_not_blank (same ▸ w.solid)
      exact absurd (within w (same.trans bare.symm)) long

/-- Where digits are not too many every text is recognised as a code or not, and is so exactly when
it is converted and has no blanks around it. It is converted exactly when what stands between its
blanks is recognised. -/
theorem isCode_iff_converts (text : String) (within : Within text) :
    (∃ known, isCode text = .ok known) ∧
    (isCode text = .ok true ↔ Converts text ∧ Text.trimmed text = text.toList) ∧
    (Converts text ↔ isCode (String.ofList (Text.trimmed text)) = .ok true) := by
  rw [converts_iff within, isCode_iff_quarters, isCode_iff_quarters, String.toList_ofList]
  refine ⟨exists_isCode within, ⟨?_, ?_⟩, Iff.rfl⟩
  · rintro ⟨q, made⟩
    have bare := trimmed_of_quarters made
    rw [bare]
    exact ⟨⟨q, made⟩, rfl⟩
  · rintro ⟨⟨q, made⟩, bare⟩
    rw [bare] at made
    exact ⟨q, made⟩

theorem within_of_length (few : (Text.trimmed text).length ≤ Numeral.digitLimit) : Within text := by
  intro w same
  rw [← same, Written.chars, List.length_append] at few
  exact Nat.le_trans (Nat.le_add_right _ _) few

/-- A zero in front and digits of another script are converted as they are recognised. -/
theorem isCode_iff_converts_scripts :
    let text := "0\u0661\u0666n."
    Within text ∧ isCode text = .ok true ∧ Converts text := by
  intro text
  have within : Within text := within_of_length (by decide +kernel)
  have known : (isCode text).toOption = some true := by decide +kernel
  obtain ⟨_, recognised, _⟩ := isCode_iff_converts text within
  exact ⟨within, eq_ok_of_toOption known, (recognised.mp (eq_ok_of_toOption known)).1⟩

/-- A quarter between blanks is converted and not recognised. -/
theorem padded_unrecognised :
    ¬ ∀ text, Within text → (isCode text = .ok true ↔ Converts text) := by
  intro agree
  have short : Within " 4n " := within_of_length (by decide +kernel)
  have within : (isCode (String.ofList (Text.trimmed " 4n "))).toOption = some true := by
    decide +kernel
  have unknown : (isCode " 4n ").toOption = some false := by decide +kernel
  obtain ⟨q, made⟩ := isCode_iff_quarters.mp (eq_ok_of_toOption within)
  rw [String.toList_ofList] at made
  have known := (agree " 4n " short).mpr ((converts_iff short).mpr ⟨q, made⟩)
  cases (eq_ok_of_toOption unknown).symm.trans known

end Duration
end Solfege
