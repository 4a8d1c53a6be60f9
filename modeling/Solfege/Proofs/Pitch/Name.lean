import Solfege.Proofs.Outcome
import Solfege.Proofs.Pitch.Language

/-! The numbers of pitch names. A letter in either case, the sign of an accidental and an octave
make a name of that pitch, and every number whose octave can be written has a name of its own. -/
namespace Solfege.Pitch
variable {name : String} {first : Char} {letter : Letter} {n : Int} {fault : Fault}

theorem numberOf_spelled (accidental : Accidental) {octave : Int}
    (writable : Numeral.Writable octave) (found : Letter.ofChar? first = some letter)
    (spelled : name.toList = first :: (accidental.sign ++ (toString octave).toList)) :
    numberOf name = .ok (12 * (octave + 1) + letter.semitones + accidental.semitones) := by
  have sum : Pitch.number ⟨letter, accidental, octave⟩ =
      12 * (octave + 1) + letter.semitones + accidental.semitones := by
    simp only [number, numberAt]
    omega
  rw [numberOf, parse_spelled accidental writable found spelled, ← sum]
  rfl

theorem number_ofNumber (n : Int) : (ofNumber n).number = n := by
  have spelled : ∀ k < 12, (spelling k).1.semitones + (spelling k).2.semitones = k := by decide
  have small := spelled (n % 12).toNat (by omega)
  simp only [ofNumber, number, numberAt, small]
  omega

/-- A pitch as it is spelled, in however many digits. -/
def spelled (p : Pitch) : String :=
  String.ofList (p.letter.toChar :: p.accidental.sign) ++ toString p.octave

theorem parse_spelled_self {p : Pitch} (writable : Numeral.Writable p.octave) :
    parse p.spelled = .ok p :=
  parse_spelled p.accidental writable p.letter.ofChar?_toChar (by simp [spelled])

/-- A number as it is spelled, in however many digits. -/
def spell (n : Int) : String := (ofNumber n).spelled

/-- The octave of a number can be written. -/
def Nameable (n : Int) : Prop := Numeral.Writable (n / 12 - 1)

instance (n : Int) : Decidable (Nameable n) :=
  inferInstanceAs (Decidable (Numeral.Writable (n / 12 - 1)))

/-- Numbers that could be written themselves have names. -/
theorem nameable_of_writable (writable : Numeral.Writable n) : Nameable n := by
  have two : 10 ^ 1 ≤ 10 ^ Numeral.digitLimit := Nat.pow_le_pow_right (by decide) (by decide)
  unfold Nameable
  unfold Numeral.Writable at *
  generalize 10 ^ Numeral.digitLimit = bound at *
  omega

theorem nameOf_eq (n : Int) :
    nameOf n = if Nameable n then .ok (spell n) else .error (.tooManyDigits none) := by
  rw [nameOf, Pitch.name, Numeral.whole?_eq]
  by_cases writable : Numeral.Writable (ofNumber n).octave
  · have nameable : Nameable n := writable
    rw [if_pos writable, if_pos nameable]
    rfl
  · have unnameable : ¬ Nameable n := writable
    rw [if_neg writable, if_neg unnameable]
    rfl

theorem nameOf_nameable (nameable : Nameable n) : nameOf n = .ok (spell n) :=
  (nameOf_eq n).trans (if_pos nameable)

theorem nameOf_unnameable (unnameable : ¬ Nameable n) : nameOf n = .error (.tooManyDigits none) :=
  (nameOf_eq n).trans (if_neg unnameable)

theorem nameOf_eq_ok : nameOf n = .ok name ↔ Nameable n ∧ spell n = name := by
  rw [nameOf_eq]
  split <;> simp [*]

theorem nameOf_eq_error :
    nameOf n = .error fault ↔ ¬ Nameable n ∧ .tooManyDigits none = fault := by
  rw [nameOf_eq]
  split <;> simp [*]

/-- A number is read back from its name. -/
theorem numberOf_spell (nameable : Nameable n) : numberOf (spell n) = .ok n := by
  have writable : Numeral.Writable (ofNumber n).octave := nameable
  rw [numberOf, spell, parse_spelled_self writable]
  exact congrArg Except.ok (number_ofNumber n)

theorem transposeName_eq (named : numberOf name = .ok n) (semitones : Int) :
    transposeName semitones name = nameOf (n + semitones) := by
  rw [transposeName, named]
  rfl

theorem numberOf_eq_error : numberOf name = .error fault ↔ Misnames name fault := by
  rw [numberOf, return_eq_error, parse_eq_error]

theorem numberOf_unsplit (unsplit : split? (Text.trimmed name) = none) :
    numberOf name = .error (.notPitch name) := by
  rw [numberOf, parse, unsplit]
  rfl

/-- Whether a text is the name of a pitch. -/
def isName (name : String) : Bool := (numberOf name).toOption.isSome

theorem isName_iff : isName name = true ↔ ∃ n, numberOf name = .ok n := by
  rw [isName]
  cases numberOf name <;> simp [Except.toOption]

theorem isName_eq_false : isName name = false ↔ ∃ fault, numberOf name = .error fault := by
  rw [isName]
  cases numberOf name <;> simp [Except.toOption]

/-! The end of the names. -/

/-- The highest C that has a name. -/
def highestC : String := String.ofList ('C' :: List.replicate Numeral.digitLimit '9')

theorem numberOf_highestC : numberOf highestC = .ok (12 * 10 ^ Numeral.digitLimit) := by
  have nines := Text.digitsValue_nines Numeral.digitLimit 0
  have numeric : ∀ c ∈ List.replicate Numeral.digitLimit '9', Text.isDigit c = true := by
    intro c here
    rw [List.eq_of_mem_replicate here]
    decide
  have some : List.replicate Numeral.digitLimit '9' ≠ [] := by
    rw [Ne, List.replicate_eq_nil_iff]
    decide
  obtain ⟨w, chars, digits, names⟩ :=
    Written.exists_c (Text.denotes_iff.mpr ⟨some, numeric, rfl⟩)
  have stands : w.StandsIn highestC := by
    rw [highestC, ← chars]
    exact w.standsIn_chars
  have short : w.Short := by
    rw [Written.Short, digits, List.length_replicate]
  have read := parse_eq_ok.mpr ⟨w, stands, short, names⟩
  have number : Pitch.number ⟨.c, .natural,
      (Text.digitsValue 0 (List.replicate Numeral.digitLimit '9') : Nat)⟩ =
        12 * 10 ^ Numeral.digitLimit := by
    have whole := Numeral.cast_bound
    simp only [Pitch.number, numberAt, Letter.semitones, Accidental.semitones, ← whole]
    rw [Nat.zero_add, Nat.one_mul] at nines
    omega
  rw [numberOf, read, ← number]
  rfl

theorem nameable_highest : Nameable (12 * 10 ^ Numeral.digitLimit) := by
  have whole := Numeral.cast_bound
  have above : 0 < 10 ^ Numeral.digitLimit := Nat.pow_pos (by decide)
  unfold Nameable Numeral.Writable
  rw [← whole]
  generalize 10 ^ Numeral.digitLimit = bound at *
  omega

theorem unnameable_of_le (high : 12 * 10 ^ Numeral.digitLimit + 12 ≤ n) : ¬ Nameable n := by
  have whole := Numeral.cast_bound
  unfold Nameable Numeral.Writable
  rw [← whole] at high
  generalize 10 ^ Numeral.digitLimit = bound at *
  omega

end Solfege.Pitch
