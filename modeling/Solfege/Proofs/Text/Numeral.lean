import Mathlib.Data.List.Forall2
import Mathlib.Data.Nat.Digits.Defs
import Mathlib.Tactic.Ring
import Solfege.Numeral.Reader
import Solfege.Proofs.Text.Decimal

/-! Numerals, said without their reader. A digit of any script has the value by which it stands
behind the zero of its script. A run of digits, of one script or of several, denotes a number in
base ten, and going over it once from the left finds that number. Figures are such a run behind a
minus or without one. Numbers are read from so many digits and no more, and those that need more
are not written either. -/
namespace Solfege

namespace Text
variable {c : Char} {m n : Nat} {values : List Nat} {digits : List Char}

/-- A character is the digit of a value in some script. -/
def DigitOf (value : Nat) (c : Char) : Prop :=
  value < 10 ∧ ∃ first ∈ digitZeros, c.toNat = first + value

/-- A run of digits denotes a number. The last digit counts ones, the one before it tens. -/
def Denotes (digits : List Char) (n : Nat) : Prop :=
  digits ≠ [] ∧ ∃ values, List.Forall₂ DigitOf values digits ∧ Nat.ofDigits 10 values.reverse = n

/-! Single digits. -/

/-- No character is a digit of two scripts. -/
theorem digitZeros_apart : ∀ first ∈ digitZeros, ∀ other ∈ digitZeros,
    first = other ∨ first + 10 ≤ other ∨ other + 10 ≤ first := by
  decide +kernel

theorem digit?_eq_some : digit? c = some n ↔ DigitOf n c := by
  rw [digit?, Option.map_eq_some_iff]
  constructor
  · rintro ⟨first, found, rfl⟩
    have bounds := List.find?_some found
    simp only [Bool.and_eq_true, decide_eq_true_eq] at bounds
    exact ⟨by omega, first, List.mem_of_find?_eq_some found, by omega⟩
  · rintro ⟨small, first, script, place⟩
    have within : (first ≤ c.toNat && c.toNat < first + 10) = true := by
      simp only [Bool.and_eq_true, decide_eq_true_eq]
      omega
    cases found : digitZeros.find? fun first => first ≤ c.toNat && c.toNat < first + 10 with
    | none => exact absurd within (List.find?_eq_none.mp found first script)
    | some other =>
      have bounds := List.find?_some found
      simp only [Bool.and_eq_true, decide_eq_true_eq] at bounds
      have apart := digitZeros_apart first script other (List.mem_of_find?_eq_some found)
      exact ⟨other, rfl, by omega⟩

/-- What a character adds to the number it stands in. -/
def digitValue (c : Char) : Nat := (digit? c).getD 0

theorem digitOf_iff : DigitOf n c ↔ isDigit c = true ∧ digitValue c = n := by
  rw [← digit?_eq_some, isDigit, digitValue]
  cases digit? c <;> simp

/-! Runs of digits. -/

theorem digitOf_run : List.Forall₂ DigitOf values digits ↔
    (∀ c ∈ digits, isDigit c = true) ∧ digits.map digitValue = values := by
  constructor
  · intro each
    induction each with
    | nil => exact ⟨by simp, rfl⟩
    | cons first _ ih =>
      obtain ⟨digit, same⟩ := digitOf_iff.mp first
      exact ⟨List.forall_mem_cons.mpr ⟨digit, ih.1⟩, by rw [List.map_cons, same, ih.2]⟩
  · rintro ⟨numeric, rfl⟩
    exact List.forall₂_map_left_iff.mpr (List.forall₂_same.mpr fun c here =>
      digitOf_iff.mpr ⟨numeric c here, rfl⟩)

/-- Going on by ten times what has been read is reading in base ten. -/
theorem digitsValue_eq_ofDigits (digits : List Char) :
    digitsValue 0 digits = Nat.ofDigits 10 (digits.map digitValue).reverse := by
  rw [Nat.ofDigits_eq_foldr, List.foldr_reverse, List.foldl_map, digitsValue]
  congr 1
  funext value c
  exact Nat.add_comm _ _

theorem denotes_iff : Denotes digits n ↔
    digits ≠ [] ∧ (∀ c ∈ digits, isDigit c = true) ∧ digitsValue 0 digits = n := by
  rw [digitsValue_eq_ofDigits]
  refine and_congr_right fun _ => ⟨?_, ?_⟩
  · rintro ⟨values, each, rfl⟩
    obtain ⟨numeric, rfl⟩ := digitOf_run.mp each
    exact ⟨numeric, rfl⟩
  · rintro ⟨numeric, rfl⟩
    exact ⟨_, digitOf_run.mpr ⟨numeric, rfl⟩, rfl⟩

/-- Zeros in front count for nothing. -/
theorem digitsValue_zeros (k : Nat) (digits : List Char) :
    digitsValue 0 (List.replicate k '0' ++ digits) = digitsValue 0 digits := by
  induction k with
  | zero => rfl
  | succ k ih => exact ih

/-- Nines are one less than the next power of ten. -/
theorem digitsValue_nines (k start : Nat) :
    digitsValue start (List.replicate k '9') + 1 = (start + 1) * 10 ^ k := by
  induction k generalizing start with
  | zero => simp [digitsValue]
  | succ k ih =>
    have next : digitsValue start (List.replicate (k + 1) '9') =
      digitsValue (10 * start + 9) (List.replicate k '9') := rfl
    rw [next, ih, Nat.pow_succ']
    ring

theorem Denotes.unique (denotes : Denotes digits m) (also : Denotes digits n) : m = n :=
  (denotes_iff.mp denotes).2.2.symm.trans (denotes_iff.mp also).2.2

/-- Zeros in front change nothing. -/
theorem Denotes.zeros (denotes : Denotes digits n) (k : Nat) :
    Denotes (List.replicate k '0' ++ digits) n := by
  obtain ⟨some, numeric, value⟩ := denotes_iff.mp denotes
  refine denotes_iff.mpr
    ⟨by simp [some], fun c here => ?_, (digitsValue_zeros k digits).trans value⟩
  rcases List.mem_append.mp here with zeros | behind
  · rw [List.eq_of_mem_replicate zeros]
    decide
  · exact numeric c behind

/-- A number is denoted by its digits as it is written. -/
theorem denotes_toDigits (n : Nat) : Denotes (Nat.toDigits 10 n) n := by
  refine denotes_iff.mpr ⟨by simp, fun c here => ?_, digitsValue_toDigits n⟩
  exact isDigit_of_isDigit (toDigits_isDigit n c here)

/-! Figures. -/

/-- A whole number as it is written. -/
@[ext]
structure Figures where
  minus : Bool
  digits : List Char
  magnitude : Nat
  denotes : Denotes digits magnitude

namespace Figures

def chars (figures : Figures) : List Char :=
  if figures.minus then '-' :: figures.digits else figures.digits

def value (figures : Figures) : Int :=
  if figures.minus then -figures.magnitude else figures.magnitude

theorem mem_chars {figures : Figures} (here : c ∈ figures.chars) : c = '-' ∨ isDigit c = true := by
  have numeric := (denotes_iff.mp figures.denotes).2.1
  unfold chars at here
  split at here
  · exact (List.mem_cons.mp here).imp_right (numeric c)
  · exact .inr (numeric c here)

/-- A minus is no digit, so it can be told from what is in front. -/
theorem minus_iff (figures : Figures) :
    figures.chars.head? = some '-' ↔ figures.minus = true := by
  have numeric := (denotes_iff.mp figures.denotes).2.1
  unfold chars
  split
  · rename_i minus
    simp [minus]
  · rename_i plain
    refine ⟨fun front => ?_, fun minus => absurd minus plain⟩
    have digit := numeric '-' (List.mem_of_mem_head? front)
    exact absurd digit (by decide)

/-- A text is written in figures in one way. -/
theorem chars_injective : Function.Injective chars := by
  intro figures other same
  have minus : figures.minus = other.minus := by
    rw [Bool.eq_iff_iff, ← minus_iff, ← minus_iff, same]
  have digits : figures.digits = other.digits := by
    unfold chars at same
    rw [minus] at same
    split at same
    · exact (List.cons.inj same).2
    · exact same
  have also := other.denotes
  rw [← digits] at also
  exact Figures.ext minus digits (figures.denotes.unique also)

/-- A number as it is printed is written in figures. -/
theorem exists_printed (n : Int) : ∃ figures : Figures, figures.chars = (toString n).toList ∧
    figures.value = n ∧ figures.digits = Nat.toDigits 10 n.natAbs := by
  cases n with
  | ofNat n => exact ⟨⟨false, _, n, denotes_toDigits n⟩, (digits_ofNat n).symm, rfl, rfl⟩
  | negSucc n =>
    exact ⟨⟨true, _, n + 1, denotes_toDigits (n + 1)⟩, (digits_negSucc n).symm, rfl, rfl⟩

end Figures
end Text

/-! Numbers with too many digits. -/

namespace Numeral
variable {digits : List Char} {magnitude : Nat} {n : Int}

theorem ofDigits_short (denotes : Text.Denotes digits magnitude)
    (short : digits.length ≤ digitLimit) : ofDigits digits = .ok magnitude := by
  rw [ofDigits, if_pos short, (Text.denotes_iff.mp denotes).2.2]
  rfl

theorem ofDigits_long (long : ¬ digits.length ≤ digitLimit) :
    ofDigits digits = .error (.tooManyDigits (some digits.length)) := if_neg long

/-- A whole number that is below the least with too many digits, whatever its sign. -/
def Writable (n : Int) : Prop := n.natAbs < 10 ^ digitLimit

theorem writable_iff : Writable n ↔ (Nat.toDigits 10 n.natAbs).length ≤ digitLimit :=
  (Nat.length_toDigits_le_iff (by decide) (by decide)).symm

instance (n : Int) : Decidable (Writable n) := decidable_of_iff _ writable_iff.symm

theorem Writable.of_few {k : Nat} (few : n.natAbs < 10 ^ k) (within : k ≤ digitLimit) :
    Writable n := Nat.lt_of_lt_of_le few (Nat.pow_le_pow_right (by decide) within)

/-- The first number that cannot be written, as an integer. -/
theorem cast_bound : ((10 ^ digitLimit : Nat) : Int) = 10 ^ digitLimit :=
  Int.natCast_pow 10 digitLimit

theorem whole?_eq (n : Int) : whole? n = if Writable n then some (toString n) else none :=
  (if_congr writable_iff rfl rfl).symm

end Numeral
end Solfege
