import Mathlib.Data.List.TakeWhile
import Solfege.Text.Blank
import Solfege.Text.Digit

/-! The digits that numbers are written with are read back, and they are no blanks. Blanks around a
text, and nothing else, are trimmed off. -/
namespace Solfege.Text
variable {c : Char} {text : List Char}

theorem digit_bounds (digit : c.isDigit) : 48 ≤ c.toNat ∧ c.toNat ≤ 57 := by
  simpa [Char.isDigit, UInt32.le_iff_toNat_le] using digit

theorem digit?_of_isDigit (digit : c.isDigit) : digit? c = some (c.toNat - 48) := by
  have bounds := digit_bounds digit
  have first : (0x30 ≤ c.toNat && c.toNat < 0x30 + 10) = true := by
    simp only [Bool.and_eq_true, decide_eq_true_eq]
    omega
  rw [digit?, digitZeros, List.find?_cons_of_pos (by exact first)]
  rfl

theorem isDigit_of_isDigit (digit : c.isDigit) : isDigit c := by
  rw [isDigit, digit?_of_isDigit digit]
  rfl

theorem digitsValue_eq_ofDigitChars (digits : ∀ c ∈ text, c.isDigit) (start : Nat) :
    digitsValue start text = Nat.ofDigitChars 10 text start := by
  rw [Nat.ofDigitChars_eq_foldl]
  induction text generalizing start with
  | nil => rfl
  | cons c rest ih =>
    have others := ih fun d here => digits d (by simp [here])
    rw [digitsValue, List.foldl_cons, digit?_of_isDigit (digits c (by simp))]
    exact others _

theorem toDigits_isDigit (n : Nat) : ∀ c ∈ Nat.toDigits 10 n, c.isDigit := fun _ here =>
  Nat.isDigit_of_mem_toDigits (by decide) (by decide) here

theorem digitsValue_toDigits (n : Nat) : digitsValue 0 (Nat.toDigits 10 n) = n := by
  rw [digitsValue_eq_ofDigitChars (toDigits_isDigit n),
    Nat.ofDigitChars_toDigits (by decide) (by decide)]

theorem digits_negSucc (n : Nat) :
    (toString (Int.negSucc n)).toList = '-' :: Nat.toDigits 10 (n + 1) := by
  have written : toString (Int.negSucc n) = "-" ++ (n + 1).repr := rfl
  have minus : "-".toList = ['-'] := by decide
  rw [written, String.toList_append, Nat.toList_repr, minus]
  rfl

theorem digits_ofNat (n : Nat) : (toString (Int.ofNat n)).toList = Nat.toDigits 10 n := by
  have written : toString (Int.ofNat n) = n.repr := rfl
  rw [written, Nat.toList_repr]

theorem mem_digits {n : Int} (here : c ∈ (toString n).toList) : c = '-' ∨ c.isDigit := by
  cases n with
  | ofNat n =>
    rw [digits_ofNat] at here
    exact .inr (toDigits_isDigit n c here)
  | negSucc n =>
    rw [digits_negSucc] at here
    exact (List.mem_cons.mp here).imp_right (toDigits_isDigit _ c)

/-- No digit of any script is a blank. -/
theorem not_blank_of_digit (digit : isDigit c = true) : isBlank c = false := by
  have apart : ∀ first ∈ digitZeros, ∀ range ∈ blankRanges,
      first + 9 < range.1 ∨ range.2 < first := by decide +kernel
  have found : ∃ first ∈ digitZeros, first ≤ c.toNat ∧ c.toNat < first + 10 := by
    simpa [isDigit, digit?] using digit
  obtain ⟨first, script, bounds⟩ := found
  refine List.any_eq_false.mpr fun range here => ?_
  have := apart first script range here
  simp only [Bool.and_eq_true, decide_eq_true_eq]
  omega

theorem not_blank_of_all (all : text.all (fun c => !isBlank c) = true) :
    ∀ c ∈ text, isBlank c = false := by
  intro c here
  simpa using List.all_eq_true.mp all c here

/-! Trimming. -/

/-- Trimming takes nothing but blanks off. -/
theorem exists_trim (text : List Char) : ∃ before behind, text = before ++ trim text ++ behind ∧
    (∀ c ∈ before, isBlank c = true) ∧ ∀ c ∈ behind, isBlank c = true := by
  let inner := text.dropWhile isBlank
  have back : (inner.reverse.dropWhile isBlank).reverse ++
      (inner.reverse.takeWhile isBlank).reverse = inner := by
    rw [← List.reverse_append, List.takeWhile_append_dropWhile, List.reverse_reverse]
  refine ⟨text.takeWhile isBlank, (inner.reverse.takeWhile isBlank).reverse, ?_, fun c here =>
    List.mem_takeWhile_imp here, fun c here => List.mem_takeWhile_imp (List.mem_reverse.mp here)⟩
  rw [trim, List.append_assoc, back, List.takeWhile_append_dropWhile]

/-- Trimming takes off all the blanks around a text without blanks. -/
theorem trim_between {before behind : List Char} (blank : ∀ c ∈ before, isBlank c = true)
    (solid : ∀ c ∈ text, isBlank c = false) (also : ∀ c ∈ behind, isBlank c = true) :
    trim (before ++ text ++ behind) = text := by
  have keep {text : List Char} (solid : ∀ c ∈ text.head?, isBlank c = false) :
      text.dropWhile isBlank = text := by
    cases text with
    | nil => rfl
    | cons c rest => exact List.dropWhile_cons_of_neg (by simp [solid c rfl])
  rw [trim, List.append_assoc, List.dropWhile_append_of_pos blank]
  cases text with
  | nil =>
    rw [List.nil_append, List.dropWhile_eq_nil_iff.mpr also]
    rfl
  | cons c rest =>
    have back : ∀ d ∈ behind.reverse, isBlank d = true := fun d here =>
      also d (List.mem_reverse.mp here)
    have front : ∀ d ∈ (c :: rest ++ behind).head?, isBlank d = false := by simpa using solid c
    have last : ∀ d ∈ (c :: rest).reverse.head?, isBlank d = false := fun d here =>
      solid d (List.mem_reverse.mp (List.mem_of_mem_head? here))
    rw [keep front, List.reverse_append, List.dropWhile_append_of_pos back, keep last,
      List.reverse_reverse]

theorem trim_of_not_blank (solid : ∀ c ∈ text, isBlank c = false) : trim text = text := by
  have nothing : ∀ c ∈ ([] : List Char), isBlank c = true := by simp
  simpa using trim_between nothing solid nothing

end Solfege.Text
