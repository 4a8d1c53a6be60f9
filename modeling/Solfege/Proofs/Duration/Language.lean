import Mathlib.Data.List.TakeWhile
import Mathlib.Tactic.Ring
import Solfege.Duration.Code
import Solfege.Proofs.Outcome
import Solfege.Proofs.Shorthand.Grammar
import Solfege.Proofs.Text.Numeral

/-! The language of duration codes, said without their reader. A code is written as a count in
digits of any script and a suffix, and denotes a length exactly when the count is positive and has
no more digits than numbers are read from; `0` alone is a code of its own. The durations of the note
grammar are such codes. -/
namespace Solfege.Duration

namespace Suffix
variable {code : List Char} {suffix : Suffix}

/-- The quarters of a suffix behind a count: measures of four, or parts of a whole note, of which
dotted ones are longer by half and triplets are two thirds. -/
def worth : Suffix → Nat → Rat
  | .measures, count => 4 * count
  | .plain, count => 4 / count
  | .dotted, count => 6 / count
  | .triplet, count => 8 / (3 * count)

theorem quarters_eq_worth (suffix : Suffix) (count : Nat) :
    suffix.quarters count = suffix.worth count := by
  cases suffix <;> simp only [quarters, worth] <;> ring

/-- Counts are told apart by what they are worth with a suffix. -/
theorem worth_injective (suffix : Suffix) : Function.Injective suffix.worth := by
  intro m n same
  cases suffix <;> simpa [worth, div_eq_mul_inv] using same

theorem read?_eq_some : read? code = some suffix ↔ code = suffix.toChars := by
  constructor
  · intro found
    unfold read? at found
    split at found <;> cases found <;> rfl
  · rintro rfl
    cases suffix <;> rfl

theorem toChars_injective : Function.Injective toChars := by
  intro suffix other same
  exact Option.some.inj ((read?_eq_some.mpr same).symm.trans (read?_eq_some.mpr rfl)).symm

/-- A suffix goes on no run of digits. -/
theorem toChars_head (suffix : Suffix) : ∃ c rest, suffix.toChars = c :: rest ∧
    Text.isDigit c = false := by
  cases suffix <;> exact ⟨_, _, rfl, by decide⟩

end Suffix

/-- A code as it is written. -/
@[ext]
structure Written where
  digits : List Char
  count : Nat
  suffix : Suffix
  denotes : Text.Denotes digits count

variable {code : List Char} {q : Rat} {fault : Fault}

namespace Written

def chars (w : Written) : List Char := w.digits ++ w.suffix.toChars

/-- The count of a code has no more digits than numbers are read from. -/
def Short (w : Written) : Prop := w.digits.length ≤ Numeral.digitLimit

theorem takeWhile_chars (w : Written) : w.chars.takeWhile Text.isDigit = w.digits := by
  obtain ⟨_, numeric, _⟩ := Text.denotes_iff.mp w.denotes
  obtain ⟨c, rest, begins, other⟩ := w.suffix.toChars_head
  rw [chars, begins, List.takeWhile_append_of_pos numeric,
    List.takeWhile_cons_of_neg (by simp [other]), List.append_nil]

theorem dropWhile_chars (w : Written) : w.chars.dropWhile Text.isDigit = w.suffix.toChars := by
  have whole : w.chars.takeWhile Text.isDigit ++ w.chars.dropWhile Text.isDigit = w.chars :=
    List.takeWhile_append_dropWhile
  rw [takeWhile_chars] at whole
  exact List.append_cancel_left whole

/-- A text is written as a code in one way. -/
theorem chars_injective : Function.Injective chars := by
  intro v w same
  have digits : v.digits = w.digits := by
    rw [← takeWhile_chars, same, takeWhile_chars]
  have suffix : v.suffix = w.suffix := by
    apply Suffix.toChars_injective
    rw [← dropWhile_chars, same, dropWhile_chars]
  have denotes := w.denotes
  rw [← digits] at denotes
  exact Written.ext digits (v.denotes.unique denotes) suffix

theorem split?_chars (w : Written) : split? w.chars = some (w.digits, w.suffix) := by
  have nonempty := (Text.denotes_iff.mp w.denotes).1
  have suffix := Suffix.read?_eq_some.mpr (rfl : w.suffix.toChars = _)
  unfold split?
  dsimp only
  rw [takeWhile_chars, dropWhile_chars, if_neg (by simpa using nonempty), suffix, Option.map_some]

/-- What is taken for a code is written as one. -/
theorem of_split? {ds : List Char} {suffix : Suffix} (found : split? code = some (ds, suffix)) :
    ∃ w : Written, w.chars = code := by
  unfold split? at found
  dsimp only at found
  split at found
  · cases found
  · rename_i some
    obtain ⟨_, suffixed, same⟩ := Option.map_eq_some_iff.mp found
    cases same
    have denotes : Text.Denotes (code.takeWhile Text.isDigit)
        (Text.digitsValue 0 (code.takeWhile Text.isDigit)) :=
      Text.denotes_iff.mpr ⟨by simpa using some, fun c here => List.mem_takeWhile_imp here, rfl⟩
    refine ⟨⟨_, _, suffix, denotes⟩, ?_⟩
    rw [chars, ← Suffix.read?_eq_some.mp suffixed, List.takeWhile_append_dropWhile]

theorem chars_ne_zero (w : Written) : w.chars ≠ ['0'] := by
  intro zero
  -- All of `0` is a digit, so nothing would be left of it for a suffix.
  obtain ⟨c, rest, begins, _⟩ := w.suffix.toChars_head
  have behind := w.dropWhile_chars
  rw [zero, begins] at behind
  cases behind

theorem quarters_short {w : Written} (short : w.Short) : Duration.quarters w.chars =
    if w.count = 0 then .error (.zeroSubdivision (String.ofList w.chars))
    else .ok (w.suffix.worth w.count) := by
  unfold Duration.quarters
  rw [if_neg w.chars_ne_zero, w.split?_chars]
  dsimp only
  rw [Numeral.ofDigits_short w.denotes short, ← Suffix.quarters_eq_worth]
  rfl

theorem quarters_long {w : Written} (long : ¬ w.Short) :
    Duration.quarters w.chars = .error (.tooManyDigits (some w.digits.length)) := by
  unfold Duration.quarters
  rw [if_neg w.chars_ne_zero, w.split?_chars]
  dsimp only
  rw [Numeral.ofDigits_long long]
  rfl

end Written

/-- What is neither no time nor written as a code is refused. -/
theorem quarters_unwritten (other : code ≠ ['0']) (unwritten : ¬ ∃ w : Written, w.chars = code) :
    Duration.quarters code = .error (.notDuration (String.ofList code)) := by
  unfold Duration.quarters
  rw [if_neg other]
  cases found : split? code with
  | none => rfl
  | some read =>
    obtain ⟨w, same⟩ := Written.of_split? found
    exact absurd ⟨w, same⟩ unwritten

/-- The four kinds of texts, and what becomes of each. -/
theorem quarters_cases (code : List Char) :
    (code = ['0'] ∧ Duration.quarters code = .ok 0) ∨
    (∃ w : Written, w.chars = code ∧ w.Short ∧ Duration.quarters code =
      if w.count = 0 then .error (.zeroSubdivision (String.ofList code))
      else .ok (w.suffix.worth w.count)) ∨
    (∃ w : Written, w.chars = code ∧ ¬ w.Short ∧
      Duration.quarters code = .error (.tooManyDigits (some w.digits.length))) ∨
    (code ≠ ['0'] ∧ (¬ ∃ w : Written, w.chars = code) ∧
      Duration.quarters code = .error (.notDuration (String.ofList code))) := by
  by_cases zero : code = ['0']
  · exact .inl ⟨zero, if_pos zero⟩
  by_cases written : ∃ w : Written, w.chars = code
  · obtain ⟨w, rfl⟩ := written
    by_cases short : w.Short
    · exact .inr (.inl ⟨w, rfl, short, Written.quarters_short short⟩)
    · exact .inr (.inr (.inl ⟨w, rfl, short, Written.quarters_long short⟩))
  · exact .inr (.inr (.inr ⟨zero, written, quarters_unwritten zero written⟩))

theorem quarters_eq_ok : Duration.quarters code = .ok q ↔ code = ['0'] ∧ q = 0 ∨
    ∃ w : Written, w.chars = code ∧ w.Short ∧ 0 < w.count ∧ w.suffix.worth w.count = q := by
  constructor
  · intro made
    rcases quarters_cases code with
      ⟨zero, outcome⟩ | ⟨w, same, short, outcome⟩ | ⟨_, _, _, outcome⟩ | ⟨_, _, outcome⟩
    all_goals rw [outcome] at made
    · exact .inl ⟨zero, (Except.ok.inj made).symm⟩
    · split at made
      · cases made
      · rename_i counted
        exact .inr ⟨w, same, short, Nat.pos_of_ne_zero counted, Except.ok.inj made⟩
    · cases made
    · cases made
  · rintro (⟨rfl, rfl⟩ | ⟨w, rfl, short, counted, rfl⟩)
    · exact if_pos rfl
    · rw [Written.quarters_short short, if_neg (Nat.ne_of_gt counted)]

/-- What is wrong with a text that denotes no length. -/
inductive Miscodes (code : List Char) : Fault → Prop
  | unwritten (other : code ≠ ['0']) (unwritten : ¬ ∃ w : Written, w.chars = code) :
    Miscodes code (.notDuration (String.ofList code))
  | uncounted (w : Written) (same : w.chars = code) (short : w.Short) (uncounted : w.count = 0) :
    Miscodes code (.zeroSubdivision (String.ofList code))
  | overlong (w : Written) (same : w.chars = code) (long : ¬ w.Short) :
    Miscodes code (.tooManyDigits (some w.digits.length))

theorem quarters_eq_error : Duration.quarters code = .error fault ↔ Miscodes code fault := by
  constructor
  · intro failed
    rcases quarters_cases code with
      ⟨_, outcome⟩ | ⟨w, same, short, outcome⟩ | ⟨w, same, long, outcome⟩ |
        ⟨other, unwritten, outcome⟩
    all_goals rw [outcome] at failed
    · cases failed
    · split at failed
      · rename_i uncounted
        cases failed
        exact .uncounted w same short uncounted
      · cases failed
    · cases failed
      exact .overlong w same long
    · cases failed
      exact .unwritten other unwritten
  · rintro (⟨other, unwritten⟩ | ⟨w, rfl, short, uncounted⟩ | ⟨w, rfl, long⟩)
    · exact quarters_unwritten other unwritten
    · rw [Written.quarters_short short, if_pos uncounted]
    · exact Written.quarters_long long

/-- Codes with one suffix are as long as each other exactly when their counts are the same. -/
theorem quarters_inj {v w : Written} (short : v.Short) (short' : w.Short) (counted : 0 < v.count)
    (counted' : 0 < w.count) (same : v.suffix = w.suffix) :
    Duration.quarters v.chars = Duration.quarters w.chars ↔ v.count = w.count := by
  rw [Written.quarters_short short, Written.quarters_short short', if_neg (Nat.ne_of_gt counted),
    if_neg (Nat.ne_of_gt counted'), same, Except.ok.injEq]
  exact w.suffix.worth_injective.eq_iff

/-- A positive count as it is printed, with a suffix, is a code. -/
theorem quarters_printed {count : Nat} (writable : Numeral.Writable count) (counted : 0 < count)
    (suffix : Suffix) :
    Duration.quarters ((toString count).toList ++ suffix.toChars) = .ok (suffix.worth count) := by
  have written : (toString count).toList = Nat.toDigits 10 count := Nat.toList_repr
  let w : Written := ⟨_, count, suffix, Text.denotes_toDigits count⟩
  have short : w.Short := Numeral.writable_iff.mp writable
  rw [written]
  exact quarters_eq_ok.mpr (.inr ⟨w, rfl, short, counted, rfl⟩)

/-- The note grammar has no duration without a length. -/
theorem quarters_grammar (known : code ∈ Shorthand.durations) :
    ∃ q, Duration.quarters code = .ok q := by
  have all : ∀ code ∈ Shorthand.durations, (Duration.quarters code).toOption.isSome := by
    decide +kernel
  obtain ⟨q, made⟩ := Option.isSome_iff_exists.mp (all code known)
  exact ⟨q, eq_ok_of_toOption made⟩

/-- A text denotes a length exactly when it is `0` or is written, which it is in one way only, as a
positive count of no more digits than numbers are read from and a suffix. More digits, zeros in
front included, are a fault of their own. A count of zero is refused before anything is divided by
it, and so is every other text. With one suffix, codes have the same length exactly when they have
the same count, whatever their zeros in front and their scripts; a printed count is one of them. The
durations that are read in notes all denote lengths. -/
theorem quarters_iff_written :
    (∀ code q, Duration.quarters code = .ok q ↔ code = ['0'] ∧ q = 0 ∨
      ∃ w : Written, w.chars = code ∧ w.Short ∧ 0 < w.count ∧ w.suffix.worth w.count = q) ∧
    Function.Injective Written.chars ∧
    (∀ code fault, Duration.quarters code = .error fault ↔ Miscodes code fault) ∧
    (∀ v w : Written, v.Short → w.Short → 0 < v.count → 0 < w.count → v.suffix = w.suffix →
      (Duration.quarters v.chars = Duration.quarters w.chars ↔ v.count = w.count)) ∧
    (∀ (count : Nat) (suffix : Suffix), Numeral.Writable count → 0 < count →
      Duration.quarters ((toString count).toList ++ suffix.toChars) =
        .ok (suffix.worth count)) ∧
    ∀ token note, Shorthand.note? token = some note →
      ∀ duration ∈ note.duration, ∃ q, Duration.quarters duration.toList = .ok q := by
  refine ⟨fun _ _ => quarters_eq_ok, Written.chars_injective, fun _ _ => quarters_eq_error,
    fun _ _ => quarters_inj,
    fun _ suffix writable counted => quarters_printed writable counted suffix, ?_⟩
  intro token note read duration here
  obtain ⟨valid, _⟩ := Shorthand.note?_eq_some read
  exact quarters_grammar (valid.duration duration here)

/-- A count of three triplets with a zero of another script in front of it. -/
theorem quarters_iff_written_scripts :
    (∃ v w : Written, v.chars = ['\u0660', '3', 't'] ∧ w.chars = ['3', 't'] ∧
      v.Short ∧ w.Short ∧ 0 < v.count ∧ 0 < w.count ∧ v.suffix = w.suffix ∧
      Duration.quarters v.chars = .ok (8 / 9) ∧
      Duration.quarters v.chars = Duration.quarters w.chars) ∧
    Numeral.Writable (3 : Nat) ∧
    Duration.quarters ((toString 3).toList ++ Suffix.triplet.toChars) = .ok (8 / 9) ∧
    Shorthand.note? "c11n." = some ⟨"c", some "1", some "1n."⟩ ∧
    ∃ q, Duration.quarters "1n.".toList = .ok q := by
  obtain ⟨lengths, _, _, same, printed, grammar⟩ := quarters_iff_written
  let v : Written := ⟨['\u0660', '3'], 3, .triplet,
    Text.denotes_iff.mpr ⟨by decide, List.all_eq_true.mp (by decide +kernel), by decide +kernel⟩⟩
  let w : Written := ⟨['3'], 3, .triplet,
    Text.denotes_iff.mpr ⟨by decide, List.all_eq_true.mp (by decide +kernel), by decide +kernel⟩⟩
  have third : Suffix.triplet.worth 3 = 8 / 9 := by
    rw [Suffix.worth]
    norm_num
  have read : Shorthand.note? "c11n." = some ⟨"c", some "1", some "1n."⟩ := by decide
  have short : v.Short := (by decide : 2 ≤ Numeral.digitLimit)
  have short' : w.Short := (by decide : 1 ≤ Numeral.digitLimit)
  have writable : Numeral.Writable (3 : Nat) := by decide
  refine ⟨⟨v, w, rfl, rfl, short, short', by decide, by decide, rfl, ?_, ?_⟩, writable, ?_, read,
    ?_⟩
  · exact (lengths _ _).mpr (.inr ⟨v, rfl, short, by decide, third⟩)
  · exact (same v w short short' (by decide) (by decide) rfl).mpr rfl
  · exact third ▸ printed 3 .triplet writable (by decide)
  · exact grammar _ _ read "1n." rfl

/-- A quarter with one digit too many, although all but the last are zeros, denotes no length. -/
theorem quarters_overlong :
    let code := List.replicate Numeral.digitLimit '0' ++ ['4', 'n']
    (∃ w : Written, w.chars = code ∧ w.count = 4 ∧ w.suffix = .plain) ∧
      Duration.quarters code = .error (.tooManyDigits (some 4301)) := by
  intro code
  have four : Text.Denotes ['4'] 4 :=
    Text.denotes_iff.mpr ⟨by decide, List.all_eq_true.mp (by decide +kernel), by decide +kernel⟩
  let w : Written := ⟨_, _, .plain, four.zeros Numeral.digitLimit⟩
  have same : w.chars = code := List.append_assoc ..
  have size : w.digits.length = 4301 := by
    rw [List.length_append, List.length_replicate]
    rfl
  have long : ¬ w.Short := by
    rw [Written.Short, size]
    decide
  have fails := Written.quarters_long long
  rw [size, same] at fails
  exact ⟨⟨w, same, rfl, rfl⟩, fails⟩

end Solfege.Duration
