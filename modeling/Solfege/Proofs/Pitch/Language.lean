import Solfege.Pitch.Basic
import Solfege.Proofs.Text.Numeral

/-! The language of pitch names, said without their reader. A name is written as a letter in either
case, a sign or none, and the figures of an octave in digits of any script. No text is written so in
two ways, and a text is read as a pitch exactly when it is written so between blanks and its octave
has no more digits than numbers are read from. -/
namespace Solfege

namespace Letter
variable {c : Char} {letter : Letter}

/-- The characters that stand for letters. -/
def chars : List Char := "abcdefgABCDEFG".toList

theorem mem_chars : c ∈ chars ↔ (ofChar? c).isSome := by
  constructor
  · have all : chars.all (fun c => (ofChar? c).isSome) = true := by decide
    exact List.all_eq_true.mp all c
  · intro letter
    unfold ofChar? at letter
    split at letter
    case h_15 => cases letter
    all_goals decide

theorem chars_solid : ∀ c ∈ chars, Text.isBlank c = false := Text.not_blank_of_all (by decide)

@[simp] theorem ofChar?_toChar (letter : Letter) : ofChar? letter.toChar = some letter := by
  cases letter <;> rfl

/-- A letter is read as the one that is its capital. -/
theorem ofChar?_eq_some : ofChar? c = some letter ↔ c ∈ chars ∧ letter.toChar = c.toUpper := by
  have all : chars.all (fun c => (ofChar? c).map toChar = some c.toUpper &&
      ofChar? c.toUpper = ofChar? c) = true := by
    decide
  have capital {c : Char} (here : c ∈ chars) :
      (ofChar? c).map toChar = some c.toUpper ∧ ofChar? c.toUpper = ofChar? c := by
    simpa using List.all_eq_true.mp all c here
  constructor
  · intro found
    have here : c ∈ chars := mem_chars.mpr (by rw [found]; rfl)
    have same := (capital here).1
    rw [found] at same
    exact ⟨here, Option.some.inj same⟩
  · rintro ⟨here, same⟩
    rw [← (capital here).2, ← same, ofChar?_toChar]

theorem toChar_injective : Function.Injective toChar := by
  intro letter other same
  have read := ofChar?_toChar letter
  rw [same, ofChar?_toChar] at read
  exact (Option.some.inj read).symm

end Letter

namespace Accidental

/-- What may stand between letter and octave. -/
def signs : List (List Char) := ["", "bb", "b", "#", "x"].map String.toList

theorem mem_signs {text : List Char} :
    text ∈ signs ↔ ∃ accidental : Accidental, accidental.sign = text := by
  have all : signs = [natural, doubleFlat, flat, sharp, doubleSharp].map Accidental.sign := by
    decide
  rw [all, List.mem_map]
  refine ⟨fun ⟨accidental, _, same⟩ => ⟨accidental, same⟩, fun ⟨accidental, same⟩ => ?_⟩
  exact ⟨accidental, by cases accidental <;> decide, same⟩

theorem sign_solid (accidental : Accidental) : ∀ c ∈ accidental.sign, Text.isBlank c = false :=
  Text.not_blank_of_all (by cases accidental <;> decide)

/-- What is read as an accidental is its sign. -/
theorem sign_read (text : List Char) : (read text).1.sign ++ (read text).2 = text := by
  unfold read
  split <;> rfl

/-- The sign of an accidental ends where no sign goes on. -/
theorem read_sign (accidental : Accidental) {rest : List Char}
    (ends : ∀ c ∈ rest.head?, c ≠ 'b' ∧ c ≠ '#' ∧ c ≠ 'x') :
    read (accidental.sign ++ rest) = (accidental, rest) := by
  cases accidental with
  | natural =>
    rw [sign, List.nil_append]
    unfold read
    split <;> simp_all
  | flat =>
    rw [sign, List.cons_append, List.nil_append]
    unfold read
    split <;> simp_all
  | doubleFlat => rfl
  | sharp => rfl
  | doubleSharp => rfl

theorem sign_injective : Function.Injective sign := by
  intro accidental other same
  cases accidental <;> cases other <;> simp_all [sign]

end Accidental

namespace Pitch
variable {name : String} {text ds : List Char} {first : Char} {letter : Letter} {octave : Int}
  {p q : Pitch} {parts : Parts} {minus : Bool} {fault : Fault}

/-! Octaves. -/

theorem splitOctave?_minus (ds : List Char) : splitOctave? ('-' :: ds) =
    if !ds.isEmpty && ds.all Text.isDigit then some (true, ds) else none := rfl

theorem splitOctave?_plain (plain : ds.head? ≠ some '-') : splitOctave? ds =
    if !ds.isEmpty && ds.all Text.isDigit then some (false, ds) else none := by
  unfold splitOctave?
  split
  rename_i minus rest same
  split at same
  · exact absurd rfl plain
  · cases same
    rfl

theorem numeral_iff :
    (!ds.isEmpty && ds.all Text.isDigit) = true ↔ Text.Denotes ds (Text.digitsValue 0 ds) := by
  simp [Text.denotes_iff]

/-- An octave is taken from its figures and from nothing else. -/
theorem splitOctave?_eq_some : splitOctave? text = some (minus, ds) ↔
    ∃ figures : Text.Figures, figures.chars = text ∧ figures.minus = minus ∧
      figures.digits = ds := by
  constructor
  · intro taken
    -- A minus in front is never read as a digit, so it settles which of the two readings applies.
    by_cases front : text.head? = some '-'
    · obtain ⟨rest, rfl⟩ := List.head?_eq_some_iff.mp front
      rw [splitOctave?_minus] at taken
      split at taken
      · rename_i numeral
        cases taken
        exact ⟨⟨true, _, _, numeral_iff.mp numeral⟩, rfl, rfl, rfl⟩
      · cases taken
    · rw [splitOctave?_plain front] at taken
      split at taken
      · rename_i numeral
        cases taken
        exact ⟨⟨false, _, _, numeral_iff.mp numeral⟩, rfl, rfl, rfl⟩
      · cases taken
  · rintro ⟨⟨minus, ds, n, denotes⟩, rfl, rfl, rfl⟩
    have same := (Text.denotes_iff.mp denotes).2.2
    have numeral := numeral_iff.mpr (same ▸ denotes)
    cases minus with
    | true => exact (splitOctave?_minus ds).trans (if_pos numeral)
    | false =>
      have plain : ds.head? ≠ some '-' := fun front =>
        Bool.false_ne_true ((Text.Figures.minus_iff ⟨false, ds, n, denotes⟩).mp front)
      exact (splitOctave?_plain plain).trans (if_pos numeral)

/-! Names. -/

theorem split?_cons (first : Char) (rest : List Char) : split? (first :: rest) =
    (Letter.ofChar? first).bind fun letter => (splitOctave? (Accidental.read rest).2).map
      fun octave => ⟨letter, (Accidental.read rest).1, octave.1, octave.2⟩ := by
  rw [split?]
  refine congrArg (Option.bind _) (funext fun letter => ?_)
  cases Accidental.read rest with
  | mk accidental tail =>
    dsimp only
    cases splitOctave? tail <;> rfl

/-- A letter and a sign are taken off the front, and what follows is taken for the octave. -/
theorem split?_sign {tail : List Char} (found : Letter.ofChar? first = some letter)
    (accidental : Accidental) (ends : ∀ c ∈ tail.head?, c ≠ 'b' ∧ c ≠ '#' ∧ c ≠ 'x') :
    split? (first :: (accidental.sign ++ tail)) =
      (splitOctave? tail).map fun octave => ⟨letter, accidental, octave.1, octave.2⟩ := by
  rw [split?_cons, found, accidental.read_sign ends, Option.bind_some]

/-- A pitch name as it is written. -/
@[ext]
structure Written where
  letter : Char
  sign : List Char
  figures : Text.Figures
  isLetter : letter ∈ Letter.chars
  isSign : sign ∈ Accidental.signs

namespace Written
variable {v w : Written}

def chars (w : Written) : List Char := w.letter :: (w.sign ++ w.figures.chars)

/-- The octave of a name has no more digits than numbers are read from. -/
def Short (w : Written) : Prop := w.figures.digits.length ≤ Numeral.digitLimit

/-- A text is a name but for blanks around it. -/
def StandsIn (w : Written) (name : String) : Prop :=
  ∃ before behind, name.toList = before ++ w.chars ++ behind ∧
    (∀ c ∈ before, Text.isBlank c = true) ∧ ∀ c ∈ behind, Text.isBlank c = true

/-- A name is that of a pitch, whatever the case of its letter and the script of its digits. -/
structure Names (w : Written) (p : Pitch) : Prop where
  letter : p.letter.toChar = w.letter.toUpper
  sign : p.accidental.sign = w.sign
  octave : p.octave = w.figures.value

/-- A name is taken apart. -/
structure Cut (w : Written) (parts : Parts) : Prop where
  letter : parts.letter.toChar = w.letter.toUpper
  sign : parts.accidental.sign = w.sign
  minus : parts.minus = w.figures.minus
  digits : parts.digits = w.figures.digits

theorem Names.unique (names : w.Names p) (also : w.Names q) : p = q := by
  have letter := Letter.toChar_injective (names.letter.trans also.letter.symm)
  have accidental := Accidental.sign_injective (names.sign.trans also.sign.symm)
  have octave := names.octave.trans also.octave.symm
  cases p
  cases q
  cases letter
  cases accidental
  cases octave
  rfl

/-- Neither a minus nor a digit goes on a sign. -/
theorem figures_end (w : Written) : ∀ c ∈ w.figures.chars.head?, c ≠ 'b' ∧ c ≠ '#' ∧ c ≠ 'x' := by
  intro c here
  rcases Text.Figures.mem_chars (List.mem_of_mem_head? here) with rfl | digit
  · decide
  · refine ⟨?_, ?_, ?_⟩
    all_goals
      rintro rfl
      exact absurd digit (by decide)

theorem split?_chars (w : Written) : ∃ parts, split? w.chars = some parts ∧ w.Cut parts := by
  obtain ⟨accidental, same⟩ := Accidental.mem_signs.mp w.isSign
  obtain ⟨letter, found⟩ := Option.isSome_iff_exists.mp (Letter.mem_chars.mp w.isLetter)
  have octave := splitOctave?_eq_some.mpr ⟨w.figures, rfl, rfl, rfl⟩
  refine ⟨⟨letter, accidental, w.figures.minus, w.figures.digits⟩, ?_,
    (Letter.ofChar?_eq_some.mp found).2, same, rfl, rfl⟩
  rw [chars, ← same, split?_sign found accidental w.figures_end, octave, Option.map_some]

theorem exists_of_split? (taken : split? text = some parts) : ∃ w : Written, w.chars = text := by
  cases text with
  | nil => cases taken
  | cons first rest =>
    rw [split?_cons] at taken
    obtain ⟨letter, found, taken⟩ := Option.bind_eq_some_iff.mp taken
    obtain ⟨⟨minus, ds⟩, taken, _⟩ := Option.map_eq_some_iff.mp taken
    obtain ⟨figures, same, _⟩ := splitOctave?_eq_some.mp taken
    refine ⟨⟨first, (Accidental.read rest).1.sign, figures, (Letter.ofChar?_eq_some.mp found).1,
      Accidental.mem_signs.mpr ⟨_, rfl⟩⟩, ?_⟩
    rw [chars, same, Accidental.sign_read]

/-- The sign and the figures of a name are told apart by the reader of signs. -/
theorem read_behind (w : Written) : ∃ accidental : Accidental, accidental.sign = w.sign ∧
    Accidental.read (w.sign ++ w.figures.chars) = (accidental, w.figures.chars) := by
  obtain ⟨accidental, same⟩ := Accidental.mem_signs.mp w.isSign
  exact ⟨accidental, same, same ▸ accidental.read_sign w.figures_end⟩

/-- A text is written as a name in one way. -/
theorem chars_injective : Function.Injective chars := by
  intro v w same
  obtain ⟨letter, behind⟩ := List.cons.inj same
  -- The longest sign is read off the same text for both names, so they have one sign in common.
  obtain ⟨accidental, sign, read⟩ := v.read_behind
  obtain ⟨other, sign', read'⟩ := w.read_behind
  rw [behind, read', Prod.mk.injEq] at read
  obtain ⟨rfl, figures⟩ := read
  exact Written.ext letter (sign.symm.trans sign') (Text.Figures.chars_injective figures.symm)

theorem chars_solid (w : Written) : ∀ c ∈ w.chars, Text.isBlank c = false := by
  obtain ⟨accidental, same⟩ := Accidental.mem_signs.mp w.isSign
  intro c here
  rcases List.mem_cons.mp here with rfl | here
  · exact Letter.chars_solid _ w.isLetter
  · rcases List.mem_append.mp here with sign | figures
    · exact accidental.sign_solid c (same ▸ sign)
    · rcases Text.Figures.mem_chars figures with rfl | digit
      · decide
      · exact Text.not_blank_of_digit digit

theorem standsIn_iff : w.StandsIn name ↔ w.chars = Text.trimmed name := by
  constructor
  · rintro ⟨before, behind, whole, blank, also⟩
    rw [Text.trimmed, whole, Text.trim_between blank w.chars_solid also]
  · intro same
    obtain ⟨before, behind, whole, blank, also⟩ := Text.exists_trim name.toList
    exact ⟨before, behind, by rw [same]; exact whole, blank, also⟩

theorem StandsIn.unique (stands : v.StandsIn name) (also : w.StandsIn name) : v = w :=
  chars_injective ((standsIn_iff.mp stands).trans (standsIn_iff.mp also).symm)

theorem standsIn_chars (w : Written) : w.StandsIn (String.ofList w.chars) :=
  ⟨[], [], by simp, by simp, by simp⟩

/-- A C can be written with any number behind it. -/
theorem exists_c {ds : List Char} {n : Nat} (denotes : Text.Denotes ds n) : ∃ w : Written,
    w.chars = 'C' :: ds ∧ w.figures.digits = ds ∧ w.Names ⟨.c, .natural, n⟩ :=
  ⟨⟨'C', [], ⟨false, ds, n, denotes⟩, by decide, by decide⟩, rfl, rfl, rfl, rfl, rfl⟩

/-- A name is read as its pitch, unless its octave is too long. -/
theorem StandsIn.parse_eq (stands : w.StandsIn name) : ∃ p, w.Names p ∧
    (w.Short → parse name = .ok p) ∧
    (¬ w.Short → parse name = .error (.tooManyDigits (some w.figures.digits.length))) := by
  obtain ⟨parts, taken, letter, sign, minus, digits⟩ := w.split?_chars
  rw [standsIn_iff.mp stands] at taken
  refine ⟨⟨parts.letter, parts.accidental, w.figures.value⟩, ⟨letter, sign, rfl⟩, ?_, ?_⟩
  · intro short
    rw [parse, taken]
    dsimp only
    rw [digits, minus, Numeral.ofDigits_short w.figures.denotes short]
    rfl
  · intro long
    rw [parse, taken]
    dsimp only
    rw [digits, Numeral.ofDigits_long long]
    rfl

end Written

/-- A text is written as a pitch name. -/
def Wellformed (name : String) : Prop := ∃ w : Written, w.StandsIn name

theorem parse_malformed (malformed : ¬ Wellformed name) : parse name = .error (.notPitch name) := by
  rw [parse]
  cases taken : split? (Text.trimmed name) with
  | none => rfl
  | some parts =>
    obtain ⟨w, same⟩ := Written.exists_of_split? taken
    exact absurd ⟨w, Written.standsIn_iff.mpr same⟩ malformed

/-- What is wrong with a name of no pitch: it is not written as one, or its octave is too long. -/
inductive Misnames (name : String) : Fault → Prop
  | malformed (malformed : ¬ Wellformed name) : Misnames name (.notPitch name)
  | overlong (w : Written) (stands : w.StandsIn name) (long : ¬ w.Short) :
    Misnames name (.tooManyDigits (some w.figures.digits.length))

theorem parse_eq_ok :
    parse name = .ok p ↔ ∃ w : Written, w.StandsIn name ∧ w.Short ∧ w.Names p := by
  constructor
  · intro read
    by_cases wellformed : Wellformed name
    · obtain ⟨w, stands⟩ := wellformed
      obtain ⟨q, names, reads, fails⟩ := stands.parse_eq
      by_cases short : w.Short
      · obtain rfl := Except.ok.inj (read.symm.trans (reads short))
        exact ⟨w, stands, short, names⟩
      · cases read.symm.trans (fails short)
    · cases read.symm.trans (parse_malformed wellformed)
  · rintro ⟨w, stands, short, names⟩
    obtain ⟨q, also, reads, _⟩ := stands.parse_eq
    rw [reads short, names.unique also]

/-- What is no name is refused, and quoted as it was given. -/
theorem parse_eq_error : parse name = .error fault ↔ Misnames name fault := by
  constructor
  · intro failed
    by_cases wellformed : Wellformed name
    · obtain ⟨w, stands⟩ := wellformed
      obtain ⟨q, names, reads, fails⟩ := stands.parse_eq
      by_cases short : w.Short
      · cases failed.symm.trans (reads short)
      · obtain rfl := Except.error.inj (failed.symm.trans (fails short))
        exact .overlong w stands short
    · obtain rfl := Except.error.inj (failed.symm.trans (parse_malformed wellformed))
      exact .malformed wellformed
  · rintro (malformed | ⟨w, stands, long⟩)
    · exact parse_malformed malformed
    · obtain ⟨_, _, _, fails⟩ := stands.parse_eq
      exact fails long

theorem parse_spelled (accidental : Accidental) (writable : Numeral.Writable octave)
    (found : Letter.ofChar? first = some letter)
    (spelled : name.toList = first :: (accidental.sign ++ (toString octave).toList)) :
    parse name = .ok ⟨letter, accidental, octave⟩ := by
  obtain ⟨known, capital⟩ := Letter.ofChar?_eq_some.mp found
  obtain ⟨figures, printed, value, digits⟩ := Text.Figures.exists_printed octave
  let w : Written := ⟨first, accidental.sign, figures, known, Accidental.mem_signs.mpr ⟨_, rfl⟩⟩
  have stands : w.StandsIn name := ⟨[], [], by simp [w, Written.chars, printed, spelled], by simp⟩
  have short : w.Short := by
    rw [Written.Short, digits]
    exact Numeral.writable_iff.mp writable
  exact parse_eq_ok.mpr ⟨w, stands, short, capital, rfl, value.symm⟩

/-- A text is read as a pitch exactly when a name of that pitch is written in it between blanks
whose octave has no more digits than numbers are read from. A text can be cut into letter, sign,
minus and digits in one way only. Where the octave has more digits this is the fault, and any other
text is refused and quoted. Every letter in either case, sign and octave that can be written make a
name. -/
theorem parse_iff_written :
    (∀ name p, parse name = .ok p ↔ ∃ w : Written, w.StandsIn name ∧ w.Short ∧ w.Names p) ∧
    (∀ name (v w : Written), v.StandsIn name → w.StandsIn name → v = w) ∧
    (∀ name fault, parse name = .error fault ↔
      (¬ ∃ w : Written, w.StandsIn name) ∧ fault = .notPitch name ∨
      ∃ w : Written, w.StandsIn name ∧ ¬ w.Short ∧
        fault = .tooManyDigits (some w.figures.digits.length)) ∧
    ∀ letter ∈ Letter.chars, ∀ sign ∈ Accidental.signs, ∀ octave, Numeral.Writable octave →
      ∃ p, parse (String.ofList (letter :: sign) ++ toString octave) = .ok p ∧
        p.letter.toChar = letter.toUpper ∧ p.accidental.sign = sign ∧ p.octave = octave := by
  refine ⟨fun _ _ => parse_eq_ok, fun _ _ _ => Written.StandsIn.unique, fun name fault => ?_, ?_⟩
  · rw [parse_eq_error]
    constructor
    · rintro (malformed | ⟨w, stands, long⟩)
      · exact .inl ⟨malformed, rfl⟩
      · exact .inr ⟨w, stands, long, rfl⟩
    · rintro (⟨malformed, rfl⟩ | ⟨w, stands, long, rfl⟩)
      · exact .malformed malformed
      · exact .overlong w stands long
  · intro first known sign known' octave writable
    obtain ⟨letter, found⟩ := Option.isSome_iff_exists.mp (Letter.mem_chars.mp known)
    obtain ⟨accidental, rfl⟩ := Accidental.mem_signs.mp known'
    refine ⟨⟨letter, accidental, octave⟩, ?_, (Letter.ofChar?_eq_some.mp found).2, rfl, rfl⟩
    exact parse_spelled accidental writable found (by simp)

/-- A double flat behind the letter b, and an octave in the digits of two scripts. -/
theorem parse_iff_written_scripts :
    parse "\u3000bbb-\u0663\u096A\t" = .ok ⟨.b, .doubleFlat, -34⟩ ∧
      (∀ w : Written, w.StandsIn "\u3000bbb-\u0663\u096A\t" →
        w.figures.digits = ['\u0663', '\u096A']) ∧
      parse "bb" = .error (.notPitch "bb") ∧ (¬ ∃ w : Written, w.StandsIn "bb") ∧
      'b' ∈ Letter.chars ∧ ['b'] ∈ Accidental.signs ∧ Numeral.Writable (-10) ∧
      ∃ p, parse (String.ofList ['b', 'b'] ++ toString (-10 : Int)) = .ok p ∧
        p.letter.toChar = 'B' ∧ p.accidental.sign = ['b'] ∧ p.octave = -10 := by
  obtain ⟨reads, once, refused, spelled⟩ := parse_iff_written
  have denotes : Text.Denotes ['\u0663', '\u096A'] 34 :=
    Text.denotes_iff.mpr ⟨by decide, List.all_eq_true.mp (by decide +kernel), by decide +kernel⟩
  let w : Written := ⟨'b', ['b', 'b'], ⟨true, _, _, denotes⟩, by decide, by decide⟩
  have stands : w.StandsIn "\u3000bbb-\u0663\u096A\t" :=
    ⟨['\u3000'], ['\t'], rfl, List.all_eq_true.mp (by decide), List.all_eq_true.mp (by decide)⟩
  have two : ['\u0663', '\u096A'].length ≤ Numeral.digitLimit := by decide
  have capital : 'B' = 'b'.toUpper := by decide
  have read := (reads _ ⟨.b, .doubleFlat, -34⟩).mpr ⟨w, stands, two, capital, rfl, rfl⟩
  have bare : parse "bb" = .error (.notPitch "bb") := rfl
  have unwritten : ¬ ∃ w : Written, w.StandsIn "bb" := by
    rcases (refused _ _).mp bare with ⟨malformed, _⟩ | ⟨_, _, _, same⟩
    · exact malformed
    · cases same
  have ten : Numeral.Writable (-10) := by decide
  exact ⟨read, fun v also => once _ v w also stands ▸ rfl, bare, unwritten, by decide, by decide,
    ten, spelled 'b' (by decide) ['b'] (by decide) (-10) ten⟩

/-- One digit too many, although all but the last are zeros, and a name is not read. -/
theorem parse_overlong :
    let name := String.ofList ('C' :: (List.replicate Numeral.digitLimit '0' ++ ['1']))
    (∃! w : Written, w.StandsIn name) ∧
      (∃ w : Written, w.StandsIn name ∧ w.Names ⟨.c, .natural, 1⟩) ∧
      parse name = .error (.tooManyDigits (some 4301)) := by
  intro name
  have one : Text.Denotes ['1'] 1 :=
    Text.denotes_iff.mpr ⟨by decide, List.all_eq_true.mp (by decide +kernel), by decide +kernel⟩
  obtain ⟨w, chars, digits, names⟩ := Written.exists_c (one.zeros Numeral.digitLimit)
  have stands : w.StandsIn name := by
    rw [show name = String.ofList w.chars from congrArg String.ofList chars.symm]
    exact w.standsIn_chars
  have size : w.figures.digits.length = 4301 := by
    rw [digits, List.length_append, List.length_replicate]
    rfl
  have long : ¬ w.Short := by
    rw [Written.Short, size]
    decide
  have fails := parse_eq_error.mpr (.overlong w stands long)
  rw [size] at fails
  exact ⟨⟨w, stands, fun v also => also.unique stands⟩, ⟨w, stands, names⟩, fails⟩

end Pitch
end Solfege
