import Mathlib.Data.List.Basic
import Solfege.Proofs.Pitch.Name
import Solfege.Proofs.Shorthand.Token
import Solfege.Shorthand.Grammar

/-! What the note grammar reads. A token that is a note spells it: pitch class, octave, perhaps a
comma, and duration stand in it one after the other. Where a comma is written the octave ends at
it, so there is only one way to read the token. -/
namespace Solfege

namespace Shorthand

/-- The pitch classes of the grammar. -/
def pitchClasses : List (List Char) :=
  Letter.chars.flatMap fun letter =>
    [.natural, .doubleFlat, .flat, .sharp, .doubleSharp].map fun accidental : Accidental =>
      letter :: accidental.sign

/-- What may stand between octave and duration. -/
def separator (comma : Bool) : List Char := if comma then [','] else []

@[simp] theorem separator_true : separator true = [','] := rfl

@[simp] theorem separator_false : separator false = [] := rfl

end Shorthand

namespace PartialNote

/-- A note of the grammar. Octave and duration may be left out. -/
structure Grammatical (note : PartialNote) : Prop where
  pitchClass : note.pitchClass.toList ∈ Shorthand.pitchClasses
  octave : ∀ octave ∈ note.octave, octave.toList ∈ Shorthand.octaves
  duration : ∀ duration ∈ note.duration, duration.toList ∈ Shorthand.durations

def octaveChars (note : PartialNote) : List Char := (note.octave.map String.toList).getD []

def durationChars (note : PartialNote) : List Char := (note.duration.map String.toList).getD []

/-- A note as a token, with or without a comma. -/
def spelled (note : PartialNote) (comma : Bool) : List Char :=
  note.pitchClass.toList ++ (note.octaveChars ++ (Shorthand.separator comma ++ note.durationChars))

/-- A note as it is printed. -/
def written (note : PartialNote) : String :=
  note.pitchClass ++ note.octave.getD "" ++ "," ++ note.duration.getD ""

theorem written_chars (note : PartialNote) : note.written.toList = note.spelled true := by
  have part (text : Option String) : (text.getD "").toList = (text.map String.toList).getD [] := by
    cases text <;> rfl
  have comma : ",".toList = [','] := by decide
  simp [written, spelled, octaveChars, durationChars, part, comma]

end PartialNote

namespace Shorthand
variable {text rest pitchClass octave tail : List Char} {token : String} {note : PartialNote}

/-! Pitch classes. -/

theorem mem_pitchClasses : pitchClass ∈ pitchClasses ↔
    ∃ first ∈ Letter.chars, ∃ accidental : Accidental, pitchClass = first :: accidental.sign := by
  constructor
  · intro here
    obtain ⟨first, letter, built⟩ := List.mem_flatMap.mp here
    obtain ⟨accidental, _, rfl⟩ := List.mem_map.mp built
    exact ⟨first, letter, accidental, rfl⟩
  · rintro ⟨first, letter, accidental, rfl⟩
    refine List.mem_flatMap.mpr ⟨first, letter, List.mem_map.mpr ⟨accidental, ?_, rfl⟩⟩
    cases accidental <;> decide

theorem readPitchClass?_eq_some (read : readPitchClass? text = some (pitchClass, rest)) :
    pitchClass ∈ pitchClasses ∧ text = pitchClass ++ rest := by
  cases text with
  | nil => cases read
  | cons first others =>
    rw [readPitchClass?] at read
    split at read
    · rename_i letter
      obtain ⟨rfl, rfl⟩ : first :: (Accidental.read others).1.sign = pitchClass ∧
          (Accidental.read others).2 = rest := by
        simpa using read
      constructor
      · exact mem_pitchClasses.mpr ⟨first, Letter.mem_chars.mpr letter, _, rfl⟩
      · rw [List.cons_append, Accidental.sign_read]
    · cases read

theorem readPitchClass?_append (valid : pitchClass ∈ pitchClasses)
    (ends : ∀ c ∈ rest.head?, c ≠ 'b' ∧ c ≠ '#' ∧ c ≠ 'x') :
    readPitchClass? (pitchClass ++ rest) = some (pitchClass, rest) := by
  obtain ⟨first, letter, accidental, rfl⟩ := mem_pitchClasses.mp valid
  rw [List.cons_append, readPitchClass?, if_pos (Letter.mem_chars.mp letter),
    accidental.read_sign ends]

/-! Octaves and durations. -/

theorem mem_octaveChoices {choice : Option (List Char)} :
    (choice, tail) ∈ octaveChoices text ↔
      (∀ octave ∈ choice, octave ∈ octaves) ∧ text = choice.getD [] ++ tail := by
  simp only [octaveChoices, List.mem_append, List.mem_filterMap, Option.map_eq_some_iff,
    Prod.mk.injEq, List.isPrefixOf?_eq_some_iff_append_eq, List.mem_singleton]
  constructor
  · rintro (⟨octave, inside, rest, split, rfl, rfl⟩ | ⟨rfl, rfl⟩)
    · exact ⟨by simpa using inside, split.symm⟩
    · simp
  · rintro ⟨valid, rfl⟩
    cases choice with
    | none => exact .inr ⟨rfl, rfl⟩
    | some octave => exact .inl ⟨octave, valid octave rfl, tail, rfl, rfl, rfl⟩

theorem mem_octaves (valid : text ∈ octaves) :
    ∃ octave : Int, text = (toString octave).toList ∧ -4 ≤ octave ∧ octave ≤ 11 := by
  have all : ∀ text ∈ octaves,
      ∃ n ∈ List.range 16, text = (toString ((n : Int) - 4)).toList := by
    decide
  obtain ⟨n, less, written⟩ := all text valid
  have bound := List.mem_range.mp less
  exact ⟨_, written, by omega, by omega⟩

theorem readDuration?_eq_some {duration : Option (List Char)}
    (read : readDuration? text = some duration) :
    (∀ code ∈ duration, code ∈ durations) ∧
      ∃ comma : Bool, text = separator comma ++ duration.getD [] := by
  have finish {rest : List Char} (read : (if rest.isEmpty then some none
      else if rest ∈ durations then some (some rest) else none) = some duration) :
      (∀ code ∈ duration, code ∈ durations) ∧ rest = duration.getD [] := by
    split at read
    · cases read
      simp_all
    · split at read
      · cases read
        simp_all
      · cases read
  unfold readDuration? at read
  dsimp only at read
  split at read
  · rename_i rest
    obtain ⟨valid, same⟩ := finish read
    exact ⟨valid, true, by simp [← same]⟩
  · obtain ⟨valid, same⟩ := finish read
    exact ⟨valid, false, by simp [← same]⟩

theorem readDuration?_append {duration : Option (List Char)} (comma : Bool)
    (valid : ∀ code ∈ duration, code ∈ durations) :
    readDuration? (separator comma ++ duration.getD []) = some duration := by
  have plain : ∀ code ∈ durations, code ≠ [] ∧ code.head? ≠ some ',' := by decide
  have bare : readDuration? (duration.getD []) = some duration := by
    cases duration with
    | none => rfl
    | some code =>
      have inside := valid code rfl
      obtain ⟨nonempty, plain⟩ := plain code inside
      unfold readDuration?
      split
      · rename_i rest same
        rw [Option.getD_some] at same
        exact absurd (same ▸ rfl) plain
      · simp [nonempty, inside]
  cases comma with
  | false => exact bare
  | true =>
    cases duration with
    | none => rfl
    | some code =>
      have inside := valid code rfl
      simp [readDuration?, inside, (plain code inside).1]

/-! Whole tokens. -/

theorem note?_eq_some (read : note? token = some note) :
    note.Grammatical ∧ ∃ comma, token.toList = note.spelled comma := by
  unfold note? readNote? at read
  obtain ⟨⟨pitchClass, rest⟩, front, choices⟩ := Option.bind_eq_some_iff.mp read
  obtain ⟨valid, split⟩ := readPitchClass?_eq_some front
  obtain ⟨⟨choice, tail⟩, chosen, last⟩ := List.exists_of_findSome?_eq_some choices
  obtain ⟨octaves, rfl⟩ := mem_octaveChoices.mp chosen
  obtain ⟨duration, found, rfl⟩ := Option.map_eq_some_iff.mp last
  obtain ⟨durations, comma, rfl⟩ := readDuration?_eq_some found
  refine ⟨⟨by simpa using valid, by simpa using octaves, by simpa using durations⟩, comma, ?_⟩
  rw [split]
  cases choice <;> cases duration <;>
    simp [PartialNote.spelled, PartialNote.octaveChars, PartialNote.durationChars]

end Shorthand

namespace PartialNote
variable {note other : PartialNote}

/-- A character that can neither go on the sign of a pitch class nor separate. -/
def Plain (c : Char) : Prop := c ∈ Shorthand.alphabet ∧ c ≠ 'b' ∧ c ≠ '#' ∧ c ≠ 'x' ∧ c ≠ ','

instance (c : Char) : Decidable (Plain c) := inferInstanceAs (Decidable (_ ∧ _))

namespace Grammatical

theorem octave_mem (valid : note.Grammatical) :
    ∀ octave ∈ note.octave.map String.toList, octave ∈ Shorthand.octaves := by
  simpa using valid.octave

theorem duration_mem (valid : note.Grammatical) :
    ∀ duration ∈ note.duration.map String.toList, duration ∈ Shorthand.durations := by
  simpa using valid.duration

theorem part_chars {part : Option String} {texts : List (List Char)} {P : Char → Prop}
    [DecidablePred P] (all : texts.all (fun text => text.all fun c => P c) = true)
    (valid : ∀ text ∈ part, text.toList ∈ texts) :
    ∀ c ∈ (part.map String.toList).getD [], P c := by
  intro c here
  cases part with
  | none => cases here
  | some text =>
    have chars := List.all_eq_true.mp all text.toList (valid text rfl)
    exact of_decide_eq_true (List.all_eq_true.mp chars c here)

theorem octaveChars_plain (valid : note.Grammatical) : ∀ c ∈ note.octaveChars, Plain c :=
  part_chars (by decide) valid.octave

theorem durationChars_plain (valid : note.Grammatical) : ∀ c ∈ note.durationChars, Plain c :=
  part_chars (by decide) valid.duration

/-- The pitch class ends where the octave begins, since nothing that follows goes on a sign. -/
theorem readPitchClass?_spelled (valid : note.Grammatical) (comma : Bool) :
    Shorthand.readPitchClass? (note.spelled comma) = some (note.pitchClass.toList,
      note.octaveChars ++ (Shorthand.separator comma ++ note.durationChars)) := by
  refine Shorthand.readPitchClass?_append valid.pitchClass fun c here => ?_
  have inside := List.mem_of_mem_head? here
  rcases List.mem_append.mp inside with octave | later
  · obtain ⟨_, flat, sharp, double, _⟩ := valid.octaveChars_plain c octave
    exact ⟨flat, sharp, double⟩
  · rcases List.mem_append.mp later with between | duration
    · cases comma with
      | false => cases between
      | true =>
        obtain rfl := List.mem_singleton.mp between
        decide
    · obtain ⟨_, flat, sharp, double, _⟩ := valid.durationChars_plain c duration
      exact ⟨flat, sharp, double⟩

theorem readNote?_isSome (valid : note.Grammatical) (comma : Bool) :
    (Shorthand.readNote? (note.spelled comma)).isSome := by
  have chosen : (note.octave.map String.toList,
      Shorthand.separator comma ++ note.durationChars) ∈ Shorthand.octaveChoices
        (note.octaveChars ++ (Shorthand.separator comma ++ note.durationChars)) :=
    Shorthand.mem_octaveChoices.mpr ⟨valid.octave_mem, rfl⟩
  have read := Shorthand.readDuration?_append comma valid.duration_mem
  unfold Shorthand.readNote?
  rw [valid.readPitchClass?_spelled]
  refine List.findSome?_isSome_iff.mpr ⟨_, chosen, ?_⟩
  dsimp only
  rw [durationChars, read]
  rfl

theorem part_inj {part part' : Option String} (nonempty : ∀ text ∈ part, text.toList ≠ [])
    (nonempty' : ∀ text ∈ part', text.toList ≠ [])
    (same : (part.map String.toList).getD [] = (part'.map String.toList).getD []) :
    part = part' := by
  cases part with
  | none =>
    cases part' with
    | none => rfl
    | some text' => exact absurd same.symm (nonempty' text' rfl)
  | some text =>
    cases part' with
    | none => exact absurd same (nonempty text rfl)
    | some text' => exact congrArg some (String.toList_inj.mp same)

/-- A token with a comma in it is spelled in one way. -/
theorem spelled_inj (valid : note.Grammatical) (valid' : other.Grammatical) {comma : Bool}
    (same : note.spelled true = other.spelled comma) : note = other := by
  have read := valid.readPitchClass?_spelled true
  rw [same, valid'.readPitchClass?_spelled, Option.some.injEq, Prod.mk.injEq] at read
  obtain ⟨pitchClass, rest⟩ := read
  have octavePlain : ',' ∉ other.octaveChars := fun here =>
    (valid'.octaveChars_plain ',' here).2.2.2.2 rfl
  have durationPlain : ',' ∉ other.durationChars := fun here =>
    (valid'.durationChars_plain ',' here).2.2.2.2 rfl
  have separated : comma = true := by
    cases comma with
    | true => rfl
    | false =>
      have inside : ',' ∈ other.octaveChars ++ ([] ++ other.durationChars) := by
        rw [← Shorthand.separator_false, rest]
        simp
      rcases List.mem_append.mp inside with octave | duration
      · exact absurd octave octavePlain
      · exact absurd duration durationPlain
  subst separated
  obtain ⟨octaveSame, -, durationSame⟩ :=
    (List.append_cons_inj_of_notMem octavePlain durationPlain).mp rest
  have octaves : ∀ octave ∈ Shorthand.octaves, octave ≠ [] := by decide
  have durations : ∀ code ∈ Shorthand.durations, code ≠ [] := by decide
  have octave : other.octave = note.octave := part_inj
    (fun text here => octaves _ (valid'.octave text here))
    (fun text here => octaves _ (valid.octave text here)) octaveSame
  have duration : other.duration = note.duration := part_inj
    (fun text here => durations _ (valid'.duration text here))
    (fun text here => durations _ (valid.duration text here)) durationSame
  calc note = ⟨note.pitchClass, note.octave, note.duration⟩ := rfl
    _ = ⟨other.pitchClass, other.octave, other.duration⟩ := by
      rw [String.toList_inj.mp pitchClass, octave, duration]

/-- A printed note is read back. -/
theorem note?_written (valid : note.Grammatical) : Shorthand.note? note.written = some note := by
  have found := valid.readNote?_isSome true
  rw [← note.written_chars] at found
  obtain ⟨other, read⟩ := Option.isSome_iff_exists.mp found
  obtain ⟨valid', comma, same⟩ := Shorthand.note?_eq_some read
  rw [note.written_chars] at same
  obtain rfl := valid.spelled_inj valid' same
  exact read

/-- A printed note is a token. -/
theorem isToken_written (valid : note.Grammatical) : Shorthand.IsToken note.written := by
  have named : ∀ pitchClass ∈ Shorthand.pitchClasses, pitchClass ≠ [] := by decide
  have nonempty := named _ valid.pitchClass
  have all : Shorthand.pitchClasses.all (fun text => text.all (· ∈ Shorthand.alphabet)) = true := by
    decide
  have letters : ∀ c ∈ note.pitchClass.toList, c ∈ Shorthand.alphabet := by
    have chars := List.all_eq_true.mp all note.pitchClass.toList valid.pitchClass
    exact fun c here => of_decide_eq_true (List.all_eq_true.mp chars c here)
  have chars : ∀ c ∈ note.spelled true, c ∈ Shorthand.alphabet := by
    intro c here
    rcases List.mem_append.mp here with pitchClass | later
    · exact letters c pitchClass
    rcases List.mem_append.mp later with octave | later
    · exact (valid.octaveChars_plain c octave).1
    rcases List.mem_append.mp later with between | duration
    · obtain rfl := List.mem_singleton.mp between
      decide
    · exact (valid.durationChars_plain c duration).1
  refine ⟨?_, by simpa [written_chars] using chars⟩
  rw [Ne, ← String.toList_inj, note.written_chars]
  simp_all [spelled]

end Grammatical
end PartialNote
end Solfege
