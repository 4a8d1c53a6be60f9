import Solfege.Proofs.Shorthand.Grammar

/-! The grammar of a token, said without its reader: a token is a note exactly when it can be cut
into a pitch class, an octave, a comma and a duration, all but the first of which may be missing.
Where it can be cut in several ways the reader takes the longest octave. -/
namespace Solfege.Shorthand

/-- A letter in either case with at most one sign. -/
def IsPitchClass (text : String) : Prop :=
  ∃ letter ∈ Letter.chars, ∃ sign ∈ ["", "bb", "b", "#", "x"],
    text = String.singleton letter ++ sign

/-- A whole number from -4 to 11. -/
def IsOctave (text : String) : Prop := ∃ n : Int, -4 ≤ n ∧ n ≤ 11 ∧ text = toString n

/-- No time, a measure, a whole note, plain or dotted, or a part of one, plain, dotted or as a
triplet. -/
def IsDuration (text : String) : Prop :=
  text ∈ ["0", "1m", "1n", "1n."] ∨
    ∃ count ∈ [2, 4, 8, 16, 32, 64, 128], ∃ suffix ∈ ["n", "n.", "t"],
      text = toString count ++ suffix

/-- A token is cut into the parts of a note. -/
structure Cut (token pitchClass octave comma duration : String) : Prop where
  whole : token = pitchClass ++ octave ++ comma ++ duration
  pitchClass : IsPitchClass pitchClass
  octave : octave = "" ∨ IsOctave octave
  comma : comma = "" ∨ comma = ","
  duration : duration = "" ∨ IsDuration duration

variable {token text pitchClass octave comma duration : String} {taken : PartialNote}

/-! The parts are those that the reader knows. -/

theorem isPitchClass_iff : IsPitchClass text ↔ text.toList ∈ pitchClasses := by
  have signs (sign : String) : sign ∈ ["", "bb", "b", "#", "x"] ↔
      ∃ accidental : Accidental, accidental.sign = sign.toList := by
    rw [← Accidental.mem_signs]
    exact (List.mem_map_of_injective fun _ _ => String.toList_inj.mp).symm
  rw [mem_pitchClasses]
  constructor
  · rintro ⟨letter, known, sign, is, rfl⟩
    obtain ⟨accidental, same⟩ := (signs sign).mp is
    exact ⟨letter, known, accidental, by simp [same]⟩
  · rintro ⟨letter, known, accidental, same⟩
    refine ⟨letter, known, String.ofList accidental.sign, (signs _).mpr ⟨accidental, ?_⟩,
      String.toList_inj.mp ?_⟩
    · simp
    · simp [same]

theorem isOctave_iff : IsOctave text ↔ text.toList ∈ octaves := by
  have all : ∀ n ∈ List.range 16, (toString ((n : Int) - 4)).toList ∈ octaves := by decide
  constructor
  · rintro ⟨n, above, below, rfl⟩
    have place : ((n + 4).toNat : Int) - 4 = n := by omega
    have inside : (n + 4).toNat ∈ List.range 16 := List.mem_range.mpr (by omega)
    exact place ▸ all _ inside
  · intro valid
    obtain ⟨n, written, above, below⟩ := mem_octaves valid
    exact ⟨n, above, below, String.toList_inj.mp written⟩

theorem isDuration_iff : IsDuration text ↔ text.toList ∈ durations := by
  have whole : ∀ text ∈ ["0", "1m", "1n", "1n."], text.toList ∈ durations := by decide
  have parts : ∀ count ∈ [2, 4, 8, 16, 32, 64, 128], ∀ suffix ∈ ["n", "n.", "t"],
      (toString count ++ suffix).toList ∈ durations := by
    decide
  have all : ∀ code ∈ durations, String.ofList code ∈ ["0", "1m", "1n", "1n."] ∨
      ∃ count ∈ [2, 4, 8, 16, 32, 64, 128], ∃ suffix ∈ ["n", "n.", "t"],
        String.ofList code = toString count ++ suffix := by
    decide
  constructor
  · rintro (here | ⟨count, counts, suffix, ends, rfl⟩)
    · exact whole _ here
    · exact parts count counts suffix ends
  · intro valid
    simpa [IsDuration] using all _ valid

/-! Cuts are notes of the grammar as they are spelled. -/

/-- A part that may be missing. -/
def partOf (text : String) : Option String := if text = "" then none else some text

theorem partOf_getD (text : String) : (partOf text).getD "" = text := by
  unfold partOf
  split <;> simp_all

theorem mem_partOf {part : String} (here : part ∈ partOf text) : part = text ∧ text ≠ "" := by
  unfold partOf at here
  split at here
  · cases here
  · exact ⟨(Option.some.inj here).symm, ‹_›⟩

theorem getD_chars (part : Option String) :
    (part.getD "").toList = (part.map String.toList).getD [] := by
  cases part <;> rfl

theorem Cut.spells (cut : Cut token pitchClass octave comma duration) :
    ∃ note : PartialNote, ∃ separated, note.Grammatical ∧ note.pitchClass = pitchClass ∧
      note.octave.getD "" = octave ∧ token.toList = note.spelled separated := by
  have separates : ∃ separated, comma.toList = separator separated := by
    rcases cut.comma with rfl | rfl
    · exact ⟨false, rfl⟩
    · exact ⟨true, by decide⟩
  obtain ⟨separated, between⟩ := separates
  refine ⟨⟨pitchClass, partOf octave, partOf duration⟩, separated, ⟨?_, ?_, ?_⟩, rfl,
    partOf_getD octave, ?_⟩
  · exact isPitchClass_iff.mp cut.pitchClass
  · intro part here
    obtain ⟨rfl, nonempty⟩ := mem_partOf here
    exact isOctave_iff.mp (cut.octave.resolve_left nonempty)
  · intro part here
    obtain ⟨rfl, nonempty⟩ := mem_partOf here
    exact isDuration_iff.mp (cut.duration.resolve_left nonempty)
  · rw [PartialNote.spelled, PartialNote.octaveChars, PartialNote.durationChars, ← getD_chars,
      ← getD_chars, partOf_getD, partOf_getD, cut.whole]
    simp [between]

theorem cut_of_spelled (valid : taken.Grammatical) {separated : Bool}
    (spelled : token.toList = taken.spelled separated) :
    Cut token taken.pitchClass (taken.octave.getD "") (String.ofList (separator separated))
      (taken.duration.getD "") := by
  refine ⟨String.toList_inj.mp ?_, isPitchClass_iff.mpr valid.pitchClass, ?_, ?_, ?_⟩
  · rw [spelled]
    simp [PartialNote.spelled, PartialNote.octaveChars, PartialNote.durationChars, getD_chars]
  · cases written : taken.octave with
    | none => exact .inl rfl
    | some octave => exact .inr (isOctave_iff.mpr (valid.octave octave written))
  · cases separated
    · exact .inl rfl
    · exact .inr rfl
  · cases written : taken.duration with
    | none => exact .inl rfl
    | some duration => exact .inr (isDuration_iff.mpr (valid.duration duration written))

/-! The octave that is taken. -/

/-- Longer octaves are tried before shorter ones, and before none. -/
theorem octaveChoices_sorted (text : List Char) :
    (octaveChoices text).Pairwise fun a b => (b.1.getD []).length ≤ (a.1.getD []).length := by
  have sorted : octaves.Pairwise fun a b => b.length ≤ a.length := by decide
  refine List.pairwise_append.mpr ⟨?_, List.pairwise_singleton _ _, ?_⟩
  · refine List.pairwise_filterMap.mpr (sorted.imp fun shorter choice here other there => ?_)
    obtain ⟨_, _, rfl⟩ := Option.map_eq_some_iff.mp here
    obtain ⟨_, _, rfl⟩ := Option.map_eq_some_iff.mp there
    exact shorter
  · rintro _ _ _ last
    rw [List.mem_singleton.mp last]
    exact Nat.zero_le _

/-- No note that is spelled as a token has a longer octave than the one that is read, and all of
them have its pitch class. -/
theorem note?_longest (read : note? token = some taken) {other : PartialNote}
    (valid : other.Grammatical) {separated : Bool}
    (spelled : token.toList = other.spelled separated) :
    other.pitchClass = taken.pitchClass ∧
      (other.octave.getD "").length ≤ (taken.octave.getD "").length := by
  unfold note? readNote? at read
  rw [spelled, valid.readPitchClass?_spelled] at read
  obtain ⟨tried, choice, later, choices, reads, failed⟩ := List.findSome?_eq_some_iff.mp read
  obtain ⟨duration, _, rfl⟩ := Option.map_eq_some_iff.mp reads
  refine ⟨by simp, ?_⟩
  have chosen : (other.octave.map String.toList, separator separated ++ other.durationChars) ∈
      tried ++ choice :: later :=
    choices ▸ mem_octaveChoices.mpr ⟨valid.octave_mem, rfl⟩
  have readable : readDuration? (separator separated ++ other.durationChars) =
      some (other.duration.map String.toList) :=
    readDuration?_append separated valid.duration_mem
  -- A choice that was tried before has failed, and this one does not fail.
  have untried : (other.octave.map String.toList, separator separated ++ other.durationChars) ∉
      tried := by
    intro here
    have none := failed _ here
    dsimp only at none
    rw [readable] at none
    cases none
  have size (part : Option String) :
      (part.getD "").length = ((part.map String.toList).getD []).length := by
    rw [← getD_chars, String.length_toList]
  have sorted := octaveChoices_sorted
    (other.octaveChars ++ (separator separated ++ other.durationChars))
  rw [choices] at sorted
  obtain ⟨_, behind, _⟩ := List.pairwise_append.mp sorted
  have same : (choice.1.map String.ofList).map String.toList = choice.1 := by
    cases choice.1 <;> simp
  dsimp only
  rw [size, size, same]
  rcases List.mem_append.mp chosen with here | here
  · exact absurd here untried
  · rcases List.mem_cons.mp here with rfl | here
    · exact Nat.le_refl _
    · exact (List.pairwise_cons.mp behind).1 _ here

theorem note_eq (token : String) :
    note token = (note? token).elim (.error (.notNote token)) .ok := by
  unfold note
  cases note? token <;> rfl

/-- A token is a note exactly when it can be cut into one. What is read is such a cut; its pitch
class is that of every cut, and no cut has a longer octave. Any other token is refused by name. -/
theorem note?_cut (token : String) :
    ((note? token).isSome ↔ ∃ pitchClass octave comma duration,
      Cut token pitchClass octave comma duration) ∧
    (∀ note, note? token = some note → note.octave ≠ some "" ∧ note.duration ≠ some "" ∧
      (∃ comma, Cut token note.pitchClass (note.octave.getD "") comma (note.duration.getD "")) ∧
      ∀ pitchClass octave comma duration, Cut token pitchClass octave comma duration →
        pitchClass = note.pitchClass ∧ octave.length ≤ (note.octave.getD "").length) ∧
    (∀ found, note token = .ok found ↔ note? token = some found) ∧
    ∀ fault, note token = .error fault ↔ fault = .notNote token ∧
      ¬ ∃ pitchClass octave comma duration, Cut token pitchClass octave comma duration := by
  have cuts : (note? token).isSome ↔ ∃ pitchClass octave comma duration,
      Cut token pitchClass octave comma duration := by
    constructor
    · intro found
      obtain ⟨note, read⟩ := Option.isSome_iff_exists.mp found
      obtain ⟨valid, separated, spelled⟩ := note?_eq_some read
      exact ⟨_, _, _, _, cut_of_spelled valid spelled⟩
    · rintro ⟨pitchClass, octave, comma, duration, cut⟩
      obtain ⟨note, separated, valid, _, _, spelled⟩ := cut.spells
      rw [note?, spelled]
      exact valid.readNote?_isSome separated
  refine ⟨cuts, fun note read => ?_, fun found => ?_, fun fault => ?_⟩
  · obtain ⟨valid, separated, spelled⟩ := note?_eq_some read
    have octaves : ∀ octave ∈ octaves, octave ≠ [] := by decide
    have durations : ∀ code ∈ durations, code ≠ [] := by decide
    refine ⟨fun empty => octaves _ (valid.octave "" empty) rfl,
      fun empty => durations _ (valid.duration "" empty) rfl, ⟨_, cut_of_spelled valid spelled⟩, ?_⟩
    intro pitchClass octave comma duration cut
    obtain ⟨other, separated, valid, rfl, rfl, spelled⟩ := cut.spells
    exact note?_longest read valid spelled
  · rw [note_eq]
    cases note? token <;> simp
  · rw [← cuts, note_eq]
    cases note? token <;> simp [eq_comm]

/-- An octave of one digit and no time would do as well. -/
theorem note?_cut_ambiguous : Cut "Bb10" "Bb" "1" "" "0" ∧
    note? "Bb10" = some ⟨"Bb", some "10", none⟩ ∧
    ∀ pitchClass octave comma duration, Cut "Bb10" pitchClass octave comma duration →
      pitchClass = "Bb" ∧ octave.length ≤ 2 := by
  have read : note? "Bb10" = some ⟨"Bb", some "10", none⟩ := by decide
  refine ⟨⟨by decide, ?_, ?_, .inl rfl, ?_⟩, read, ((note?_cut "Bb10").2.1 _ read).2.2.2⟩
  · exact ⟨'B', by decide, "b", by decide, by decide⟩
  · exact .inr ⟨1, by decide, by decide, by decide⟩
  · exact .inr (.inl (by decide))

end Solfege.Shorthand
