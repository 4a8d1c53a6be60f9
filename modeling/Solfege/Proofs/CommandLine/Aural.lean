import Solfege.Proofs.Aural.Recording
import Solfege.Proofs.CommandLine.Render

/-! The aural command. It writes a file, finds nothing to play or tells what is wrong, unless a note
of the object has no finite place or no finite length in ticks: what goes wrong then is not dealt
with. -/
namespace Solfege.CommandLine
open Binary64
variable {setting : Setting} {music : Music} {disk : Disk} {path : String}
  {notes : List RecordedNote}

/-- How a run comes to an end of its own: it writes a file of its notes, it has nothing to write, or
it tells what is wrong, which is either that there are no notes or that the file could not be
written. -/
inductive Outcome.Ends (disk : Disk) (path : String) (notes : List RecordedNote) : Outcome → Prop
  | wrote (count : ℕ) (said : String) (bytes : List UInt8) (taken : disk path = none)
    (file : (⟨Duration.referenceTempo, 0, 0, notes⟩ : Recorder).bytes.2 = .ok bytes) :
    Ends disk path notes ⟨0, "Done!  Wrote " ++ toString count ++ " " ++ "unit" ++ "(s) to '" ++
      path ++ "'.\n", said, none, some (path, bytes)⟩
  | nothing (none : notes = []) : Ends disk path notes (.success "Nothing to play.\n" "")
  | told (said message : String) (refused : notes = [] ∨ disk path ≠ none) :
    Ends disk path notes (.failure said message)

theorem Outcome.Ends.settled {outcome : Outcome} (ends : outcome.Ends disk path notes) :
    outcome.fault = none := by
  cases ends <;> rfl

theorem Outcome.not_ends_escaped (said : String) (fault : Fault) :
    ¬ (Outcome.escaped said fault).Ends disk path notes := by
  intro ends
  cases ends.settled

/-- Saving ends by itself unless the recording cannot be written. -/
theorem save_cases (setting : Setting) (plain : '\x00' ∉ path.toList) (said : String)
    (recorded : (recording music Duration.referenceTempo Stage.initial).1 =
      (⟨Duration.referenceTempo, 0, 0, notes⟩ : Recorder).bytes.2) :
    let outcome := save setting music "unit" path Duration.referenceTempo said
    let bytes := (⟨Duration.referenceTempo, 0, 0, notes⟩ : Recorder).bytes.2
    ((∃ written, bytes = .ok written) ∧ outcome.Ends setting.disk path notes) ∨
    ∃ fault, bytes = .error fault ∧ ∃ said, outcome = .escaped said fault := by
  intro outcome bytes
  cases result : recording music Duration.referenceTempo Stage.initial with
  | mk made stage =>
    rw [result] at recorded
    have recorded : made = bytes := recorded
    unfold outcome save
    rw [result]
    dsimp only
    cases made with
    | error fault => exact .inr ⟨fault, recorded.symm, _, rfl⟩
    | ok written =>
      refine .inl ⟨⟨written, recorded.symm⟩, ?_⟩
      dsimp only
      rw [String.contains_char_eq, if_neg (by simpa using plain)]
      cases taken : setting.disk path with
      | some complaint => exact .told _ _ (.inr (by simp [taken]))
      | none => exact .wrote _ _ written taken recorded.symm

/-- The notes of an object are what is recorded of its score. -/
theorem recording_units {seconds : Binary64} (unsigned : seconds.Unsigned) (options : Aural.Options)
    {pitches : List Int} (nameable : ∀ n ∈ pitches, Pitch.Nameable n) :
    (recording (Aural.units seconds (Aural.sounds options pitches)) Duration.referenceTempo
      Stage.initial).1 = (⟨Duration.referenceTempo, 0, 0,
        Aural.performance options pitches seconds⟩ : Recorder).bytes.2 := by
  have pitched := Aural.pitched_units nameable seconds options
  have notes : (Aural.units seconds (Aural.sounds options pitches)).notesFrom 0 1
      Duration.referenceTempo = Aural.performance options pitches seconds :=
    Aural.notes_units unsigned options nameable
  rw [recording_sends Duration.tempoScale_reference fun event here =>
    ⟨rfl, Aural.units_timed unsigned _ event here, pitched event here⟩, notes]

theorem aural_score {phrase : String} {values : Aural.Options.Values} {degrees : List Int}
    {options : Aural.Options} {later : Chance}
    (resolved : (Aural.Request.phrase phrase).resolve = .ok degrees)
    (checked : values.check = .ok options)
    (scored : Aural.score degrees options (.ofList setting.numbers) = .ok (music, later)) :
    aural setting phrase path values = if music = [] then .success "Nothing to play.\n" ""
      else save setting music "unit" path Duration.referenceTempo "" := by
  unfold aural
  rw [resolved, checked]
  dsimp only
  rw [scored]
  cases music with
  | nil => rfl
  | cons first rest => rw [if_neg (List.cons_ne_nil first rest)]

/-- Either the command ends without saving anything, or it saves the score of a performance. -/
theorem aural_cases (setting : Setting) {phrase : String} (path : String)
    {values : Aural.Options.Values} (asked : Aural.Options.Asked values.unitLength)
    (spellable : Aural.Spellable phrase values (.ofList setting.numbers)) :
    let notes := Aural.notesOf phrase values (.ofList setting.numbers)
    let outcome := aural setting phrase path values
    (notes = [] ∧ outcome.Ends setting.disk path notes) ∨
    ∃ options pitches seconds, pitches.length ≤ 8 ∧ (∀ n ∈ pitches, Pitch.Nameable n) ∧
      seconds.Unsigned ∧ Aural.Options.Lasts values.unitLength seconds ∧
      notes = Aural.performance options pitches seconds ∧
      outcome = save setting (Aural.units seconds (Aural.sounds options pitches)) "unit" path
        Duration.referenceTempo "" := by
  intro notes outcome
  rcases Aural.resolve_phrase phrase with ⟨degrees, resolved, few⟩ | unknown
  · cases checked : values.check with
    | error fault =>
      left
      unfold notes Aural.notesOf outcome aural
      rw [resolved, checked]
      exact ⟨rfl, .told _ _ (.inl rfl)⟩
    | ok options =>
      -- A share of a second among no degrees is no length, so no degrees come first.
      by_cases none : degrees = []
      · subst none
        left
        have made : outcome = .success _ _ := aural_score resolved checked rfl
        have none : notes = [] := Aural.notesOf_nil resolved checked
        exact ⟨none, made ▸ .nothing none⟩
      · have facts := Aural.Options.checked_of_check checked
        obtain ⟨root, named⟩ := facts.root
        obtain ⟨seconds, lasts, short⟩ :=
          Aural.toSeconds_ok facts asked (List.length_pos_iff.mpr none) few
        have unsigned := Aural.unsigned_seconds facts lasts
        have performed : notes = _ := Aural.notesOf_eq resolved checked named lasts
        have scored := Aural.score_eq none options (.ofList setting.numbers)
        have within := spellable degrees options resolved checked
        have nameable := List.forall_mem_map.mpr (within root named)
        rw [Aural.shifted_eq named within lasts] at scored
        have made : outcome = if _ = [] then _ else _ := aural_score resolved checked scored
        split at made
        · left
          rename_i empty
          rw [← Aural.notes_units unsigned options nameable, empty] at performed
          exact ⟨performed, made ▸ .nothing performed⟩
        · right
          refine ⟨options, _, seconds, ?_, nameable, unsigned, short, performed, made⟩
          rwa [List.length_map]
  · left
    unfold notes Aural.notesOf outcome aural
    rw [unknown]
    exact ⟨rfl, .told _ _ (.inl rfl)⟩

/-- The command ends by itself exactly when the notes of the object can be written. -/
theorem aural_ends (setting : Setting) {phrase : String} (plain : '\x00' ∉ path.toList)
    {values : Aural.Options.Values} (asked : Aural.Options.Asked values.unitLength)
    (spellable : Aural.Spellable phrase values (.ofList setting.numbers)) :
    let notes := Aural.notesOf phrase values (.ofList setting.numbers)
    let outcome := aural setting phrase path values
    (outcome.Ends setting.disk path notes ∨
      ∃ said fault, outcome = .escaped said fault ∧ fault.Endless) ∧
    (outcome.Ends setting.disk path notes ↔ Recorder.Fitting notes) := by
  intro notes outcome
  rcases aural_cases setting path asked spellable with
    ⟨none, ends⟩ | ⟨options, pitches, seconds, _, nameable, unsigned, _, performed, saves⟩
  · have none : notes = [] := none
    exact ⟨.inl ends, iff_of_true ends (none ▸ Recorder.fitting_nil)⟩
  · have performed : notes = Aural.performance options pitches seconds := performed
    have saves : outcome = _ := saves
    have measured : ∀ note ∈ notes, Recorder.Measured note := by
      rw [performed]
      exact Aural.performance_measured
    have recorded := recording_units unsigned options nameable
    rw [← performed] at recorded
    -- The outcome and what fits both follow the bytes of the recording.
    rcases save_cases setting plain "" recorded with
      ⟨⟨written, made⟩, ends⟩ | ⟨fault, failed, said, escapes⟩
    · rcases Recorder.bytes_cases measured with ⟨fits, _⟩ | ⟨_, fault, failed, _⟩
      · have ends := saves ▸ ends
        exact ⟨.inl ends, iff_of_true ends fits⟩
      · rw [made] at failed
        cases failed
    · rcases Recorder.bytes_cases measured with ⟨_, written, made⟩ | ⟨unfit, _, same, known⟩
      · rw [failed] at made
        cases made
      · rw [failed] at same
        cases same
        have escapes := saves.trans escapes
        exact ⟨.inr ⟨said, fault, escapes, known⟩,
          iff_of_false (escapes ▸ Outcome.not_ends_escaped said fault) unfit⟩

/-- A unit that is not too long can be written, and one without end cannot. -/
theorem notes_fit (setting : Setting) {phrase : String} {values : Aural.Options.Values}
    (asked : Aural.Options.Asked values.unitLength)
    (spellable : Aural.Spellable phrase values (.ofList setting.numbers)) :
    let notes := Aural.notesOf phrase values (.ofList setting.numbers)
    ((∀ x, values.unitLength = .number (.real x) → x ≤ 1e300) → Recorder.Fitting notes) ∧
    ∀ x, values.unitLength = .number (.real x) → x.isFinite = false →
      (∃ note ∈ notes, Recorder.inRange note = true) → ¬ Recorder.Fitting notes := by
  intro notes
  rcases aural_cases setting "" asked spellable with
    ⟨none, _⟩ | ⟨options, pitches, seconds, few, _, unsigned, lasts, performed, _⟩
  · have none : notes = [] := none
    refine ⟨fun _ => none ▸ Recorder.fitting_nil, ?_⟩
    rintro x _ _ ⟨note, here, _⟩
    rw [none] at here
    cases here
  · have performed : notes = _ := performed
    rw [performed]
    refine ⟨fun short => Aural.performance_fits options few ?_, ?_⟩
    · rcases lasts with ⟨_, small⟩ | real
      · have second : Below 2071 1 := by decide +kernel
        exact second.of_le unsigned small
      · have limit : Below 2071 1e300 := by decide +kernel
        exact limit.of_le unsigned (short seconds real)
    · rintro x real endless ⟨note, here, range⟩
      rcases lasts with ⟨auto, _⟩ | same
      · rw [real] at auto
        cases auto
      · rw [real] at same
        cases same
        exact Aural.performance_unfit endless here range

/-! The command line. -/

section
variable {arguments : List String} {parsed : Parsed} {phrase : String}
  {transposition : Transposition} {length : Datum}

theorem unitLengthOf_asked (lasts : unitLengthOf parsed = .ok length) :
    Aural.Options.Asked length := by
  unfold unitLengthOf optionValue at lasts
  split at lasts
  · cases lasts
    exact .inr ⟨_, rfl⟩
  · rename_i text _
    cases read : readUnitLength text with
    | error reason =>
      rw [read] at lasts
      cases lasts
    | ok asked =>
      rw [read] at lasts
      cases lasts
      unfold readUnitLength at read
      split at read
      · rename_i auto
        cases read
        exact .inl (auto ▸ rfl)
      · split at read
        · cases read
        · split at read
          · cases read
          · cases read
            exact .inr ⟨_, rfl⟩

/-- The values that the options of the command give. -/
def auralValues (parsed : Parsed) (transposition : Transposition) (length : Datum) :
    Aural.Options.Values where
  root := (parsed.text? "--root").getD "F4"
  transposition := transpositionDatum transposition
  arpeggio := (parsed.flag? "--arpeggio").getD true
  chord := (parsed.flag? "--chord").getD true
  unitLength := length

theorem auralCommand_eq (setting : Setting)
    (apart : parse auralSpellings true arguments = .ok parsed)
    (asked : parsed.flag? "--help" ≠ some true) (given : parsed.others = [phrase])
    (output : parsed.text? "--output" = some path)
    (shift : transpositionOf parsed = .ok transposition)
    (lasts : unitLengthOf parsed = .ok length) :
    auralCommand setting arguments =
      aural setting phrase path (auralValues parsed transposition length) := by
  have one : argument parsed "NAME" = .ok phrase := by
    rw [argument, given]
    rfl
  have written : outputPath parsed = .ok path := by
    rw [outputPath, output]
    rfl
  have known : ∀ parameter ∈ "NAME" :: ["--output", "--transpose", "--note-duration"] ++
      auralSpellings.map Spelling.option, parameter ∈ ["NAME", "--output", "--transpose",
        "--note-duration", "--root", "--arpeggio", "--chord", "--help"] := by
    decide
  refine command_eq apart asked given (fun parameter here => ?_) ?_
  · have passes : ∀ parameter ∈ ["NAME", "--output", "--transpose", "--note-duration", "--root",
        "--arpeggio", "--chord", "--help"], checkParameter parsed parameter = .ok () := by
      have read {α : Type} (a : α) : discard (Except.ok a : Except UsageFault α) = .ok () := rfl
      simp [checkParameter, one, written, shift, lasts, read, pure, Except.pure]
    exact passes parameter (known parameter here)
  · rw [shift, lasts, one, written]
    rfl

/-- Whatever object and options are asked for, as long as its pitches have names, the run ends by
itself exactly when all notes of the object in range have finite places and lengths in ticks;
otherwise a place or a length without end could not be cut off. So it ends by itself where a unit is
a share of a second or no longer than the bound, and does not where a unit has no end and some note
is in range. -/
theorem run_aural_ends (apart : parse auralSpellings true arguments = .ok parsed)
    (asked : parsed.flag? "--help" ≠ some true) (given : parsed.others = [phrase])
    (output : parsed.text? "--output" = some path) (plain : '\x00' ∉ path.toList)
    (shift : transpositionOf parsed = .ok transposition) (lasts : unitLengthOf parsed = .ok length)
    {numbers : List Int} (spellable :
      Aural.Spellable phrase (auralValues parsed transposition length) (.ofList numbers))
    (disk : Disk) {flags : List String} (verbose : flags = [] ∨ flags = ["-v"]) :
    let notes :=
      Aural.notesOf phrase (auralValues parsed transposition length) (.ofList numbers)
    ∃ outcome : Outcome, run disk numbers (flags ++ "aural" :: arguments) = outcome.unstyled ∧
      (outcome.Ends disk path notes ∨
        ∃ said fault, outcome = .escaped said fault ∧ fault.Endless) ∧
      (outcome.Ends disk path notes ↔ Recorder.Fitting notes) ∧
      ((∀ x, length = .number (.real x) → x ≤ 1e300) → outcome.Ends disk path notes) ∧
      ∀ x, length = .number (.real x) → x.isFinite = false →
        (∃ note ∈ notes, Recorder.inRange note = true) → ¬ outcome.Ends disk path notes := by
  intro notes
  obtain ⟨setting, rfl, rfl, ran⟩ :=
    run_command disk numbers verbose (by decide : "aural" ≠ "--") (by decide) arguments
  have known : Aural.Options.Asked (auralValues parsed transposition length).unitLength :=
    unitLengthOf_asked lasts
  obtain ⟨short, endless⟩ := notes_fit setting known spellable
  obtain ⟨ends, exactly⟩ := aural_ends setting plain known spellable
  refine ⟨_, ran _ rfl, ?_⟩
  rw [auralCommand_eq setting apart asked given output shift lasts]
  exact ⟨ends, exactly, fun few => exactly.mpr (short few), fun x real infinite heard ends =>
    endless x real infinite heard (exactly.mp ends)⟩

end

/-- Two pitches one after the other, moved by chance, in a second. -/
theorem run_aural_ends_tritone : ∃ bytes,
    (run (fun _ => none) [9] ["-v", "aural", "Tritone ", "--root=Bb3", "--transpose", "random",
      "--no-chord", "--note-duration", "auto", "-ox.mid"]).saved = some ("x.mid", bytes) ∧
    (⟨Duration.referenceTempo, 0, 0, [⟨62, .real 0, .real 0.5, .real 1⟩,
      ⟨68, .real 0.5, .real 0.5, .real 1⟩]⟩ : Recorder).bytes.2 = .ok bytes := by
  let parsed : Parsed := ⟨[("--root", .text "Bb3"), ("--transpose", .text "random"),
    ("--chord", .flag false), ("--note-duration", .text "auto"), ("--output", .text "x.mid")],
    ["Tritone "]⟩
  have apart : parse auralSpellings true ["Tritone ", "--root=Bb3", "--transpose", "random",
    "--no-chord", "--note-duration", "auto", "-ox.mid"] = .ok parsed := rfl
  have shift : transpositionOf parsed = .ok .random := rfl
  have lasts : unitLengthOf parsed = .ok (.text "auto") := rfl
  have plain : '\x00' ∉ "x.mid".toList := by decide
  have notes : Aural.notesOf "Tritone " (auralValues parsed .random (.text "auto"))
      (.ofList [9]) = [⟨62, .real 0, .real 0.5, .real 1⟩, ⟨68, .real 0.5, .real 0.5, .real 1⟩] := by
    decide +kernel
  have named : Pitch.numberOf "Bb3" = .ok 58 := eq_ok_of_toOption (by decide +kernel)
  let options : Aural.Options := ⟨"Bb3", .random, true, false, .automatic⟩
  have within : options.Within [0, 6] (options.transposition.resolve (.ofList [9])).1 :=
    Aural.Options.within_of_named named (by decide)
  have spellable : Aural.Spellable "Tritone " (auralValues parsed .random (.text "auto"))
      (.ofList [9]) :=
    Aural.spellable_of_within (eq_ok_of_toOption (by decide +kernel))
      (Aural.Options.Values.check_eq named rfl rfl) within
  obtain ⟨outcome, ran, _, _, short, _⟩ :=
    run_aural_ends apart (by decide) rfl rfl plain shift lasts spellable (fun _ => none) (.inr rfl)
  have ends := short (by rintro x ⟨⟩)
  have saved := congrArg Outcome.saved ran
  rw [notes] at ends
  cases ends with
  | wrote count said bytes taken file => exact ⟨bytes, saved, file⟩
  | nothing none => cases none
  | told said message refused =>
    rcases refused with none | unwritten
    · cases none
    · exact absurd rfl unwritten

/-- A unit that is not a number is accepted, and the run does not end by itself. -/
theorem run_aural_unending :
    let arguments := ["unison", "-o", "x.mid", "--note-duration", "nan"]
    let outcome := run (fun _ => none) [] ("aural" :: arguments)
    (∃ parsed, parse auralSpellings true arguments = .ok parsed ∧ parsed.others = ["unison"] ∧
      transpositionOf parsed = .ok (.semitones 0) ∧
      unitLengthOf parsed = .ok (.number (.real .nan))) ∧
    outcome.fault.map Fault.message = some "cannot convert float NaN to integer" ∧
    ∀ (ended : Outcome) notes, outcome = ended.unstyled →
      ¬ ended.Ends (fun _ => none) "x.mid" notes := by
  intro arguments outcome
  have escapes : outcome.fault.map Fault.message = some "cannot convert float NaN to integer" := by
    unfold outcome arguments
    decide +kernel
  refine ⟨⟨⟨[("--output", .text "x.mid"), ("--note-duration", .text "nan")], ["unison"]⟩,
    rfl, rfl, rfl, rfl⟩, escapes, ?_⟩
  intro ended notes same ends
  have settled : outcome.fault = none := (congrArg Outcome.fault same).trans ends.settled
  rw [settled] at escapes
  cases escapes

end Solfege.CommandLine
