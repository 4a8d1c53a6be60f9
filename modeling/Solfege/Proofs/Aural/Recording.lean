import Solfege.Proofs.Aural.Performance
import Solfege.Proofs.Binary64.Bounds
import Solfege.Proofs.Recorder.Bounds

/-! The notes of an aural object as a recording. It can be written as long as a unit is not too
long. -/
namespace Solfege.Aural
open Binary64
variable {options : Options} {pitches : List Int} {seconds : Binary64} {note : RecordedNote}

/-- A note of an object starts with a unit, or half a unit late. -/
theorem mem_performance (here : note ∈ performance options pitches seconds) :
    ∃ number index, index ≤ pitches.length ∧
      (note = ⟨number, .real (ofInt index * seconds), .real seconds, .real 1⟩ ∨
        note = ⟨number, .real (ofInt index * seconds + seconds / 2), .real seconds,
          .real 0.65⟩) := by
  rcases List.mem_append.mp here with single | together
  · obtain ⟨index, inside, rfl⟩ := List.mem_mapIdx.mp single
    refine ⟨_, index, ?_, .inl rfl⟩
    split at inside
    · exact Nat.le_of_lt inside
    · cases inside
  · obtain ⟨number, _, rfl⟩ := List.mem_map.mp together
    refine ⟨number, _, ?_, .inr rfl⟩
    split
    · exact Nat.le_refl _
    · exact Nat.zero_le _

theorem performance_measured :
    ∀ note ∈ performance options pitches seconds, Recorder.Measured note := by
  intro note here
  have soft : ∃ v, Recorder.volume (.real 0.65) = .ok v := by
    have real : (Recorder.volume (.real 0.65)).toOption.isSome = true := by decide +kernel
    exact (Option.isSome_iff_exists.mp real).imp fun _ => eq_ok_of_toOption
  obtain ⟨number, index, _, rfl | rfl⟩ := mem_performance here
  · exact ⟨⟨_, rfl⟩, ⟨_, rfl⟩, ⟨_, Recorder.volume_one⟩⟩
  · exact ⟨⟨_, rfl⟩, ⟨_, rfl⟩, soft⟩

/-- The notes of an object of few pitches start soon. -/
theorem performance_below (few : pitches.length ≤ 8) (short : Below 2071 seconds)
    (here : note ∈ performance options pitches seconds) :
    ∃ x, note.start = .real x ∧ Below 2075 x := by
  obtain ⟨number, index, inside, same⟩ := mem_performance here
  have eight : index ≤ 2 ^ 3 := Nat.le_trans inside few
  have place : Below 2074 (ofInt index * seconds) :=
    .mul (.ofInt eight (by decide)) short rfl (by decide)
  rcases same with rfl | rfl
  · exact ⟨_, rfl, place.mono (by decide)⟩
  · exact ⟨_, rfl, .add place ((short.half (by decide)).mono (by decide)) (by decide)⟩

theorem ticks_finite {x : Binary64} (below : Below 2076 x) : (Recorder.ticks x).isFinite := by
  have two : Below (1074 + 1) 2 := .ofInt (by decide : 2 ≤ 2 ^ 1) (by decide)
  have perBeat : Below (1074 + 10) 960 := .ofInt (by decide : 960 ≤ 2 ^ 10) (by decide)
  have beats : Below 2077 (x * 2) := below.mul two rfl (by decide)
  have ticks : Below 2087 (x * 2 * 960) := beats.mul perBeat rfl (by decide)
  exact ticks.isFinite

/-- Where a unit is not too long every note has its place. -/
theorem performance_fits (options : Options) (few : pitches.length ≤ 8)
    (short : Below 2071 seconds) : Recorder.Fitting (performance options pitches seconds) := by
  have measured : ∀ note ∈ performance options pitches seconds, Recorder.Measured note :=
    performance_measured
  -- The recording starts with some note, so its origin is bounded as the starts are.
  obtain ⟨origin, begins, among⟩ := Recorder.earliest_measured measured
  refine ⟨origin, begins, fun note here _ => ⟨fun x start => ?_, fun x duration => ?_⟩⟩
  · have first : Below 2075 origin := by
      rcases among with none | ⟨other, there, begin⟩
      · rw [none] at here
        cases here
      · obtain ⟨y, same, below⟩ := performance_below few short there
        exact Number.real.inj (begin.symm.trans same) ▸ below
    obtain ⟨y, same, below⟩ := performance_below few short here
    obtain rfl := Number.real.inj (start.symm.trans same)
    exact ticks_finite (below.sub first (by decide))
  · obtain ⟨number, index, _, rfl | rfl⟩ := mem_performance here
    · exact Number.real.inj duration ▸ ticks_finite (short.mono (by decide))
    · exact Number.real.inj duration ▸ ticks_finite (short.mono (by decide))

/-- Where a unit has no end no note in range can be written. -/
theorem performance_unfit (endless : seconds.isFinite = false)
    (here : note ∈ performance options pitches seconds) (range : Recorder.inRange note = true) :
    ¬ Recorder.Fitting (performance options pitches seconds) := by
  rintro ⟨origin, _, bounded⟩
  have long : note.duration = .real seconds := by
    obtain ⟨_, _, _, rfl | rfl⟩ := mem_performance here <;> rfl
  have finite := (bounded note here range).duration _ long
  rw [Recorder.ticks] at finite
  rw [(isFinite_of_mul (isFinite_of_mul finite).1).1] at endless
  cases endless

/-! The notes of an object that is asked for. -/

section
variable {phrase : String} {values : Options.Values} {degrees : List Int}

/-- The notes of the object that a phrase names; none where the phrase or the values are refused. -/
def notesOf (phrase : String) (values : Options.Values) (chance : Chance) : List RecordedNote :=
  let notes : Except Fault (List RecordedNote) := do
    let degrees ← (Request.phrase phrase).resolve
    let options ← values.check
    let root ← Pitch.numberOf options.root
    let seconds ← options.unitLength.toSeconds degrees.length
    let shift := (options.transposition.resolve chance).1
    return performance options (degrees.map (root + shift + ·)) seconds
  notes.toOption.getD []

/-- All pitches of the object that a phrase names have names, if there is one. -/
def Spellable (phrase : String) (values : Options.Values) (chance : Chance) : Prop :=
  ∀ degrees options, (Request.phrase phrase).resolve = .ok degrees → values.check = .ok options →
    options.Within degrees (options.transposition.resolve chance).1

theorem spellable_of_within {chance : Chance}
    (resolved : (Request.phrase phrase).resolve = .ok degrees)
    (checked : values.check = .ok options)
    (within : options.Within degrees (options.transposition.resolve chance).1) :
    Spellable phrase values chance := by
  intro others same resolved' checked'
  obtain rfl := Except.ok.inj (resolved.symm.trans resolved')
  obtain rfl := Except.ok.inj (checked.symm.trans checked')
  exact within

theorem resolve_phrase (phrase : String) :
    (∃ degrees, (Request.phrase phrase).resolve = .ok degrees ∧ degrees.length ≤ 8) ∨
    (Request.phrase phrase).resolve = .error (.unknownPhrase phrase) := by
  have few : ∀ object ∈ objects, object.2.length ≤ 8 := by decide
  unfold Request.resolve
  dsimp only
  cases found : find? phrase with
  | none => exact .inr rfl
  | some object =>
    refine .inl ⟨object.2, rfl, few object ?_⟩
    unfold find? at found
    split at found
    · exact List.mem_of_find?_eq_some found
    · exact List.mem_of_find?_eq_some found

/-- A unit length that can be asked for on the command line. -/
def Options.Asked (length : Datum) : Prop := length = .text "auto" ∨ ∃ x, length = .number (.real x)

/-- A unit that lasts as long as is asked for, or some part of a second. -/
def Options.Lasts (length : Datum) (seconds : Binary64) : Prop :=
  length = .text "auto" ∧ seconds ≤ 1 ∨ length = .number (.real seconds)

theorem toSeconds_ok (checked : options.Checked values) (asked : Options.Asked values.unitLength)
    {n : ℕ} (some : 0 < n) (few : n ≤ 8) : ∃ seconds,
      options.unitLength.toSeconds n = .ok seconds ∧ Options.Lasts values.unitLength seconds := by
  have lasts := checked.unitLength
  rcases asked with auto | ⟨x, real⟩
  · rw [auto] at lasts
    have shares : ∀ n ≤ 8, 0 < n →
        ((UnitLength.automatic.toSeconds (n : ℕ)).toOption.any (· ≤ 1)) = true := by
      decide +kernel
    have share := shares n few some
    rw [← Except.ok.inj lasts]
    cases found : UnitLength.automatic.toSeconds n with
    | error fault =>
      rw [found] at share
      cases share
    | ok seconds =>
      rw [found] at share
      exact ⟨seconds, rfl, .inl ⟨auto, of_decide_eq_true share⟩⟩
  · rw [real] at lasts
    unfold Options.unitLengthOf at lasts
    dsimp only at lasts
    split at lasts
    · rw [← Except.ok.inj lasts]
      exact ⟨x, rfl, .inr real⟩
    · cases lasts

theorem notesOf_eq {root : Int} {seconds : Binary64} {chance : Chance}
    (resolved : (Request.phrase phrase).resolve = .ok degrees)
    (checked : values.check = .ok options)
    (named : Pitch.numberOf options.root = .ok root)
    (lasts : options.unitLength.toSeconds degrees.length = .ok seconds) :
    notesOf phrase values chance = performance options
      (degrees.map (root + (options.transposition.resolve chance).1 + ·)) seconds := by
  rw [notesOf, resolved, checked]
  dsimp only [Bind.bind, Except.bind]
  rw [named, lasts]
  rfl

/-- No degrees have no notes, whether or not a unit of them has a length. -/
theorem notesOf_nil {chance : Chance} (resolved : (Request.phrase phrase).resolve = .ok [])
    (checked : values.check = .ok options) : notesOf phrase values chance = [] := by
  obtain ⟨root, named⟩ := (Options.checked_of_check checked).root
  cases lasts : options.unitLength.toSeconds ([] : List Int).length with
  | error fault =>
    rw [notesOf, resolved, checked]
    dsimp only [Bind.bind, Except.bind]
    rw [named, lasts]
    rfl
  | ok seconds =>
    rw [notesOf_eq resolved checked named lasts, performance]
    cases options.arpeggio <;> cases options.chord <;> rfl

end

end Solfege.Aural
