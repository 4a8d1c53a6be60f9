import Solfege.Proofs.Binary64.Rounding
import Solfege.Proofs.Midi.Track
import Solfege.Proofs.Outcome
import Solfege.Recorder.Writing

/-! What a recording becomes in a file: every note in the range of the format is placed once, in
order. Notes with lengths are sustained in the file, and a note without one is not. -/
namespace Solfege

/-! Numbers that are not negative. -/

namespace Binary64
variable {n : Int} {x : Binary64}

theorem ofWhole_not_neg (nonneg : 0 ≤ n) (real : ofWhole n = .ok x) : ¬ x < 0 := by
  rw [ofWhole] at real
  split at real
  · cases real
    intro less
    have negative := (ofQuotient_neg less).1
    simp only [decide_eq_true_eq] at negative
    omega
  · cases real

theorem truncated_nonneg (nonneg : ¬ x < 0) (whole : x.truncated = .ok n) : 0 ≤ n := by
  cases x with
  | nan => cases whole
  | infinite s => cases whole
  | finite s units h =>
    cases whole
    rw [finite_neg] at nonneg
    cases s with
    | false => exact Int.natCast_nonneg _
    | true =>
      have none : units = 0 := by
        simpa using nonneg
      rw [none, Nat.zero_div]
      exact Int.le_refl 0

end Binary64

namespace Number
variable {number : Number} {x : Binary64}

theorem toReal_not_neg (nonneg : number.lt 0 = false) (real : number.toReal = .ok x) : ¬ x < 0 := by
  cases number with
  | flag set => exact Binary64.ofWhole_not_neg (by cases set <;> decide) real
  | whole n =>
    have below : decide (n < 0) = false := nonneg
    exact Binary64.ofWhole_not_neg (Int.not_lt.mp (of_decide_eq_false below)) real
  | real y =>
    cases real
    cases x with
    | nan => exact Binary64.nan_neg
    | infinite s =>
      have positive : s = false := nonneg
      simp [positive]
    | finite s units h =>
      have below : decide (Binary64.signed s units < 0 * Binary64.oneUnits) = false := nonneg
      have place := of_decide_eq_false below
      rw [Binary64.finite_neg]
      rintro ⟨rfl, positive⟩
      rw [Binary64.signed_true, Int.zero_mul] at place
      omega

theorem not_neg_of_pos (positive : Number.lt 0 number = true) : number.lt 0 = false := by
  cases number with
  | flag set => cases set <;> rfl
  | whole n =>
    have above : decide (0 < n) = true := positive
    refine decide_eq_false (p := n < 0) ?_
    have := of_decide_eq_true above
    omega
  | real x =>
    cases x with
    | nan => rfl
    | infinite s =>
      have above : (!s) = true := positive
      exact Bool.not_eq_true' _ ▸ above
    | finite s units h =>
      have above : decide (0 * Binary64.oneUnits < Binary64.signed s units) = true := positive
      refine decide_eq_false (p := Binary64.signed s units < 0 * Binary64.oneUnits) ?_
      have := of_decide_eq_true above
      omega

end Number

namespace Recorder
variable {tempo origin : Number} {note : RecordedNote} {placed : Midi.Note}

/-- Whether a note is in the range of the format. -/
def inRange (note : RecordedNote) : Bool := 0 ≤ note.number ∧ note.number ≤ 127

/-- A recorded note as it stands in a file. -/
def onGrid (tempo origin : Number) (note : RecordedNote) : Except Fault Midi.Note :=
  placement tempo origin (UInt8.ofNat note.number.toNat) note >>= ticked

/-- The notes in range are placed one by one. -/
theorem place_eq (tempo origin : Number) (recorded : List RecordedNote) :
    (place tempo origin recorded).2 = (recorded.filter inRange).mapM (onGrid tempo origin) := by
  induction recorded with
  | nil => rfl
  | cons note rest ih =>
    rw [place]
    by_cases range : 0 ≤ note.number ∧ note.number ≤ 127
    · rw [if_pos range, List.filter_cons_of_pos (by simpa [inRange] using range), List.mapM_cons,
        ← ih]
      rw [← onGrid]
      cases onGrid tempo origin note with
      | error fault => rfl
      | ok placed =>
        obtain ⟨skipped, others⟩ := place tempo origin rest
        cases others <;> rfl
    · rw [if_neg range, List.filter_cons_of_neg (by simpa [inRange] using range), ← ih]

theorem onGrid_ok (made : onGrid tempo origin note = .ok placed) :
    ∃ place, placement tempo origin (UInt8.ofNat note.number.toNat) note = .ok place ∧
      (place.time * Binary64.ofInt Midi.ticksPerBeat).truncated = .ok placed.tick ∧
      (place.duration * Binary64.ofInt Midi.ticksPerBeat).truncated = .ok placed.length ∧
      placed.pitch = place.pitch ∧ placed.volume = UInt8.ofNat place.volume.toNat := by
  obtain ⟨place, here, made⟩ := bind_eq_ok.mp made
  obtain ⟨tick, start, made⟩ := bind_eq_ok.mp made
  obtain ⟨length, long, made⟩ := bind_eq_ok.mp made
  cases made
  exact ⟨place, here, start, long, rfl, rfl⟩

theorem placement_ok {pitch : UInt8} {place : Placement}
    (made : placement tempo origin pitch note = .ok place) :
    ∃ gap, note.start.sub origin = .ok gap ∧ beats gap tempo = .ok place.time ∧
      beats note.duration tempo = .ok place.duration ∧ volume note.velocity = .ok place.volume ∧
      place.pitch = pitch := by
  obtain ⟨gap, apart, made⟩ := bind_eq_ok.mp made
  obtain ⟨time, start, made⟩ := bind_eq_ok.mp made
  obtain ⟨duration, long, made⟩ := bind_eq_ok.mp made
  obtain ⟨volume, loud, made⟩ := bind_eq_ok.mp made
  cases made
  exact ⟨gap, apart, start, long, loud, rfl⟩

theorem onGrid_pitch (made : onGrid tempo origin note = .ok placed) :
    placed.pitch = UInt8.ofNat note.number.toNat := by
  obtain ⟨place, here, _, _, pitch, _⟩ := onGrid_ok made
  obtain ⟨_, _, _, _, _, same⟩ := placement_ok here
  rw [pitch, same]

theorem beats_not_neg {seconds : Number} {x : Binary64} (positive : Number.lt 0 tempo = true)
    (nonneg : seconds.lt 0 = false) (made : beats seconds tempo = .ok x) : ¬ x < 0 := by
  obtain ⟨rate, real, made⟩ := bind_eq_ok.mp made
  obtain ⟨long, real', made⟩ := bind_eq_ok.mp made
  cases made
  exact Binary64.mul_not_neg (Number.toReal_not_neg nonneg real')
    (Binary64.div_not_neg (Number.toReal_not_neg (Number.not_neg_of_pos positive) real)
      (by decide +kernel))

theorem onGrid_length (positive : Number.lt 0 tempo = true) (nonneg : note.duration.lt 0 = false)
    (made : onGrid tempo origin note = .ok placed) : 0 ≤ placed.length := by
  obtain ⟨place, here, _, long, _, _⟩ := onGrid_ok made
  obtain ⟨_, _, _, duration, _, _⟩ := placement_ok here
  have unit : ¬ Binary64.ofInt Midi.ticksPerBeat < 0 := by decide +kernel
  exact Binary64.truncated_nonneg
    (Binary64.mul_not_neg (beats_not_neg positive nonneg duration) unit) long

/-- The notes of a list, all in range, as they stand in a file. -/
abbrev Placed (tempo origin : Number) : List RecordedNote → List Midi.Note → Prop :=
  List.Forall₂ fun note placed => onGrid tempo origin note = .ok placed

/-- How often a pitch was recorded. -/
def timesOf (number : Int) (recorded : List RecordedNote) : Nat :=
  recorded.countP fun note => note.number = number

theorem Placed.countP_pitch {recorded : List RecordedNote} {notes : List Midi.Note}
    (placed : Placed tempo origin recorded notes) (within : ∀ note ∈ recorded, inRange note = true)
    {number : Nat} (range : number ≤ 127) :
    notes.countP (·.pitch == UInt8.ofNat number) = timesOf number recorded := by
  induction placed with
  | nil => rfl
  | @cons note placed rest others made _ ih =>
    have here : (placed.pitch == UInt8.ofNat number) = decide (note.number = number) := by
      have bounds := of_decide_eq_true (within note (by simp))
      rw [onGrid_pitch made, Bool.eq_iff_iff, beq_iff_eq, decide_eq_true_eq, ← UInt8.toNat_inj,
        UInt8.toNat_ofNat', UInt8.toNat_ofNat']
      omega
    rw [List.countP_cons, here, ih fun other there => within other (List.mem_cons_of_mem _ there),
      timesOf, timesOf, List.countP_cons]

theorem Placed.lengths {recorded : List RecordedNote} {notes : List Midi.Note}
    (placed : Placed tempo origin recorded notes) (positive : Number.lt 0 tempo = true)
    (nonneg : ∀ note ∈ recorded, note.duration.lt 0 = false) : ∀ note ∈ notes, 0 ≤ note.length := by
  induction placed with
  | nil => simp
  | cons made _ ih =>
    rw [List.forall_mem_cons] at nonneg ⊢
    exact ⟨onGrid_length positive nonneg.1 made, ih nonneg.2⟩

/-- A recording is written if there is a number of microseconds to a beat and all of its notes in
range are placed. -/
theorem draft_ok {recorder : Recorder} {draft : Draft} (drafted : recorder.draft.2 = .ok draft) :
    ∃ notes, Placed recorder.tempo (earliest recorder.notes) (recorder.notes.filter inRange) notes ∧
      draft.events = Midi.noteTrack trackName.toUTF8.toList
        (UInt8.ofNat recorder.program.toNat) notes := by
  rw [Recorder.draft] at drafted
  split at drafted
  · cases drafted
  · rename_i beat _
    cases outcome : (place recorder.tempo (earliest recorder.notes) recorder.notes).2 with
    | error fault =>
      dsimp only at drafted
      rw [outcome] at drafted
      cases drafted
    | ok notes =>
      dsimp only at drafted
      rw [outcome] at drafted
      cases drafted
      exact ⟨notes, mapM_eq_ok.mp (place_eq _ _ _ ▸ outcome), rfl⟩

theorem draft_of_placed {recorder : Recorder} {beat : Int} {notes : List Midi.Note}
    (fits : microseconds recorder.tempo = .ok beat)
    (placed : Placed recorder.tempo (earliest recorder.notes) (recorder.notes.filter inRange)
      notes) :
    recorder.draft.2 = .ok ⟨beat, Midi.noteTrack trackName.toUTF8.toList
      (UInt8.ofNat recorder.program.toNat) notes⟩ := by
  have outcome : (place recorder.tempo (earliest recorder.notes) recorder.notes).2 = .ok notes :=
    (place_eq _ _ _).trans (mapM_eq_ok.mpr placed)
  rw [Recorder.draft, fits]
  dsimp only
  rw [outcome]
  rfl

/-- Every note in range begins and ends once in the file. It is sustained if it has a length: before
each end there are as many beginnings, unless a note without a length stands where too few others of
its pitch sound on. -/
theorem bytes_sustained {recorder : Recorder} {bytes : List UInt8}
    (written : recorder.bytes.2 = .ok bytes) (positive : Number.lt 0 recorder.tempo = true)
    (nonneg : ∀ note ∈ recorder.notes, note.duration.lt 0 = false) :
    ∃ draft notes, recorder.draft.2 = .ok draft ∧ draft.bytes = .ok bytes ∧
      Placed recorder.tempo (earliest recorder.notes) (recorder.notes.filter inRange) notes ∧
      ∀ number ≤ 127,
        let pitch := UInt8.ofNat number
        Midi.begun pitch draft.events = timesOf number recorder.notes ∧
        Midi.ended pitch draft.events = timesOf number recorder.notes ∧
        (Midi.Sustained pitch draft.events ↔
          ∀ tick, Midi.emptyAt pitch tick notes ≤ Midi.soundingAt pitch tick notes) := by
  obtain ⟨draft, drafted, made⟩ := bind_eq_ok.mp written
  obtain ⟨notes, placed, events⟩ := draft_ok drafted
  refine ⟨draft, notes, drafted, made, placed, fun number range => ?_⟩
  have lengths := placed.lengths positive fun note here => nonneg note (List.mem_of_mem_filter here)
  have count := placed.countP_pitch (fun note here => List.of_mem_filter here) range
  have all : timesOf number (recorder.notes.filter inRange) = timesOf number recorder.notes := by
    rw [timesOf, List.countP_filter]
    refine List.countP_congr fun note _ => ?_
    simp [inRange]
    omega
  rw [all] at count
  dsimp only
  rw [events, Midi.begun_noteTrack, Midi.ended_noteTrack]
  exact ⟨count, count, Midi.sustained_noteTrack _ _ lengths⟩

/-- A note without a length stands within another of its pitch. -/
theorem bytes_sustained_within :
    let recorder : Recorder := ⟨.whole 120, 0, 0,
      [⟨60, .real 0, .real 1, .real 1⟩, ⟨60, .real 0.5, .real 0, .real 1⟩]⟩
    Number.lt 0 recorder.tempo = true ∧
      (∀ note ∈ recorder.notes, note.duration.lt 0 = false) ∧
      ∃ draft bytes, recorder.draft.2 = .ok draft ∧ recorder.bytes.2 = .ok bytes ∧
        Midi.begun 60 draft.events = 2 ∧ Midi.ended 60 draft.events = 2 ∧
        Midi.Sustained 60 draft.events := by
  intro recorder
  have positive : Number.lt 0 recorder.tempo = true := by decide +kernel
  have nonneg : ∀ note ∈ recorder.notes, note.duration.lt 0 = false := by decide +kernel
  refine ⟨positive, nonneg, ?_⟩
  have some : recorder.bytes.2.toOption.isSome = true := by decide +kernel
  cases written : recorder.bytes.2 with
  | error fault =>
    rw [written] at some
    cases some
  | ok bytes =>
    obtain ⟨draft, notes, drafted, _, placed, sounds⟩ := bytes_sustained written positive nonneg
    obtain ⟨begun, ended, sustained⟩ := sounds 60 (by decide)
    refine ⟨draft, bytes, drafted, rfl, begun, ended, sustained.mpr fun tick => ?_⟩
    have grid : ((recorder.notes.filter inRange).mapM
        (onGrid recorder.tempo (earliest recorder.notes))).toOption =
        Option.some [⟨60, 127, 0, 1920⟩, ⟨60, 127, 960, 0⟩] := by
      decide +kernel
    rw [mapM_eq_ok.mpr placed] at grid
    cases grid
    rcases eq_or_ne tick 960 with rfl | other
    · decide
    · have none : Midi.emptyAt 60 tick [⟨60, 127, 0, 1920⟩, ⟨60, 127, 960, 0⟩] = 0 := by
        simp [Midi.emptyAt, other.symm]
      exact Nat.le_trans (Nat.le_of_eq none) (Nat.zero_le _)

/-- A note without a length ends before it begins. -/
theorem bytes_hanging :
    let recorder : Recorder := ⟨.whole 120, 0, 0, [⟨60, .real 0, .real 0, .real 1⟩]⟩
    ∃ draft bytes, recorder.draft.2 = .ok draft ∧ recorder.bytes.2 = .ok bytes ∧
      ¬ Midi.Sustained 60 draft.events := by
  intro recorder
  have track : (recorder.draft.2.toOption.map Draft.events) = some
      [⟨0, .trackName trackName.toUTF8.toList⟩, ⟨0, .program 0⟩, ⟨0, .noteOff 60 127⟩,
        ⟨0, .noteOn 60 127⟩] := by
    decide +kernel
  have some : recorder.bytes.2.toOption.isSome = true := by decide +kernel
  cases written : recorder.bytes.2 with
  | error fault =>
    rw [written] at some
    cases some
  | ok bytes =>
    obtain ⟨draft, drafted, _⟩ := bind_eq_ok.mp written
    have drafted : recorder.draft.2 = .ok draft := drafted
    rw [drafted] at track
    refine ⟨draft, bytes, drafted, rfl, fun sustained => ?_⟩
    have part := sustained 3
    rw [Option.some.inj track] at part
    exact absurd part (by decide)

end Recorder
end Solfege
