import Solfege.Proofs.Playback.Act
import Solfege.Proofs.Recorder.Bounds
import Solfege.Proofs.Recorder.Loudness

/-! What a recording hands over when it is written: a call for every note in range, and a warning
for every other, both in order. The recording stays as it is, so it hands over the same again. -/
namespace Solfege.Recorder
variable {tempo origin : Number} {rate : Binary64} {note : RecordedNote} {recorder : Recorder}
  {recorded : List RecordedNote} {call : Placement} {calls : List Placement} {stage : Stage}

/-- A note of which no difference and no product is too large, the recording starting at `origin`
and `rate` beats going to the minute. -/
structure Fits (rate : Binary64) (origin : Number) (note : RecordedNote) : Prop where
  time : ∃ gap seconds, note.start.sub origin = .ok gap ∧ gap.toReal = .ok seconds ∧
    (seconds * (rate / 60) * 960).isFinite = true
  duration : ∃ seconds, note.duration.toReal = .ok seconds ∧
    (seconds * (rate / 60) * 960).isFinite = true
  velocity : ∀ x, note.velocity = .real x → (x * 127).isFinite = true

/-- A note and the call that it is handed over with. -/
structure HandedOver (rate : Binary64) (origin : Number) (note : RecordedNote) (call : Placement) :
    Prop where
  pitch : (call.pitch.toNat : Int) = note.number
  time : ∃ gap seconds, note.start.sub origin = .ok gap ∧ gap.toReal = .ok seconds ∧
    call.time = seconds * (rate / 60)
  notEarly : 0 ≤ call.time
  duration : ∃ seconds, note.duration.toReal = .ok seconds ∧ call.duration = seconds * (rate / 60)
  finite : call.time.isFinite = true ∧ call.duration.isFinite = true
  volume : volume note.velocity = .ok call.volume
  onScale : 1 ≤ call.volume ∧ call.volume ≤ 127
  taken : ∃ placed, ticked call = .ok placed

/-- The numbers of the notes that are not in range. -/
def outOfRange (recorded : List RecordedNote) : List Int :=
  (recorded.filter fun note => !inRange note).map (·.number)

/-- The file that comes of calls. -/
def fileOf (recorder : Recorder) (calls : List Placement) : Except Fault (List UInt8) := do
  let beat ← microseconds recorder.tempo
  let placed ← calls.mapM ticked
  Midi.fileBytes beat (Midi.noteTrack trackName.toUTF8.toList
    (UInt8.ofNat recorder.program.toNat) placed)

/-- A stage on which notes have been warned of. -/
def warned (stage : Stage) (numbers : List Int) : Stage :=
  { stage with journal := stage.journal ++ numbers.map Happening.skipped }

/-! Where a recording starts. -/

theorem earliest_finite (finite : ∀ note ∈ recorded, note.start.isFinite = true) :
    (earliest recorded).isFinite = true := by
  rcases eq_or_ne recorded [] with rfl | some
  · rfl
  · obtain ⟨note, here, same⟩ := earliest_mem some
    rw [← same]
    exact finite note here

theorem earliest_le (finite : ∀ note ∈ recorded, note.start.isFinite = true) :
    ∀ note ∈ recorded, note.start.lt (earliest recorded) = false := by
  intro note here
  apply (Number.units_le_iff (earliest_finite finite) (finite note here)).mpr
  cases recorded with
  | nil => cases here
  | cons first rest =>
    have starts : ∀ start ∈ (first :: rest).map (·.start), start.isFinite = true := by
      simpa using finite
    exact Number.least_units_le starts _ (List.mem_map_of_mem here)

/-! Calls. -/

theorem beats_ok {length : Number} {seconds : Binary64} (real : tempo.toReal = .ok rate)
    (lapse : length.toReal = .ok seconds) :
    beats length tempo = .ok (seconds * (rate / 60)) :=
  bind_eq_ok.mpr ⟨rate, real, bind_eq_ok.mpr ⟨seconds, lapse, rfl⟩⟩

theorem ticked_ok (time : (call.time * 960).isFinite = true)
    (duration : (call.duration * 960).isFinite = true) : ∃ placed, ticked call = .ok placed := by
  rw [← ticksPerBeat_eq] at time duration
  rcases Binary64.truncated_cases (call.time * Binary64.ofInt Midi.ticksPerBeat) with
    ⟨_, tick, start⟩ | ⟨endless, _⟩
  · rcases Binary64.truncated_cases (call.duration * Binary64.ofInt Midi.ticksPerBeat) with
      ⟨_, length, long⟩ | ⟨endless, _⟩
    · exact ⟨_, bind_eq_ok.mpr ⟨tick, start, bind_eq_ok.mpr ⟨length, long, rfl⟩⟩⟩
    · exact absurd (endless.symm.trans duration) Bool.false_ne_true
  · exact absurd (endless.symm.trans time) Bool.false_ne_true

/-- A note in range that fits is handed over. -/
theorem placement_handed (positive : Number.lt 0 tempo = true) (real : tempo.toReal = .ok rate)
    (finite : note.start.isFinite = true) (known : origin.isFinite = true)
    (late : note.start.lt origin = false) (range : inRange note = true)
    (fits : Fits rate origin note) :
    ∃ call, placement tempo origin (UInt8.ofNat note.number.toNat) note = .ok call ∧
      HandedOver rate origin note call := by
  obtain ⟨⟨gap, lapse, apart, time, near⟩, ⟨length, long, short⟩, loud⟩ := fits
  obtain ⟨volume, loud⟩ := volume_ok loud
  have made : placement tempo origin (UInt8.ofNat note.number.toNat) note =
      .ok ⟨UInt8.ofNat note.number.toNat, lapse * (rate / 60), length * (rate / 60), volume⟩ :=
    bind_eq_ok.mpr ⟨gap, apart, bind_eq_ok.mpr ⟨_, beats_ok real time, bind_eq_ok.mpr
      ⟨_, beats_ok real long, bind_eq_ok.mpr ⟨_, loud, rfl⟩⟩⟩⟩
  have place := (Binary64.isFinite_of_mul near).1
  refine ⟨_, made, ?_, ⟨gap, lapse, apart, time, rfl⟩, ?_, ⟨length, long, rfl⟩,
    ⟨place, (Binary64.isFinite_of_mul short).1⟩, loud, volume_bounds loud, ticked_ok near short⟩
  · have bounds := of_decide_eq_true range
    simp only [UInt8.toNat_ofNat']
    omega
  · obtain ⟨r, rank, later, _⟩ := Number.sub_rank finite known apart time
    apply Binary64.nonneg_of_not_neg place
    apply Binary64.mul_not_neg
    · exact Binary64.not_neg_of_rank rank (later late)
    · apply Binary64.div_not_neg
      · exact Number.toReal_not_neg (Number.not_neg_of_pos positive) real
      · decide +kernel

/-- A note with which the recording starts is handed over for the time zero. -/
theorem HandedOver.time_zero (handed : HandedOver rate origin note call)
    (finite : note.start.isFinite = true) (known : origin.isFinite = true)
    (late : note.start.lt origin = false) (first : origin.lt note.start = false) :
    call.time.compare? 0 = some .eq := by
  obtain ⟨gap, lapse, apart, real, time⟩ := handed.time
  obtain ⟨r, rank, later, earlier⟩ := Number.sub_rank finite known apart real
  obtain rfl : r = 0 := Int.le_antisymm (earlier first) (later late)
  have near := handed.finite.1
  rw [time] at near ⊢
  exact Binary64.compare_zero (Binary64.rank_mul_zero near rank)

/-! Warnings. -/

/-- Where all others are placed, every note out of range has been warned of. -/
theorem place_skipped {placed : List Midi.Note}
    (made : (place tempo origin recorded).2 = .ok placed) :
    (place tempo origin recorded).1 = outOfRange recorded := by
  induction recorded generalizing placed with
  | nil => rfl
  | cons note rest ih =>
    simp only [place] at made ⊢
    by_cases range : 0 ≤ note.number ∧ note.number ≤ 127
    · have within : inRange note = true := decide_eq_true range
      have others : outOfRange (note :: rest) = outOfRange rest := by
        simp [outOfRange, within]
      rw [if_pos range] at made ⊢
      rw [others]
      cases first : placement tempo origin (UInt8.ofNat note.number.toNat) note >>= ticked with
      | error fault => simp [first] at made
      | ok here =>
        cases later : (place tempo origin rest).2 with
        | error fault => simp [first, later, Except.map] at made
        | ok placed => exact ih later
    · have beyond : inRange note = false := decide_eq_false range
      have others : outOfRange (note :: rest) = note.number :: outOfRange rest := by
        simp [outOfRange, beyond]
      rw [if_neg range] at made ⊢
      rw [others]
      exact congrArg (note.number :: ·) (ih made)

/-- The file of a recording is that of its calls, and every other note is warned of. -/
theorem bytes_handed {beat : Int} (fits : microseconds recorder.tempo = .ok beat)
    (made : (recorder.notes.filter inRange).mapM (fun note => placement recorder.tempo
      (earliest recorder.notes) (UInt8.ofNat note.number.toNat) note) = .ok calls)
    (taken : ∀ call ∈ calls, ∃ placed, ticked call = .ok placed) :
    recorder.bytes = (outOfRange recorder.notes, fileOf recorder calls) := by
  have grid : (recorder.notes.filter inRange).mapM
      (onGrid recorder.tempo (earliest recorder.notes)) = calls.mapM ticked := mapM_bind made
  have skipped : recorder.bytes.1 = outOfRange recorder.notes := by
    cases outcome : calls.mapM ticked with
    | ok placed =>
      simp only [bytes, draft, fits]
      apply place_skipped
      rw [place_eq, grid, outcome]
    | error fault =>
      obtain ⟨call, here, failed⟩ := exists_of_mapM_error outcome
      obtain ⟨placed, done⟩ := taken call here
      cases failed.symm.trans done
  have file : recorder.bytes.2 = fileOf recorder calls := by
    rw [bytes_eq fits, grid, fileOf, fits]
    rfl
  exact Prod.ext skipped file

theorem write_apply {index : Nat} (here : stage.engines[index]? = some recorder) :
    Act.write index stage = (recorder.bytes.2, warned stage recorder.bytes.1) := by
  simp only [Act.write, Act.bind_apply, Act.engine_apply, here]
  rfl

/-- A recording that starts with the earliest of its notes, skipped ones included, hands over every
note in range, one by one and in order. Its calls are on the scale of the format and no louder for a
lesser velocity. They come at no time before zero, and at zero for a note that none is before. There
is a warning for every other note. Warnings are all that writing leaves behind, so it hands over the
same again. -/
theorem write_hands_over {beat : Int} (positive : Number.lt 0 recorder.tempo = true)
    (real : recorder.tempo.toReal = .ok rate) (tempo : microseconds recorder.tempo = .ok beat)
    (finite : ∀ note ∈ recorder.notes, note.start.isFinite = true)
    (fits : ∀ note ∈ recorder.notes, inRange note = true →
      Fits rate (earliest recorder.notes) note) :
    let origin := earliest recorder.notes
    let playable := recorder.notes.filter inRange
    (∀ note ∈ recorder.notes, note.start.lt origin = false) ∧
    (recorder.notes ≠ [] → ∃ note ∈ recorder.notes, note.start = origin) ∧
    ∃ calls, List.Forall₂ (HandedOver rate origin) playable calls ∧
      (∀ first ∈ playable.zip calls, ∀ second ∈ playable.zip calls,
        second.1.velocity.lt first.1.velocity = false → first.2.volume ≤ second.2.volume) ∧
      (∀ pair ∈ playable.zip calls,
        (∀ note ∈ recorder.notes, note.start.lt pair.1.start = false) →
          pair.2.time.compare? 0 = some .eq) ∧
      ∀ (index : Nat) (stage : Stage), stage.engines[index]? = some recorder →
        let later := warned stage (outOfRange recorder.notes)
        Act.write index stage = (fileOf recorder calls, later) ∧
        Act.write index later =
          (fileOf recorder calls, warned later (outOfRange recorder.notes)) := by
  intro origin playable
  have known := earliest_finite finite
  have late := earliest_le finite
  have each : ∀ note ∈ playable, ∃ call,
      placement recorder.tempo origin (UInt8.ofNat note.number.toNat) note = .ok call ∧
        HandedOver rate origin note call := by
    intro note member
    obtain ⟨here, range⟩ := List.mem_filter.mp member
    exact placement_handed positive real (finite note here) known (late note here) range
      (fits note here range)
  obtain ⟨calls, made, pairs⟩ := mapM_of_exists each
  have handed : ∀ pair ∈ playable.zip calls, HandedOver rate origin pair.1 pair.2 :=
    fun _ member => (List.forall₂_iff_zip.mp pairs).2 member
  have taken : ∀ call ∈ calls, ∃ placed, ticked call = .ok placed := by
    intro call member
    obtain ⟨note, _, handed⟩ := exists_of_mem_right pairs member
    exact handed.taken
  have whole := bytes_handed tempo made taken
  refine ⟨late, earliest_mem, calls, pairs, ?_, ?_, ?_⟩
  · intro first here second there atLeast
    exact volume_mono (handed first here).volume (handed second there).volume atLeast
  · intro pair member first
    have here := List.mem_of_mem_filter (List.of_mem_zip member).1
    apply (handed pair member).time_zero (finite _ here) known (late _ here)
    -- The recording starts with one of its notes, and none is before this one.
    obtain ⟨start, among, same⟩ := earliest_mem (List.ne_nil_of_mem here)
    have none := first start among
    rwa [same] at none
  · intro index stage here later
    constructor
    · rw [write_apply here, whole]
    · have again : later.engines[index]? = some recorder := here
      rw [write_apply again, whole]

/-- Equal notes are handed over each, and a note that is skipped is the earliest. -/
theorem write_hands_over_twice :
    let note : RecordedNote := ⟨60, .real 0.5, .real 1, .real 0.5⟩
    let recorder : Recorder := ⟨.whole 90, 0, 0, [note, ⟨128, .whole 0, .whole 1, .whole 1⟩, note]⟩
    let stage : Stage := { Stage.initial with engines := [recorder] }
    Number.lt 0 recorder.tempo = true ∧ recorder.tempo.toReal = .ok 90 ∧
      microseconds recorder.tempo = .ok 666666 ∧
      (∀ note ∈ recorder.notes, note.start.isFinite = true) ∧
      (∀ note ∈ recorder.notes, inRange note = true → Fits 90 (earliest recorder.notes) note) ∧
      Act.write 0 stage =
        (fileOf recorder [⟨60, 0.75, 1.5, 64⟩, ⟨60, 0.75, 1.5, 64⟩], warned stage [128]) := by
  intro note recorder stage
  have positive : Number.lt 0 recorder.tempo = true := by decide
  have real : recorder.tempo.toReal = .ok 90 := eq_ok_of_toOption (by decide +kernel)
  have tempo : microseconds recorder.tempo = .ok 666666 := eq_ok_of_toOption (by decide +kernel)
  have origin : earliest recorder.notes = .whole 0 := by decide +kernel
  have apart : note.start.sub (.whole 0) = .ok (.real 0.5) :=
    eq_ok_of_toOption (by decide +kernel)
  have loud : volume note.velocity = .ok 64 := eq_ok_of_toOption (by decide +kernel)
  have time : (0.5 : Binary64) * (90 / 60) = 0.75 := by decide +kernel
  have duration : (1 : Binary64) * (90 / 60) = 1.5 := by decide +kernel
  have finite : ∀ note ∈ recorder.notes, note.start.isFinite = true := by
    simp only [recorder, List.forall_mem_cons]
    exact ⟨by decide +kernel, rfl, by decide +kernel, by simp⟩
  have fits : Fits 90 (earliest recorder.notes) note := by
    rw [origin]
    refine ⟨⟨_, _, apart, rfl, ?_⟩, ⟨_, rfl, ?_⟩, ?_⟩
    · rw [time]
      decide +kernel
    · rw [duration]
      decide +kernel
    · intro x same
      obtain rfl := Number.real.inj same
      decide +kernel
  have allFit : ∀ note ∈ recorder.notes, inRange note = true →
      Fits 90 (earliest recorder.notes) note := by
    simp only [recorder, List.forall_mem_cons]
    exact ⟨fun _ => fits, fun beyond => absurd beyond (by decide), fun _ => fits, by simp⟩
  refine ⟨positive, real, tempo, finite, allFit, ?_⟩
  obtain ⟨_, _, calls, pairs, _, _, written⟩ := write_hands_over positive real tempo finite allFit
  have handed {call : Placement} (handed : HandedOver 90 (earliest recorder.notes) note call) :
      call = ⟨60, 0.75, 1.5, 64⟩ := by
    obtain ⟨number, start, length, loudness⟩ := call
    obtain ⟨pitch, ⟨gap, lapse, apart', real, rfl⟩, _, ⟨length, long, rfl⟩, _, loud', _, _⟩ :=
      handed
    rw [origin] at apart'
    obtain rfl := Except.ok.inj (apart.symm.trans apart')
    obtain rfl := Except.ok.inj real
    obtain rfl := Except.ok.inj long
    obtain rfl := Except.ok.inj (loud.symm.trans loud')
    obtain rfl : number = 60 := UInt8.toNat_inj.mp (Int.ofNat.inj pitch)
    rw [time, duration]
  have kept : recorder.notes.filter inRange = [note, note] := rfl
  rw [kept] at pairs
  obtain _ | ⟨first, _ | ⟨second, _ | _⟩⟩ := pairs
  obtain rfl := handed first
  obtain rfl := handed second
  exact (written 0 stage rfl).1

/-- At a tempo with too many microseconds to a beat no note is warned of or handed over, although
all of them fit. -/
theorem write_hands_nothing_over :
    let recorder : Recorder := ⟨.real 1e-301, 0, 0,
      [⟨132, .real 0, .real 1, .real 1⟩, ⟨60, .real 0, .real 1, .real 1⟩]⟩
    let stage : Stage := { Stage.initial with engines := [recorder] }
    Number.lt 0 recorder.tempo = true ∧ recorder.tempo.toReal = .ok 1e-301 ∧
      (∀ note ∈ recorder.notes, note.start.isFinite = true) ∧
      (∀ note ∈ recorder.notes, inRange note = true →
        Fits 1e-301 (earliest recorder.notes) note) ∧
      outOfRange recorder.notes = [132] ∧ Act.write 0 stage = (.error .wholeOfInfinity, stage) := by
  intro recorder stage
  have origin : earliest recorder.notes = .real 0 := by decide +kernel
  have zero : (0 : Binary64) - 0 = 0 := by decide +kernel
  have fits : Fits 1e-301 (earliest recorder.notes) ⟨60, .real 0, .real 1, .real 1⟩ := by
    rw [origin]
    refine ⟨⟨.real (0 - 0), 0 - 0, rfl, rfl, ?_⟩, ⟨1, rfl, ?_⟩, ?_⟩
    · rw [zero]
      decide +kernel
    · decide +kernel
    · intro x same
      obtain rfl := Number.real.inj same
      decide +kernel
  have quotient : Number.dividing 60000000 recorder.tempo = .ok (.infinite false) :=
    eq_ok_of_toOption (by decide +kernel)
  have refused : microseconds recorder.tempo = .error .wholeOfInfinity := by
    rw [microseconds, quotient]
    rfl
  refine ⟨by decide +kernel, rfl, ?_, ?_, rfl, ?_⟩
  · simp only [recorder, List.forall_mem_cons]
    exact ⟨by decide +kernel, by decide +kernel, by simp⟩
  · simp only [recorder, List.forall_mem_cons]
    exact ⟨fun beyond => absurd beyond (by decide), fun _ => fits, by simp⟩
  · have unwritten : recorder.bytes = ([], .error .wholeOfInfinity) := by
      simp only [bytes, draft, refused]
      rfl
    have here : stage.engines[0]? = some recorder := rfl
    rw [write_apply here, unwritten]
    rfl

end Solfege.Recorder
