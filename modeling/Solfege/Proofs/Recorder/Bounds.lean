import Solfege.Proofs.Recorder.Beside

/-! Recordings at the reference tempo whose times may be any reals. They are written exactly when
the notes in range have finite places and lengths in ticks. -/
namespace Solfege

/-- What goes wrong with a real that is no finite number when it is cut off. -/
inductive Fault.Endless : Fault → Prop
  | nan : Endless .wholeOfNaN
  | infinity : Endless .wholeOfInfinity

theorem Binary64.truncated_cases (x : Binary64) :
    (x.isFinite = true ∧ ∃ n, x.truncated = .ok n) ∨
    (x.isFinite = false ∧ ∃ fault, x.truncated = .error fault ∧ fault.Endless) := by
  cases x with
  | nan => exact .inr ⟨rfl, _, rfl, .nan⟩
  | infinite negative => exact .inr ⟨rfl, _, rfl, .infinity⟩
  | finite negative units representable => exact .inl ⟨rfl, _, rfl⟩

namespace Recorder
variable {note : RecordedNote} {notes : List RecordedNote} {origin : Binary64}

/-- Seconds in ticks at the reference tempo, before they are cut off. -/
def ticks (seconds : Binary64) : Binary64 := seconds * 2 * 960

/-- A note whose times are reals and whose loudness is on the scale. -/
structure Measured (note : RecordedNote) : Prop where
  start : ∃ x, note.start = .real x
  duration : ∃ x, note.duration = .real x
  volume : ∃ v, volume note.velocity = .ok v

/-- A note with a finite place and a finite length in ticks, the recording starting at some time. -/
structure Bounded (origin : Binary64) (note : RecordedNote) : Prop where
  start : ∀ x, note.start = .real x → (ticks (x - origin)).isFinite
  duration : ∀ x, note.duration = .real x → (ticks x).isFinite

/-- A recording whose notes in range all have finite places and lengths in ticks. -/
def Fitting (notes : List RecordedNote) : Prop :=
  ∃ origin, earliest notes = .real origin ∧
    ∀ note ∈ notes, inRange note = true → Bounded origin note

theorem fitting_nil : Fitting [] := ⟨0, rfl, by simp⟩

theorem least_mem (x : Number) (rest : List Number) : Number.least x rest ∈ x :: rest := by
  induction rest generalizing x with
  | nil => exact List.mem_cons_self
  | cons y rest ih =>
    rw [Number.least, List.foldl_cons]
    split
    · exact List.mem_cons_of_mem x (ih y)
    · rcases List.mem_cons.mp (ih x) with first | later
      · exact List.mem_cons.mpr (.inl first)
      · exact List.mem_cons_of_mem x (List.mem_cons_of_mem y later)

theorem earliest_mem (some : notes ≠ []) : ∃ note ∈ notes, note.start = earliest notes := by
  cases notes with
  | nil => exact absurd rfl some
  | cons first rest =>
    have among : earliest (first :: rest) ∈ (first :: rest).map (·.start) := least_mem ..
    exact List.mem_map.mp among

theorem earliest_measured (measured : ∀ note ∈ notes, Measured note) :
    ∃ origin, earliest notes = .real origin ∧
      (notes = [] ∨ ∃ note ∈ notes, note.start = .real origin) := by
  rcases eq_or_ne notes [] with rfl | some
  · exact ⟨0, rfl, .inl rfl⟩
  · obtain ⟨note, here, same⟩ := earliest_mem some
    obtain ⟨origin, start⟩ := (measured note here).start
    exact ⟨origin, same.symm.trans start, .inr ⟨note, here, start⟩⟩

theorem beats_reference (x : Binary64) : beats (.real x) Duration.referenceTempo = .ok (x * 2) := by
  have rate : (120 : Binary64) / 60 = 2 := by decide +kernel
  rw [← rate]
  rfl

theorem ticksPerBeat_eq : Binary64.ofInt Midi.ticksPerBeat = 960 := by decide +kernel

theorem onGrid_real {number v : Int} {start duration : Binary64} {velocity : Number}
    (loud : volume velocity = .ok v) (origin : Binary64) :
    onGrid Duration.referenceTempo (.real origin) ⟨number, .real start, .real duration, velocity⟩ =
      (ticks (start - origin)).truncated >>= fun tick =>
        (ticks duration).truncated >>= fun length =>
          .ok ⟨UInt8.ofNat number.toNat, UInt8.ofNat v.toNat, tick, length⟩ := by
  have placed : placement Duration.referenceTempo (.real origin) (UInt8.ofNat number.toNat)
      ⟨number, .real start, .real duration, velocity⟩ =
        .ok ⟨UInt8.ofNat number.toNat, (start - origin) * 2, duration * 2, v⟩ :=
    bind_eq_ok.mpr ⟨.real (start - origin), rfl, bind_eq_ok.mpr ⟨_, beats_reference _,
      bind_eq_ok.mpr ⟨_, beats_reference _, bind_eq_ok.mpr ⟨_, loud, rfl⟩⟩⟩⟩
  rw [onGrid, placed, ticks, ticks, ← ticksPerBeat_eq]
  rfl

theorem onGrid_cases (measured : Measured note) (origin : Binary64) :
    (Bounded origin note ∧
      ∃ placed, onGrid Duration.referenceTempo (.real origin) note = .ok placed) ∨
    (¬ Bounded origin note ∧ ∃ fault,
      onGrid Duration.referenceTempo (.real origin) note = .error fault ∧ fault.Endless) := by
  obtain ⟨number, _, _, velocity⟩ := note
  obtain ⟨⟨start, rfl⟩, ⟨duration, rfl⟩, ⟨v, loud⟩⟩ := measured
  rw [onGrid_real loud]
  rcases (ticks (start - origin)).truncated_cases with
    ⟨place, tick, cut⟩ | ⟨endless, fault, cut, known⟩
  · rw [cut]
    -- The place is cut off first, so a note without either fails for its place.
    rcases (ticks duration).truncated_cases with
      ⟨long, length, cut⟩ | ⟨endless, fault, cut, known⟩
    · rw [cut]
      refine .inl ⟨⟨?_, ?_⟩, _, rfl⟩
      · rintro x ⟨⟩
        exact place
      · rintro x ⟨⟩
        exact long
    · rw [cut]
      refine .inr ⟨fun bounded => ?_, fault, rfl, known⟩
      exact Bool.false_ne_true (endless.symm.trans (bounded.duration _ rfl))
  · rw [cut]
    refine .inr ⟨fun bounded => ?_, fault, rfl, known⟩
    exact Bool.false_ne_true (endless.symm.trans (bounded.start _ rfl))

theorem microseconds_reference : microseconds Duration.referenceTempo = .ok 500000 :=
  eq_ok_of_toOption (by decide +kernel)

/-- A recording is written if all notes in range are placed, and fails where one of them does. -/
theorem bytes_eq {recorder : Recorder} {beat : Int}
    (fits : microseconds recorder.tempo = .ok beat) :
    recorder.bytes.2 = (recorder.notes.filter inRange).mapM
      (onGrid recorder.tempo (earliest recorder.notes)) >>= fun placed =>
        Midi.fileBytes beat (Midi.noteTrack trackName.toUTF8.toList
          (UInt8.ofNat recorder.program.toNat) placed) := by
  rw [← place_eq, bytes, draft, fits]
  dsimp only
  cases (place recorder.tempo (earliest recorder.notes) recorder.notes).2 <;> rfl

theorem bytes_cases (measured : ∀ note ∈ notes, Measured note) :
    let bytes := (⟨Duration.referenceTempo, 0, 0, notes⟩ : Recorder).bytes.2
    (Fitting notes ∧ ∃ written, bytes = .ok written) ∨
      (¬ Fitting notes ∧ ∃ fault, bytes = .error fault ∧ fault.Endless) := by
  intro bytes
  obtain ⟨origin, begins, _⟩ := earliest_measured measured
  have whole : bytes = _ := bytes_eq microseconds_reference
  dsimp only at whole
  rw [begins] at whole
  cases outcome : (notes.filter inRange).mapM (onGrid Duration.referenceTempo (.real origin)) with
  | ok placed =>
    left
    refine ⟨⟨origin, begins, fun note here range => ?_⟩, ?_⟩
    · rcases onGrid_cases (measured note here) origin with ⟨bounded, _⟩ | ⟨_, fault, failed, _⟩
      · exact bounded
      · obtain ⟨other, failed⟩ := mapM_error (List.mem_filter.mpr ⟨here, range⟩) failed
        rw [failed] at outcome
        cases outcome
    · obtain ⟨written, file⟩ := fileBytes_ok (by decide : 500000 < 0x100000000)
        (Midi.noteTrack trackName.toUTF8.toList (UInt8.ofNat 0) placed)
      exact ⟨written, (whole.trans (congrArg (· >>= _) outcome)).trans file⟩
  | error fault =>
    right
    obtain ⟨note, member, failed⟩ := exists_of_mapM_error outcome
    obtain ⟨here, range⟩ := List.mem_filter.mp member
    rcases onGrid_cases (measured note here) origin with
      ⟨_, _, placed⟩ | ⟨unbounded, other, same, known⟩
    · rw [failed] at placed
      cases placed
    · rw [failed] at same
      cases same
      refine ⟨?_, fault, whole.trans (congrArg (· >>= _) outcome), known⟩
      rintro ⟨begin, same, bounded⟩
      obtain rfl := Number.real.inj (begins.symm.trans same)
      exact unbounded (bounded note here range)

end Recorder
end Solfege
