import Solfege.Proofs.Recorder.Ticks
import Solfege.Proofs.Recorder.Writing

/-! The same music written at two tempos. Its notes are the same and stand beside each other: starts
differ by what rounding makes of them, and a length loses at most one tick. -/
namespace Solfege

theorem Number.least_first {x : Number} {rest : List Number}
    (none : ∀ y ∈ rest, y.lt x = false) : Number.least x rest = x := by
  induction rest with
  | nil => rfl
  | cons y rest ih =>
    obtain ⟨here, later⟩ := List.forall_mem_cons.mp none
    have keep : Number.least x (y :: rest) = Number.least (if y.lt x then y else x) rest := rfl
    rw [keep, here]
    exact ih later

namespace Recorder
open Binary64
variable {n : ℕ}

/-- A note of music that is laid out and has no tempo yet: its number, its time at the reference
tempo, and its length in quarters and in ticks. -/
structure Cue where
  number : Int
  time : Binary64
  quarters : ℚ
  ticks : ℕ
  moderate : Moderate time
  grid : OnTicks quarters ticks

namespace Cue

/-- The note that is recorded at a tempo. -/
def note (n : ℕ) (cue : Cue) : RecordedNote :=
  ⟨cue.number, .real (cue.time * (120 / ofInt n)),
    .real (ofRatio cue.quarters.num cue.quarters.den * (60 / ofInt n)), .real 1⟩

theorem inRange_note (n : ℕ) (cue : Cue) :
    inRange (cue.note n) = decide (0 ≤ cue.number ∧ cue.number ≤ 127) := rfl

theorem start_near (rate : Rate n) (cue : Cue) :
    ∃ q, Near 2 (cue.time * (120 / ofInt n)) q := by
  obtain ⟨q, near, size⟩ := cue.moderate.near
  exact ⟨_, stretched_near rate near (by decide) size near_literal.1 (by norm_num) (by norm_num)⟩

theorem length_near (rate : Rate n) (cue : Cue) :
    ∃ q, Near 3 (ofRatio cue.quarters.num cue.quarters.den * (60 / ofInt n)) q :=
  ⟨_, stretched_near rate cue.grid.near (by decide) cue.grid.moderateSize near_literal.2.1
    (by norm_num) (by norm_num)⟩

end Cue

theorem ofWhole_rate (rate : Rate n) : ofWhole n = .ok (ofInt n) := by
  rw [ofWhole, if_pos rate.near.isFinite]
  rfl

theorem beats_rate (rate : Rate n) (x : Binary64) :
    beats (.real x) (.whole n) = .ok (x * (ofInt n / 60)) :=
  bind_eq_ok.mpr ⟨ofInt n, ofWhole_rate rate, rfl⟩

theorem volume_one : volume (.real 1) = .ok 127 := eq_ok_of_toOption (by decide +kernel)

theorem onGrid_cue (rate : Rate n) (cue : Cue) {tick length : Int}
    (start : tickOf (inBeats cue.time 120 (ofInt n)) = .ok tick)
    (long : tickOf (inBeats (ofRatio cue.quarters.num cue.quarters.den) 60 (ofInt n)) =
      .ok length) :
    onGrid (.whole n) (.real 0) (cue.note n) =
      .ok ⟨UInt8.ofNat cue.number.toNat, 127, tick, length⟩ := by
  have apart (x : Binary64) : (Number.real x).sub (.real 0) = .ok (.real x) :=
    congrArg (fun gap => Except.ok (Number.real gap)) (Binary64.sub_zero x)
  have placed : placement (.whole n) (.real 0) (UInt8.ofNat cue.number.toNat) (cue.note n) =
      .ok ⟨UInt8.ofNat cue.number.toNat, inBeats cue.time 120 (ofInt n),
        inBeats (ofRatio cue.quarters.num cue.quarters.den) 60 (ofInt n), 127⟩ :=
    bind_eq_ok.mpr ⟨_, apart _, bind_eq_ok.mpr ⟨_, beats_rate rate _, bind_eq_ok.mpr
      ⟨_, beats_rate rate _, bind_eq_ok.mpr ⟨_, volume_one, rfl⟩⟩⟩⟩
  exact bind_eq_ok.mpr ⟨_, placed, bind_eq_ok.mpr ⟨_, start, bind_eq_ok.mpr ⟨_, long, rfl⟩⟩⟩

/-- One note stands beside another that is the same at the reference tempo. -/
structure Beside (note reference : Midi.Note) : Prop where
  pitch : note.pitch = reference.pitch
  volume : note.volume = reference.volume
  start : 2 ^ 50 * |note.tick - reference.tick| ≤ 2 ^ 50 + reference.tick
  length : note.length = reference.length ∨ note.length + 1 = reference.length

theorem Cue.beside (rate : Rate n) (cue : Cue) :
    ∃ placed reference, onGrid (.whole n) (.real 0) (cue.note n) = .ok placed ∧
      onGrid (.whole (120 : ℕ)) (.real 0) (cue.note 120) = .ok reference ∧
      Beside placed reference ∧ (n ∈ evenTempos → placed = reference) := by
  have standard : Rate 120 := ⟨by decide, by decide⟩
  obtain ⟨tick, reference, start, start', close, even⟩ := tickOf_start rate cue.moderate
  obtain ⟨length, long, shorter, whole⟩ := tickOf_length rate cue.grid
  obtain ⟨length', long', _, whole'⟩ := tickOf_length standard cue.grid
  obtain rfl := whole' (by decide)
  refine ⟨_, _, onGrid_cue rate cue start long, onGrid_cue standard cue start' long',
    ⟨rfl, rfl, close, ?_⟩, fun here => ?_⟩
  · dsimp only
    omega
  · rw [even here, whole here]

/-- Note by note, what is written at a tempo stands beside what is written at the reference
tempo. -/
theorem placed_beside (rate : Rate n) (cues : List Cue) :
    ∃ notes references,
      Placed (.whole n) (.real 0) ((cues.map (·.note n)).filter inRange) notes ∧
      Placed (.whole (120 : ℕ)) (.real 0) ((cues.map (·.note 120)).filter inRange) references ∧
      List.Forall₂ Beside notes references ∧ (n ∈ evenTempos → notes = references) := by
  induction cues with
  | nil => exact ⟨[], [], .nil, .nil, .nil, fun _ => rfl⟩
  | cons cue rest ih =>
    obtain ⟨notes, references, placed, placed', beside, even⟩ := ih
    rw [List.map_cons, List.map_cons]
    have same : inRange (cue.note 120) = inRange (cue.note n) := by
      rw [Cue.inRange_note, Cue.inRange_note]
    by_cases range : inRange (cue.note n) = true
    · obtain ⟨note, reference, here, here', close, whole⟩ := cue.beside rate
      rw [List.filter_cons_of_pos range, List.filter_cons_of_pos (same.trans range)]
      exact ⟨_, _, .cons here placed, .cons here' placed', .cons close beside,
        fun h => by rw [whole h, even h]⟩
    · rw [List.filter_cons_of_neg range, List.filter_cons_of_neg (by rwa [same])]
      exact ⟨notes, references, placed, placed', beside, even⟩

/-- The first note of a timeline starts at zero at every tempo, and no other before it. -/
theorem earliest_cues (rate : Rate n) {cues : List Cue}
    (first : ∀ cue ∈ cues.head?, cue.time = 0) : earliest (cues.map (·.note n)) = .real 0 := by
  cases cues with
  | nil => rfl
  | cons cue rest =>
    have origin : cue.time * (120 / ofInt n) = 0 := by
      obtain ⟨units, representable, same, _⟩ :=
        rate.near_over near_literal.1 (by norm_num) (by norm_num)
      rw [first cue rfl, same, zero_eq]
      refine ofQuotient_eq false ?_ representable_zero
      rw [Nat.zero_mul]
      exact roundUnits_zero _
    have start : (cue.note n).start = .real 0 := congrArg Number.real origin
    rw [List.map_cons, earliest, start]
    refine Number.least_first fun y here => ?_
    obtain ⟨note, member, rfl⟩ := List.mem_map.mp here
    obtain ⟨other, there, rfl⟩ := List.mem_map.mp member
    obtain ⟨q, near⟩ := other.start_near rate
    exact decide_eq_false (not_lt_of_le near.nonneg)

/-! Files. -/

theorem microseconds_rate (rate : Rate n) :
    ∃ beat : ℕ, microseconds (.whole n) = .ok beat ∧ beat < 0x100000000 := by
  obtain ⟨least, most⟩ := rate.bounds
  have short : (60000000 / n : ℚ) ≤ 3000000 := by
    rw [div_le_iff₀ rate.pos]
    linarith
  have near : Near 1 (ofRatio (60000000 : ℕ) n) ((60000000 : ℕ) / n) := by
    refine near_ofRatio (Nat.cast_pos.mp rate.pos) (.inr ?_)
    rw [div_mul_eq_mul_div, one_le_div rate.pos, Nat.cast_ofNat]
    constructor <;> linarith
  obtain ⟨v, nonneg, within, whole⟩ := near.truncated
  refine ⟨⌊v⌋₊, bind_eq_ok.mpr ⟨_, ?_, whole⟩, (Nat.floor_lt nonneg).mpr ?_⟩
  · have divisor : (n : Int) ≠ 0 := rate.int_pos.ne'
    exact (if_neg divisor).trans (if_pos near.isFinite)
  · have two := slack_pow_le_two (n := 1) (by decide)
    rw [Nat.cast_ofNat] at within
    calc v ≤ 60000000 / n * slack ^ 1 := within.le
      _ ≤ 3000000 * 2 := mul_le_mul short two (pow_pos slack_pos 1).le (by norm_num)
      _ < (0x100000000 : ℕ) := by norm_num

theorem fileBytes_ok {beat : ℕ} (fits : beat < 0x100000000) (events : List Midi.Timed) :
    ∃ bytes, Midi.fileBytes beat events = .ok bytes := by
  have tempo : ∃ bytes, Midi.tempoEvent beat = .ok bytes := by
    unfold Midi.tempoEvent
    rw [if_neg (by omega), if_neg (by omega)]
    exact ⟨_, rfl⟩
  obtain ⟨bytes, tempo⟩ := tempo
  exact ⟨_, bind_eq_ok.mpr ⟨bytes, tempo, rfl⟩⟩

/-- The first two tracks are of a set length. -/
theorem drop_fileBytes {beat : Int} {events : List Midi.Timed} {bytes : List UInt8}
    (made : Midi.fileBytes beat events = .ok bytes) :
    bytes.drop 45 = Midi.chunk (Midi.eventBytes 0 events) := by
  obtain ⟨tempo, fits, made⟩ := bind_eq_ok.mp made
  cases made
  have seven : tempo.length = 7 := by
    unfold Midi.tempoEvent at fits
    split at fits
    · cases fits
    · split at fits
      · cases fits
      · cases fits
        rfl
  match tempo, seven with
  | [_, _, _, _, _, _, _], _ => rfl

/-- A file is written of the notes of a timeline. -/
theorem bytes_cues (rate : Rate n) {cues : List Cue} {notes : List Midi.Note}
    (first : ∀ cue ∈ cues.head?, cue.time = 0)
    (placed : Placed (.whole n) (.real 0) ((cues.map (·.note n)).filter inRange) notes) :
    ∃ beat bytes, (⟨.whole n, 0, 0, cues.map (·.note n)⟩ : Recorder).bytes.2 = .ok bytes ∧
      Midi.fileBytes beat (Midi.noteTrack trackName.toUTF8.toList 0 notes) = .ok bytes := by
  obtain ⟨beat, fits, small⟩ := microseconds_rate rate
  obtain ⟨bytes, made⟩ := fileBytes_ok small (Midi.noteTrack trackName.toUTF8.toList 0 notes)
  refine ⟨beat, bytes, bind_eq_ok.mpr ⟨_, draft_of_placed fits ?_, made⟩, made⟩
  rw [earliest_cues rate first]
  exact placed

end Recorder
end Solfege
