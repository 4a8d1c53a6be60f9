import Solfege.Proofs.Aural.Score
import Solfege.Proofs.Binary64.Unsigned
import Solfege.Proofs.Playback.Rendering

/-! The notes of an aural object: its degrees one by one, and then all together. They are what its
score leaves on an engine, whatever the length of a unit. -/
namespace Solfege

/-- A unit that is longer than nothing has no negative sign. -/
theorem Number.unsigned_of_positive {n : Number} {x : Binary64}
    (positive : n.isPositiveOrNaN = true) (real : n.toReal = .ok x) : x.Unsigned := by
  have whole {k : Int} (above : 0 < k) (real : Binary64.ofWhole k = .ok x) : x.Unsigned := by
    unfold Binary64.ofWhole at real
    split at real
    · cases real
      obtain ⟨count, rfl⟩ := Int.eq_ofNat_of_zero_le (Int.le_of_lt above)
      exact .ofInt count
    · cases real
  cases n with
  | flag set =>
    cases set with
    | false => cases positive
    | true => exact whole Int.one_pos real
  | whole k => exact whole (of_decide_eq_true positive) real
  | real y =>
    obtain rfl : y = x := Except.ok.inj real
    cases y with
    | nan => exact .nan
    | infinite negative =>
      cases negative with
      | false => exact .infinite
      | true => cases positive
    | finite negative units representable =>
      have above : 0 * (Binary64.oneUnits : Int) < Binary64.signed negative units :=
        of_decide_eq_true positive
      cases negative with
      | false => exact .finite units representable
      | true =>
        rw [Binary64.signed_true] at above
        omega

theorem Recorder.notesFor_spell {numbers : List Int} (nameable : ∀ n ∈ numbers, Pitch.Nameable n)
    (duration start velocity : Number) :
    (notesFor duration start velocity (numbers.map Pitch.spell)).1 =
      numbers.map fun number => ⟨number, start, duration, velocity⟩ := by
  induction numbers with
  | nil => rfl
  | cons number rest ih =>
    obtain ⟨first, others⟩ := List.forall_mem_cons.mp nameable
    rw [List.map_cons, notesFor, Pitch.numberOf_spell first, List.map_cons, ← ih others]

namespace Aural
variable {options : Options} {numbers : List Int} {seconds : Binary64}

/-- The notes of an object at its pitches, each unit of which lasts some seconds: the pitches one
after the other at full strength, and then all of them together, softer and half a unit late. -/
def performance (options : Options) (numbers : List Int) (seconds : Binary64) :
    List RecordedNote :=
  let singles := if options.arpeggio then numbers else []
  let together := if options.chord then numbers else []
  (singles.mapIdx fun i number =>
      ⟨number, .real (Binary64.ofInt i * seconds), .real seconds, .real 1⟩) ++
    together.map fun number =>
      ⟨number, .real (Binary64.ofInt singles.length * seconds + seconds / 2), .real seconds,
        .real 0.65⟩

/-- A unit is as long as its options say, which is never less than nothing. -/
theorem unsigned_seconds {values : Options.Values} (checked : options.Checked values) {count : ℕ}
    (lasts : options.unitLength.toSeconds count = .ok seconds) : seconds.Unsigned := by
  cases length : options.unitLength with
  | automatic =>
    rw [length] at lasts
    obtain ⟨n, whole, lasts⟩ := bind_eq_ok.mp lasts
    split at lasts
    · cases lasts
    · obtain rfl : 1 / n = seconds := Except.ok.inj lasts
      unfold Binary64.ofWhole at whole
      split at whole
      · obtain rfl : Binary64.ofInt count = n := Except.ok.inj whole
        exact .div .one (.ofInt count)
      · cases whole
  | seconds n =>
    have positive := checked.unitLength
    rw [length] at lasts positive
    exact Number.unsigned_of_positive (Options.unitLengthOf_seconds positive).2 lasts

/-! The units of a score. -/

/-- The unit of a place in a score. -/
def unit (seconds : Binary64) (index : ℕ) (sound : Sound) : Event :=
  ⟨.real (Binary64.ofInt index * seconds), sound, .seconds (.real seconds)⟩

theorem mem_units {sounds : List Sound} {event : Event} (here : event ∈ units seconds sounds) :
    ∃ index, ∃ inside : index < sounds.length, event = unit seconds index sounds[index] := by
  obtain ⟨index, inside, rfl⟩ := List.mem_mapIdx.mp here
  exact ⟨index, inside, rfl⟩

section
variable (unsigned : seconds.Unsigned) (index : ℕ) (sound : Sound)
include unsigned

theorem unit_delay :
    (unit seconds index sound).delay 1 = .ok (Binary64.ofInt index * seconds) := by
  have times : (Binary64.ofInt index * seconds).Unsigned := .mul (.ofInt index) unsigned
  show Except.ok (Binary64.ofInt index * seconds * 1) = _
  rw [times.mul_one]

theorem unit_seconds :
    (unit seconds index sound).seconds Duration.referenceTempo = .ok seconds := by
  have whole {tempo : Number} {scale : Binary64} (scaled : Duration.tempoScale tempo = .ok scale) :
      (unit seconds index sound).seconds tempo = .ok (seconds * scale) := by
    rw [Event.seconds, unit, scaled]
    rfl
  rw [whole Duration.tempoScale_reference, unsigned.mul_one]

theorem unit_comes : (unit seconds index sound).comes 1 = Binary64.ofInt index * seconds := by
  rw [Event.comes, unit_delay unsigned]

theorem unit_lasts : (unit seconds index sound).lasts Duration.referenceTempo = seconds := by
  rw [Event.lasts, unit_seconds unsigned]

theorem unit_timed : (unit seconds index sound).Timed 1 Duration.referenceTempo :=
  ⟨⟨_, unit_delay unsigned index sound⟩, ⟨_, unit_seconds unsigned index sound⟩⟩

theorem unit_notes_single {number : Int} (nameable : Pitch.Nameable number) :
    (unit seconds index (.single (Pitch.spell number))).notes 1 Duration.referenceTempo =
      [⟨number, .real (Binary64.ofInt index * seconds), .real seconds, .real 1⟩] := by
  have times : (Binary64.ofInt index * seconds).Unsigned := .mul (.ofInt index) unsigned
  have onset : (unit seconds index (.single (Pitch.spell number))).onset seconds = 0 := rfl
  have names : (unit seconds index (.single (Pitch.spell number))).sound.names =
    [Pitch.spell number] := rfl
  rw [Event.notes, unit_comes unsigned, unit_lasts unsigned, onset, times.zero_add,
    times.add_zero, names, Recorder.notesFor, Pitch.numberOf_spell nameable]
  rfl

theorem unit_notes_group {numbers : List Int} (nameable : ∀ n ∈ numbers, Pitch.Nameable n) :
    (unit seconds index (.group (numbers.map Pitch.spell))).notes 1 Duration.referenceTempo =
      numbers.map fun number => ⟨number, .real (Binary64.ofInt index * seconds + seconds / 2),
        .real seconds, .real 0.65⟩ := by
  have times : (Binary64.ofInt index * seconds).Unsigned := .mul (.ofInt index) unsigned
  have onset : (unit seconds index (.group (numbers.map Pitch.spell))).onset seconds =
    seconds / 2 := rfl
  have names : (unit seconds index (.group (numbers.map Pitch.spell))).sound.names =
    numbers.map Pitch.spell := rfl
  rw [Event.notes, unit_comes unsigned, unit_lasts unsigned, onset, times.zero_add, names,
    Recorder.notesFor_spell nameable]
  rfl

theorem unit_playable (finite : (Binary64.ofInt index * seconds).isFinite)
    (long : seconds.isFinite)
    (pitches : ∀ name ∈ sound.names, ∃ number, Pitch.numberOf name = .ok number) :
    (unit seconds index sound).Playable 1 Duration.referenceTempo :=
  ⟨⟨_, unit_delay unsigned index sound, finite⟩,
    ⟨_, unit_seconds unsigned index sound, long, unsigned.nonneg long⟩, pitches⟩

end

/-! The score. -/

theorem sounds_length (options : Options) (numbers : List Int) :
    (sounds options numbers).length ≤ numbers.length + 1 := by
  unfold sounds
  cases options.arpeggio <;> cases options.chord <;> simp

theorem units_timed (unsigned : seconds.Unsigned) (sounds : List Sound) :
    ∀ event ∈ units seconds sounds, event.Timed 1 Duration.referenceTempo := by
  intro event here
  obtain ⟨index, _, rfl⟩ := mem_units here
  exact unit_timed unsigned index _

/-- Units that come at finite times can be played. -/
theorem units_playable (unsigned : seconds.Unsigned) (long : seconds.isFinite)
    (nameable : ∀ n ∈ numbers, Pitch.Nameable n)
    (finite : ∀ i ≤ numbers.length, (Binary64.ofInt i * seconds).isFinite) :
    ∀ event ∈ units seconds (sounds options numbers),
      event.Playable 1 Duration.referenceTempo := by
  intro event here
  obtain ⟨index, inside, rfl⟩ := mem_units here
  have size := sounds_length options numbers
  exact unit_playable unsigned index _ (finite index (by omega)) long
    (pitched_sounds nameable options _ (List.getElem_mem inside))

/-- Units come in order. -/
theorem units_ordered {sounds : List Sound} (unsigned : seconds.Unsigned)
    (finite : ∀ i < sounds.length, (Binary64.ofInt i * seconds).isFinite) :
    (units seconds sounds).Pairwise fun a b => a.comes 1 ≤ b.comes 1 := by
  have size : (units seconds sounds).length = sounds.length := List.length_mapIdx
  rw [List.pairwise_iff_getElem]
  intro i j low high before
  have place (k : ℕ) (inside : k < (units seconds sounds).length) :
      (units seconds sounds)[k].comes 1 = Binary64.ofInt k * seconds := by
    have there : k < sounds.length := size ▸ inside
    rw [← unit_comes unsigned k sounds[k]]
    exact congrArg (Event.comes · 1) (List.getElem_mapIdx ..)
  rw [place, place]
  exact Binary64.ofInt_mul_le unsigned (Nat.le_of_lt before) (finite j (size ▸ high))

theorem mapIdx_map {α β γ : Type} (f : ℕ → β → γ) (g : α → β) (l : List α) :
    (l.map g).mapIdx f = l.mapIdx fun i a => f i (g a) := by
  apply List.ext_getElem
  · simp
  · simp

/-- Units each of which leaves one note. -/
theorem flatMap_mapIdx {α β γ : Type} {f : ℕ → α → β} {g : β → List γ} {h : ℕ → α → γ} {l : List α}
    (one : ∀ i, ∀ a ∈ l, g (f i a) = [h i a]) : (l.mapIdx f).flatMap g = l.mapIdx h := by
  rw [List.mapIdx_eq_zipIdx_map, List.flatMap_map, List.mapIdx_eq_zipIdx_map, List.map_eq_flatMap]
  exact List.flatMap_congr fun cue here => one cue.2 cue.1 (List.fst_mem_of_mem_zipIdx here)

/-- The units of a score, first those of single pitches. -/
theorem units_sounds (seconds : Binary64) (options : Options) (numbers : List Int) :
    let singles := if options.arpeggio then numbers else []
    units seconds (sounds options numbers) =
      (singles.mapIdx fun i number => unit seconds i (.single (Pitch.spell number))) ++
        if options.chord then [unit seconds singles.length (.group (numbers.map Pitch.spell))]
        else [] := by
  have single : (List.map Sound.single (numbers.map Pitch.spell)).mapIdx (unit seconds) =
      numbers.mapIdx fun i number => unit seconds i (.single (Pitch.spell number)) := by
    rw [List.map_map, mapIdx_map]
    rfl
  change (sounds options numbers).mapIdx (unit seconds) = _
  unfold sounds
  cases options.arpeggio <;> cases options.chord <;>
    simp [-List.map_map, List.mapIdx_append, single]

/-- The score of an object leaves its notes. -/
theorem notes_units (unsigned : seconds.Unsigned) (options : Options)
    (nameable : ∀ n ∈ numbers, Pitch.Nameable n) :
    Music.notes (units seconds (sounds options numbers)) 1 Duration.referenceTempo =
      performance options numbers seconds := by
  have single {pitches : List Int} (nameable : ∀ n ∈ pitches, Pitch.Nameable n) :
      (pitches.mapIdx fun i number => unit seconds i (.single (Pitch.spell number))).flatMap
        (fun event => event.notes 1 Duration.referenceTempo) =
      pitches.mapIdx fun i number => (⟨number, .real (Binary64.ofInt i * seconds), .real seconds,
        .real 1⟩ : RecordedNote) := by
    apply flatMap_mapIdx
    exact fun i number here => unit_notes_single unsigned i (nameable number here)
  have singles : ∀ n ∈ if options.arpeggio then numbers else [], Pitch.Nameable n := by
    split
    · exact nameable
    · exact List.forall_mem_nil _
  rw [units_sounds, Music.notes, List.flatMap_append, single singles, performance]
  cases options.chord with
  | false => rfl
  | true =>
    rw [if_pos rfl, List.flatMap_singleton, unit_notes_group unsigned _ nameable, if_pos rfl]

end Aural
end Solfege
