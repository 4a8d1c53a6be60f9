import Solfege.Music.Tempo
import Solfege.Proofs.Binary64.Rounding
import Solfege.Proofs.Outcome

/-! Music whose times, lengths and names make sense at a tempo. It has a length, and no event of it
comes later than that. -/
namespace Solfege

/-- An event that has a time and a length, whatever numbers they are. -/
structure Event.Timed (event : Event) (scale : Binary64) (tempo : Number) : Prop where
  delay : ∃ x, event.delay scale = .ok x
  seconds : ∃ x, event.seconds tempo = .ok x

/-- An event that comes at a finite time and lasts for a finite time that is not negative, whatever
it sounds. -/
structure Event.Measured (event : Event) (scale : Binary64) (tempo : Number) : Prop where
  delay : ∃ x, event.delay scale = .ok x ∧ x.isFinite
  seconds : ∃ x, event.seconds tempo = .ok x ∧ x.isFinite ∧ 0 ≤ x

/-- An event that can be played: it comes at a finite time, lasts for a finite time that is not
negative, and sounds names of pitches. -/
structure Event.Playable (event : Event) (scale : Binary64) (tempo : Number) : Prop where
  delay : ∃ x, event.delay scale = .ok x ∧ x.isFinite
  seconds : ∃ x, event.seconds tempo = .ok x ∧ x.isFinite ∧ 0 ≤ x
  names : ∀ name ∈ event.sound.names, ∃ number, Pitch.numberOf name = .ok number

theorem Duration.tempoScale_eq {tempo : Number} {scale : Binary64}
    (found : (tempoScale tempo).toOption = some scale) : tempoScale tempo = .ok scale :=
  eq_ok_of_toOption found

theorem Duration.tempoScale_reference : tempoScale referenceTempo = .ok 1 :=
  tempoScale_eq (by decide +kernel)

theorem toOption_any {α : Type} {given : Except Fault α} {test : α → Bool} :
    given.toOption.any test = true ↔ ∃ x, given = .ok x ∧ test x = true := by
  cases given <;> simp [Except.toOption]

theorem Event.measured_iff {event : Event} {scale : Binary64} {tempo : Number} :
    event.Measured scale tempo ↔
      (event.delay scale).toOption.any Binary64.isFinite = true ∧
      (event.seconds tempo).toOption.any (fun x => x.isFinite && decide (0 ≤ x)) = true := by
  simp only [toOption_any, Bool.and_eq_true, decide_eq_true_eq]
  exact ⟨fun measured => ⟨measured.delay, measured.seconds⟩, fun ⟨delay, seconds⟩ =>
    ⟨delay, seconds⟩⟩

instance (event : Event) (scale : Binary64) (tempo : Number) :
    Decidable (event.Measured scale tempo) := decidable_of_iff _ Event.measured_iff.symm

theorem Event.playable_iff {event : Event} {scale : Binary64} {tempo : Number} :
    event.Playable scale tempo ↔
      (event.delay scale).toOption.any Binary64.isFinite = true ∧
      (event.seconds tempo).toOption.any (fun x => x.isFinite && decide (0 ≤ x)) = true ∧
      ∀ name ∈ event.sound.names, (Pitch.numberOf name).toOption.isSome := by
  have pitch (name : String) : (Pitch.numberOf name).toOption.isSome ↔
      ∃ number, Pitch.numberOf name = .ok number := by
    cases Pitch.numberOf name <;> simp [Except.toOption]
  simp only [toOption_any, pitch, Bool.and_eq_true, decide_eq_true_eq]
  constructor
  · rintro ⟨delay, seconds, names⟩
    exact ⟨delay, seconds, names⟩
  · rintro ⟨delay, seconds, names⟩
    exact ⟨delay, seconds, names⟩

instance (event : Event) (scale : Binary64) (tempo : Number) :
    Decidable (event.Playable scale tempo) := decidable_of_iff _ Event.playable_iff.symm

/-- When an event comes that has a time. -/
def Event.comes (event : Event) (scale : Binary64) : Binary64 :=
  match event.delay scale with
  | .ok x => x
  | .error _ => 0

/-- How long an event lasts that has a length. -/
def Event.lasts (event : Event) (tempo : Number) : Binary64 :=
  match event.seconds tempo with
  | .ok x => x
  | .error _ => 0

/-- How long music lasts whose events have times and lengths. -/
def Music.lasts (music : Music) (scale : Binary64) (tempo : Number) : Binary64 :=
  (Binary64.greatest (music.map fun event => event.comes scale + event.lasts tempo)).getD 0

/-- The names of all events are those of pitches. -/
def Music.Pitched (score : Music) : Prop :=
  ∀ event ∈ score, ∀ name ∈ event.sound.names, ∃ number, Pitch.numberOf name = .ok number

instance (score : Music) : Decidable score.Pitched :=
  decidable_of_iff (∀ event ∈ score, ∀ name ∈ event.sound.names,
      (Pitch.numberOf name).toOption.isSome = true) <| by
    have pitch (name : String) : (Pitch.numberOf name).toOption.isSome = true ↔
        ∃ number, Pitch.numberOf name = .ok number := by
      cases Pitch.numberOf name <;> simp [Except.toOption]
    simp only [pitch, Music.Pitched]

namespace Event.Timed
variable {event : Event} {scale : Binary64} {tempo : Number}

theorem delay_eq (timed : event.Timed scale tempo) :
    event.delay scale = .ok (event.comes scale) := by
  obtain ⟨x, given⟩ := timed.delay
  rw [comes, given]

theorem seconds_eq (timed : event.Timed scale tempo) :
    event.seconds tempo = .ok (event.lasts tempo) := by
  obtain ⟨x, given⟩ := timed.seconds
  rw [lasts, given]

theorem endTime_eq (timed : event.Timed scale tempo) :
    event.endTime scale tempo = .ok (event.comes scale + event.lasts tempo) := by
  unfold endTime
  rw [timed.delay_eq, timed.seconds_eq]
  rfl

theorem of_endTime {x : Binary64} (ends : event.endTime scale tempo = .ok x) :
    event.Timed scale tempo := by
  unfold endTime at ends
  cases delay : event.delay scale with
  | error fault =>
    rw [delay] at ends
    cases ends
  | ok y =>
    cases seconds : event.seconds tempo with
    | error fault =>
      rw [delay, seconds] at ends
      cases ends
    | ok z => exact ⟨⟨y, delay⟩, ⟨z, seconds⟩⟩

end Event.Timed

namespace Event.Measured
variable {event : Event} {scale : Binary64} {tempo : Number}

theorem timed (measured : event.Measured scale tempo) : event.Timed scale tempo := by
  obtain ⟨delay, comes, _⟩ := measured.delay
  obtain ⟨seconds, lasts, _⟩ := measured.seconds
  exact ⟨⟨delay, comes⟩, ⟨seconds, lasts⟩⟩

theorem comes_finite (measured : event.Measured scale tempo) : (event.comes scale).isFinite := by
  obtain ⟨x, given, finite⟩ := measured.delay
  rw [comes, given]
  exact finite

theorem lasts_finite (measured : event.Measured scale tempo) : (event.lasts tempo).isFinite := by
  obtain ⟨x, given, finite, _⟩ := measured.seconds
  rw [lasts, given]
  exact finite

theorem lasts_nonneg (measured : event.Measured scale tempo) : 0 ≤ event.lasts tempo := by
  obtain ⟨x, given, _, nonneg⟩ := measured.seconds
  rw [lasts, given]
  exact nonneg

/-- An event ends no earlier than it comes. -/
theorem comes_le_end (measured : event.Measured scale tempo) :
    event.comes scale ≤ event.comes scale + event.lasts tempo :=
  Binary64.le_add_of_nonneg measured.comes_finite measured.lasts_finite measured.lasts_nonneg

end Event.Measured

namespace Event.Playable
variable {event : Event} {scale : Binary64} {tempo : Number}

theorem measured (playable : event.Playable scale tempo) : event.Measured scale tempo :=
  ⟨playable.delay, playable.seconds⟩

theorem timed (playable : event.Playable scale tempo) : event.Timed scale tempo :=
  playable.measured.timed

theorem comes_finite (playable : event.Playable scale tempo) : (event.comes scale).isFinite :=
  playable.measured.comes_finite

end Event.Playable

namespace Binary64
variable {x best : Binary64} {xs : List Binary64}

theorem le_foldl_greatest (number : best ≤ best) (numbers : ∀ y ∈ xs, y ≤ y) :
    best ≤ xs.foldl (fun best y => if best < y then y else best) best ∧
      ∀ y ∈ xs, y ≤ xs.foldl (fun best y => if best < y then y else best) best := by
  induction xs generalizing best with
  | nil => exact ⟨number, by simp⟩
  | cons x rest ih =>
    have hx : x ≤ x := numbers x (by simp)
    have others : ∀ y ∈ rest, y ≤ y := fun y here => numbers y (by simp [here])
    rw [List.foldl_cons]
    split
    · rename_i less
      obtain ⟨first, later⟩ := ih hx others
      exact ⟨le_trans (le_of_lt less) first, by simpa [first] using later⟩
    · rename_i notLess
      obtain ⟨first, later⟩ := ih number others
      have below := le_trans (le_of_not_lt hx number notLess) first
      exact ⟨first, by simpa [below] using later⟩

/-- No number of a list is greater than the greatest. -/
theorem le_greatest (numbers : ∀ y ∈ xs, y ≤ y) (here : x ∈ xs) :
    ∃ most, greatest xs = some most ∧ x ≤ most := by
  cases xs with
  | nil => cases here
  | cons first rest =>
    have others : ∀ y ∈ rest, y ≤ y := fun y here => numbers y (by simp [here])
    obtain ⟨most, later⟩ := le_foldl_greatest (numbers first (by simp)) others
    refine ⟨_, rfl, ?_⟩
    rcases List.mem_cons.mp here with rfl | here
    · exact most
    · exact later x here

end Binary64

namespace Music
variable {music : Music} {event : Event} {scale : Binary64} {tempo : Number}

theorem mapM_endTime (timed : ∀ event ∈ music, event.Timed scale tempo) :
    music.mapM (fun event => event.endTime scale tempo) =
      .ok (music.map fun event => event.comes scale + event.lasts tempo) :=
  mapM_of_forall fun event here => (timed event here).endTime_eq

theorem seconds_eq (scaled : Duration.tempoScale tempo = .ok scale)
    (timed : ∀ event ∈ music, event.Timed scale tempo) :
    music.seconds tempo = .ok (music.lasts scale tempo) := by
  unfold Music.seconds
  rw [scaled]
  dsimp only [Bind.bind, Except.bind]
  rw [mapM_endTime timed]
  rfl

theorem timed_of_mapM {ends : List Binary64}
    (given : music.mapM (fun event => event.endTime scale tempo) = .ok ends) :
    ∀ event ∈ music, event.Timed scale tempo := by
  induction music generalizing ends with
  | nil => simp
  | cons first rest ih =>
    rw [List.mapM_cons] at given
    cases finish : first.endTime scale tempo with
    | error fault =>
      rw [finish] at given
      cases given
    | ok x =>
      cases others : rest.mapM (fun event => event.endTime scale tempo) with
      | error fault =>
        rw [finish, others] at given
        cases given
      | ok xs =>
        intro event here
        rcases List.mem_cons.mp here with rfl | later
        · exact .of_endTime finish
        · exact ih others event later

/-- Only music whose events have times and lengths has a length. -/
theorem timed_of_seconds {length : Binary64} (given : music.seconds tempo = .ok length) :
    ∃ scale, Duration.tempoScale tempo = .ok scale ∧
      ∀ event ∈ music, event.Timed scale tempo := by
  unfold Music.seconds at given
  cases scaled : Duration.tempoScale tempo with
  | error fault =>
    rw [scaled] at given
    cases given
  | ok scale =>
    cases ends : music.mapM (fun event => event.endTime scale tempo) with
    | error fault =>
      rw [scaled] at given
      dsimp only [Bind.bind, Except.bind] at given
      rw [ends] at given
      cases given
    | ok xs => exact ⟨scale, rfl, timed_of_mapM ends⟩

/-- Music is not over before the last of its events comes. -/
theorem comes_le_lasts (measured : ∀ event ∈ music, event.Measured scale tempo)
    (here : event ∈ music) : event.comes scale ≤ music.lasts scale tempo := by
  have numbers : ∀ y ∈ music.map (fun event => event.comes scale + event.lasts tempo), y ≤ y := by
    intro y there
    obtain ⟨other, member, rfl⟩ := List.mem_map.mp there
    exact Binary64.le_self_right (measured other member).comes_le_end
  obtain ⟨most, found, le⟩ := Binary64.le_greatest numbers (List.mem_map_of_mem here)
  rw [lasts, found]
  exact Binary64.le_trans (measured event here).comes_le_end le

end Music
end Solfege
