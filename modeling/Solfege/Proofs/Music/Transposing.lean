import Solfege.Music.Transposition
import Solfege.Proofs.Music.Playable
import Solfege.Proofs.Pitch.Name

/-! Transposed music. Every name moves by the same number of semitones and nothing else changes. The
first name that is not that of a pitch, or that would move beyond the names, keeps the music from
being transposed at all. -/
namespace Solfege

namespace Pitch
variable {name : String} {n semitones : Int} {fault : Fault}

/-- A name is that of a pitch, and the pitch some semitones away has a name as well. -/
def Moves (semitones : Int) (name : String) : Prop :=
  ∃ n, numberOf name = .ok n ∧ Nameable (n + semitones)

/-- What keeps a name from being moved. -/
inductive Stays (semitones : Int) (name : String) : Fault → Prop
  | misnomer {fault : Fault} (misnames : Misnames name fault) : Stays semitones name fault
  | beyond {n : Int} (named : numberOf name = .ok n) (unnameable : ¬ Nameable (n + semitones)) :
    Stays semitones name (.tooManyDigits none)

/-- The name of a pitch some semitones away. -/
def movedName (semitones : Int) (name : String) : String :=
  match numberOf name with
  | .ok n => spell (n + semitones)
  | .error _ => name

theorem movedName_eq (named : numberOf name = .ok n) (semitones : Int) :
    movedName semitones name = spell (n + semitones) := by
  rw [movedName, named]

theorem numberOf_movedName (named : numberOf name = .ok n) (nameable : Nameable (n + semitones)) :
    numberOf (movedName semitones name) = .ok (n + semitones) := by
  rw [movedName_eq named]
  exact numberOf_spell nameable

theorem transposeName_moved (moves : Moves semitones name) :
    transposeName semitones name = .ok (movedName semitones name) := by
  obtain ⟨n, named, nameable⟩ := moves
  rw [transposeName_eq named, movedName_eq named, nameOf_nameable nameable]

theorem transposeName_eq_error : transposeName semitones name = .error fault ↔
    Stays semitones name fault := by
  constructor
  · intro unmoved
    cases named : numberOf name with
    | ok n =>
      rw [transposeName_eq named] at unmoved
      obtain ⟨unnameable, rfl⟩ := nameOf_eq_error.mp unmoved
      exact .beyond named unnameable
    | error other =>
      rw [transposeName, named] at unmoved
      cases unmoved
      exact .misnomer (numberOf_eq_error.mp named)
  · rintro (misnames | ⟨named, unnameable⟩)
    · rw [transposeName, numberOf_eq_error.mpr misnames]
      rfl
    · rw [transposeName_eq named, nameOf_unnameable unnameable]

theorem highestC_stays : Stays 12 highestC (.tooManyDigits none) :=
  .beyond numberOf_highestC (unnameable_of_le (Int.le_refl _))

theorem transposeName_ok_iff : (∃ other, transposeName semitones name = .ok other) ↔
    Moves semitones name := by
  constructor
  · rintro ⟨other, moved⟩
    obtain ⟨n, named, spelled⟩ := bind_eq_ok.mp moved
    exact ⟨n, named, (nameOf_eq_ok.mp spelled).1⟩
  · exact fun moves => ⟨_, transposeName_moved moves⟩

end Pitch

namespace Sound
variable {sound : Sound} {semitones : Int} {fault : Fault}

/-- A sound some semitones away. -/
def moved (semitones : Int) : Sound → Sound
  | .single name => .single (Pitch.movedName semitones name)
  | .group names => .group (names.map (Pitch.movedName semitones))

@[simp] theorem moved_names (semitones : Int) (sound : Sound) :
    (sound.moved semitones).names = sound.names.map (Pitch.movedName semitones) := by
  cases sound <;> rfl

@[simp] theorem moved_isGroup (semitones : Int) (sound : Sound) :
    (sound.moved semitones).isGroup = sound.isGroup := by
  cases sound <;> rfl

@[simp] theorem moved_velocity (semitones : Int) (sound : Sound) :
    (sound.moved semitones).velocity = sound.velocity := by
  cases sound <;> rfl

theorem transpose_moved (moves : ∀ name ∈ sound.names, Pitch.Moves semitones name) :
    sound.transpose semitones = .ok (sound.moved semitones) := by
  cases sound with
  | single name =>
    rw [transpose, Pitch.transposeName_moved (moves name List.mem_cons_self)]
    rfl
  | group names =>
    have each : names.mapM (Pitch.transposeName semitones) =
        .ok (names.map (Pitch.movedName semitones)) :=
      mapM_of_forall fun name here => Pitch.transposeName_moved (moves name here)
    rw [transpose, each]
    rfl

/-- A sound fares as its names do. -/
theorem transpose_eq_error : sound.transpose semitones = .error fault ↔
    sound.names.mapM (Pitch.transposeName semitones) = .error fault := by
  cases sound with
  | single name =>
    have one : [name].mapM (Pitch.transposeName semitones) =
        (Pitch.transposeName semitones name >>= fun moved => return [moved]) := by
      rw [List.mapM_cons, List.mapM_nil]
      rfl
    rw [transpose, names, one, return_eq_error, return_eq_error]
  | group names => rw [transpose, Sound.names, return_eq_error]

end Sound

/-- An event some semitones away. -/
def Event.moved (semitones : Int) (event : Event) : Event :=
  { event with sound := event.sound.moved semitones }

namespace Music
variable {music : Music} {semitones : Int} {fault : Fault}

/-- All names of some music can be moved. -/
def Movable (semitones : Int) (music : Music) : Prop :=
  ∀ event ∈ music, ∀ name ∈ event.sound.names, Pitch.Moves semitones name

/-- The names of some music, one event after the other. -/
def names (music : Music) : List String := music.flatMap (·.sound.names)

/-- What keeps some music from being moved is what keeps the first of its names that cannot be. -/
def Stays (semitones : Int) (music : Music) (fault : Fault) : Prop :=
  ∃ before name after, music.names = before ++ name :: after ∧
    (∀ other ∈ before, Pitch.Moves semitones other) ∧ Pitch.Stays semitones name fault

/-- Music some semitones away. -/
def moved (semitones : Int) (music : Music) : Music := music.map (Event.moved semitones)

/-- Music transposed as it is asked for, and the chance that is left. -/
def transposed (transposition : Transposition) (chance : Chance) (music : Music) :
    Except Fault (Music × Chance) :=
  return (← music.transpose (transposition.resolve chance).1, (transposition.resolve chance).2)

theorem Movable.pitched (movable : music.Movable semitones) : music.Pitched := by
  intro event here name inside
  obtain ⟨n, named, _⟩ := movable event here name inside
  exact ⟨n, named⟩

/-- Music of pitches can be moved where all of them have names afterwards. -/
theorem movable_iff (pitched : music.Pitched) : music.Movable semitones ↔
    ∀ event ∈ music, ∀ name ∈ event.sound.names, ∀ n, Pitch.numberOf name = .ok n →
      Pitch.Nameable (n + semitones) := by
  constructor
  · intro movable event here name inside n named
    obtain ⟨m, named', nameable⟩ := movable event here name inside
    exact Except.ok.inj (named'.symm.trans named) ▸ nameable
  · intro nameable event here name inside
    obtain ⟨n, named⟩ := pitched event here name inside
    exact ⟨n, named, nameable event here name inside n named⟩

theorem transpose_movable (movable : music.Movable semitones) :
    music.transpose semitones = .ok (music.moved semitones) :=
  mapM_of_forall fun event here => by
    rw [Sound.transpose_moved (movable event here)]
    rfl

/-- Music fares as its names do, one after the other. -/
theorem transpose_eq_error_names : music.transpose semitones = .error fault ↔
    music.names.mapM (Pitch.transposeName semitones) = .error fault := by
  induction music with
  | nil => exact ⟨nofun, nofun⟩
  | cons event rest ih =>
    have alike (fault : Fault) :
        (event.sound.transpose semitones >>= fun sound => return { event with sound }) =
          .error fault ↔
        event.sound.names.mapM (Pitch.transposeName semitones) = .error fault :=
      return_eq_error.trans Sound.transpose_eq_error
    rw [Music.transpose, List.mapM_cons, bind_eq_error, alike]
    simp only [return_eq_error, exists_and_right, ok_iff_of_error_iff alike]
    rw [names, List.flatMap_cons, List.mapM_append, bind_eq_error]
    simp only [return_eq_error, exists_and_right]
    exact or_congr_right (and_congr_right fun _ => ih)

theorem transpose_eq_error : music.transpose semitones = .error fault ↔
    music.Stays semitones fault := by
  rw [transpose_eq_error_names, mapM_eq_error]
  simp only [Pitch.transposeName_ok_iff, Pitch.transposeName_eq_error]
  rfl

/-- Music can be transposed exactly when all its names can be moved. -/
theorem transpose_ok_iff : (∃ moved, music.transpose semitones = .ok moved) ↔
    music.Movable semitones := by
  rw [ok_iff_of_error_iff fun _ => transpose_eq_error_names, mapM_ok_iff]
  simp only [Pitch.transposeName_ok_iff, names, List.forall_mem_flatMap]
  rfl

/-- Music of one name is kept from being moved as that is. -/
theorem transpose_stays {event : Event} {name : String} (alone : event.sound = .single name)
    (stays : Pitch.Stays semitones name fault) :
    Music.transpose semitones [event] = .error fault := by
  refine transpose_eq_error.mpr ⟨[], name, [], ?_, List.forall_mem_nil _, stays⟩
  rw [names, List.flatMap_singleton, alone]
  rfl

theorem eq_moved {later : Music} (done : music.transpose semitones = .ok later) :
    music.Movable semitones ∧ music.moved semitones = later := by
  have movable := transpose_ok_iff.mp ⟨later, done⟩
  exact ⟨movable, Except.ok.inj ((transpose_movable movable).symm.trans done)⟩

end Music
end Solfege
