import Solfege.Proofs.Music.Transposing
import Solfege.Proofs.Playback.Offline

/-! Rendering music that has been transposed. What is recorded of an event can be told from its
time, its length and its names, so transposed music leaves the same notes, moved. -/
namespace Solfege

/-- A recorded note some semitones away. -/
def RecordedNote.moved (semitones : Int) (note : RecordedNote) : RecordedNote :=
  { note with number := note.number + semitones }

namespace Recorder
variable {names : List String}

theorem notesFor_moved {semitones : Int} (moves : ∀ name ∈ names, Pitch.Moves semitones name)
    (duration start velocity : Number) :
    (notesFor duration start velocity (names.map (Pitch.movedName semitones))).1 =
      (notesFor duration start velocity names).1.map (RecordedNote.moved semitones) := by
  induction names with
  | nil => rfl
  | cons name rest ih =>
    obtain ⟨⟨number, named, nameable⟩, others⟩ := List.forall_mem_cons.mp moves
    rw [List.map_cons, notesFor, Pitch.numberOf_movedName named nameable, notesFor, named]
    exact congrArg (_ :: ·) (ih others)

end Recorder

namespace Event
variable {event : Event} {start tempo : Number} {begin scale : Binary64} {semitones : Int}

theorem Sendable.moved (sendable : event.Sendable start begin scale tempo)
    (moves : ∀ name ∈ event.sound.names, Pitch.Moves semitones name) :
    (event.moved semitones).Sendable start begin scale tempo := by
  refine ⟨sendable.start, ⟨sendable.timed.delay, sendable.timed.seconds⟩, ?_⟩
  intro name here
  obtain ⟨plain, inside, rfl⟩ := List.mem_map.mp (Sound.moved_names .. ▸ here)
  obtain ⟨number, named, nameable⟩ := moves plain inside
  exact ⟨_, Pitch.numberOf_movedName named nameable⟩

theorem notesFrom_moved (moves : ∀ name ∈ event.sound.names, Pitch.Moves semitones name)
    (begin scale : Binary64) (tempo : Number) :
    (event.moved semitones).notesFrom begin scale tempo =
      (event.notesFrom begin scale tempo).map (RecordedNote.moved semitones) := by
  have comes : (event.moved semitones).comes scale = event.comes scale := rfl
  have lasts : (event.moved semitones).lasts tempo = event.lasts tempo := rfl
  have sound : (event.moved semitones).sound = event.sound.moved semitones := rfl
  have onset (seconds : Binary64) :
      (event.moved semitones).onset seconds = event.onset seconds := by
    rw [Event.onset, Event.onset, sound, Sound.moved_isGroup]
  rw [notesFrom, notesFrom, comes, lasts, onset, sound, Sound.moved_velocity, Sound.moved_names,
    Recorder.notesFor_moved moves]

end Event

namespace Music
variable {music : Music} {semitones : Int}

theorem notesFrom_moved (movable : music.Movable semitones) (begin scale : Binary64)
    (tempo : Number) :
    (music.moved semitones).notesFrom begin scale tempo =
      (music.notesFrom begin scale tempo).map (RecordedNote.moved semitones) := by
  rw [notesFrom, notesFrom, moved, List.flatMap_map, List.map_flatMap]
  exact List.flatMap_congr fun event here =>
    Event.notesFrom_moved (movable event here) begin scale tempo

theorem seconds_moved (music : Music) (semitones : Int) (tempo : Number) :
    (music.moved semitones).seconds tempo = music.seconds tempo := by
  unfold Music.seconds moved
  simp only [List.mapM_map]
  rfl

end Music

/-- Music can be transposed exactly when all its names can be moved, and otherwise the first that
cannot says why. Rendering it transposed leaves the same notes as before, each moved by as much, and
answers with the same length. -/
theorem Music.render_transposed (music : Music) (semitones : Int) :
    ((∃ moved, music.transpose semitones = .ok moved) ↔ music.Movable semitones) ∧
    (∀ fault, music.transpose semitones = .error fault ↔ music.Stays semitones fault) ∧
    ∀ moved, music.transpose semitones = .ok moved →
      ∀ {s t : Stage} {e : Nat} {recorder : Recorder} {start tempo : Number} {length : Binary64},
        s.engines[e]? = some recorder →
        Act.render (some e) music start tempo s = (.ok length, t) →
        ∃ t' notes, Act.render (some e) moved start tempo s = (.ok length, t') ∧
          t.engines = s.engines.set e { recorder with notes := recorder.notes ++ notes } ∧
          t'.engines = s.engines.set e { recorder with
            notes := recorder.notes ++ notes.map (RecordedNote.moved semitones) } := by
  refine ⟨transpose_ok_iff, fun _ => transpose_eq_error, ?_⟩
  intro later transposed s t e recorder start tempo length found done
  obtain ⟨movable, rfl⟩ := eq_moved transposed
  obtain ⟨scale, begin, told, scaled, sendable, measured, rfl⟩ := Act.render_ok found done
  have moves : ∀ event ∈ music.moved semitones, event.Sendable start begin scale tempo := by
    intro event here
    obtain ⟨plain, inside, rfl⟩ := List.mem_map.mp here
    exact (sendable plain inside).moved (movable plain inside)
  obtain ⟨more, renders⟩ := Act.render_sends found scaled moves
  have timed : ∀ event ∈ music.moved semitones, event.Timed scale tempo :=
    fun event here => (moves event here).timed
  have same : (music.moved semitones).lasts scale tempo = length := by
    have whole := Music.seconds_eq scaled timed
    rw [seconds_moved, measured] at whole
    exact (Except.ok.inj whole).symm
  rw [same] at renders
  refine ⟨_, music.notesFrom begin scale tempo, renders, rfl, ?_⟩
  rw [notesFrom_moved movable]
  rfl

/-- A single note, a group and an empty group, lowered below zero. -/
theorem Music.render_transposed_lowered :
    let music : Music := [⟨.whole 0, .single "c#4", .code "4n"⟩,
      ⟨.real 0.5, .group ["E4", "Bbb-1"], .seconds (.whole 1)⟩,
      ⟨.whole 1, .group [], .code "8t"⟩]
    let run (music : Music) :=
      Act.render (some 0) music (.whole 3) (.whole 90) (Stage.initial.equipped none)
    ∃ moved, music.transpose (-61) = .ok moved ∧ (run moved).1 = (run music).1 ∧
      (run moved).2.notes 0 = ((run music).2.notes 0).map (·.map (RecordedNote.moved (-61))) := by
  intro music run
  have moves : (music.transpose (-61)).toOption.isSome = true := by
    unfold music
    decide +kernel
  have found : (Stage.initial.equipped none).engines[0]? = some (.standard 0) := by
    simp [Stage.equipped, Stage.initial]
  have there : 0 < (Stage.initial.equipped none).engines.length :=
    (List.getElem?_eq_some_iff.mp found).1
  have measured : (run music).1.toOption.isSome = true := by
    unfold run music
    decide +kernel
  obtain ⟨length, known⟩ := Option.isSome_iff_exists.mp measured
  have done : run music = (.ok length, (run music).2) := by
    generalize run music = answer at known ⊢
    exact Prod.ext (eq_ok_of_toOption known) rfl
  obtain ⟨moved, moves⟩ := Option.isSome_iff_exists.mp moves
  have transposed := eq_ok_of_toOption moves
  obtain ⟨_, _, renders⟩ := render_transposed music (-61)
  obtain ⟨t', notes, later, before, after⟩ := renders moved transposed found done
  have heard : (run moved).2 = t' := congrArg Prod.snd later
  have empty : (Recorder.standard 0).notes = [] := rfl
  refine ⟨moved, transposed, (congrArg Prod.fst later).trans (congrArg Prod.fst done).symm, ?_⟩
  rw [heard, Stage.notes, Stage.notes, before, after, List.getElem?_set_self there,
    List.getElem?_set_self there, empty]
  rfl

/-- The highest C that has a name is rendered, and cannot be moved up. -/
theorem Music.render_untransposed :
    let music : Music := [⟨.real 0, .single Pitch.highestC, .seconds (.real 1)⟩]
    music.Pitched ∧
      (∃ length t, Act.render (some 0) music (.real 0) Duration.referenceTempo
        (Stage.initial.equipped none) = (.ok length, t)) ∧
      music.transpose 12 = .error (.tooManyDigits none) := by
  intro music
  have named := Pitch.numberOf_highestC
  have pitched : music.Pitched :=
    List.forall_mem_singleton.mpr (List.forall_mem_singleton.mpr ⟨_, named⟩)
  have found : (Stage.initial.equipped none).engines[0]? = some (.standard 0) := by
    simp [Stage.equipped, Stage.initial]
  have timed : ∀ event ∈ music, event.Timed 1 Duration.referenceTempo := by
    refine List.forall_mem_singleton.mpr ⟨⟨0 * 1, rfl⟩, 1 * 1, ?_⟩
    rw [Event.seconds, Duration.tempoScale_reference]
    rfl
  have sendable : ∀ event ∈ music, event.Sendable (.real 0) 0 1 Duration.referenceTempo :=
    fun event here => ⟨rfl, timed event here, pitched event here⟩
  obtain ⟨told, renders⟩ := Act.render_sends found Duration.tempoScale_reference sendable
  exact ⟨pitched, ⟨_, _, renders⟩, transpose_stays rfl Pitch.highestC_stays⟩

end Solfege
