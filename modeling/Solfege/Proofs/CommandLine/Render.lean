import Solfege.Proofs.Binary64.Unsigned
import Solfege.Proofs.CommandLine.Compile
import Solfege.Proofs.Playback.Rendering
import Solfege.Proofs.Recorder.Beside
import Solfege.Proofs.Shorthand.Timeline

/-! The render command at different tempos. It writes the same notes at each, and they stand where
they stand at the reference tempo, but for a tick and for the roundings on the way. -/
namespace Solfege
open Binary64
variable {n : ℕ}

/-! Events and cues. -/

/-- An event that sounds what a cue tells. -/
structure Event.Cued (event : Event) (cue : Recorder.Cue) : Prop where
  time : event.time = .real cue.time
  sound : ∃ name, event.sound = .single name ∧ Pitch.numberOf name = .ok cue.number
  length : ∃ code, event.length = .code code ∧ ∀ tempo, 0 < tempo →
    Duration.codeSeconds code (.real tempo) =
      .ok (ofRatio cue.quarters.num cue.quarters.den * (60 / tempo))

theorem Event.exists_cue {event : Event} {low high : Int} (single : event.Single low high)
    (laid : event.Laid) : ∃ cue, event.Cued cue := by
  obtain ⟨x, time, moderate⟩ := laid
  obtain ⟨name, number, sound, _, named, _⟩ := single.sound
  obtain ⟨code, length, valid⟩ := single.length
  obtain ⟨q, k, grid, seconds⟩ := Duration.codeSeconds_onTicks valid
  exact ⟨⟨number, x, q, k, moderate, grid⟩, time, ⟨name, sound, named⟩, ⟨code, length, seconds⟩⟩

namespace Event.Cued
variable {event : Event} {cue : Recorder.Cue}

theorem delay (cued : event.Cued cue) (scale : Binary64) :
    event.delay scale = .ok (cue.time * scale) := by
  rw [Event.delay, cued.time]
  rfl

theorem seconds (cued : event.Cued cue) (rate : Recorder.Rate n) :
    event.seconds (.whole n) =
      .ok (ofRatio cue.quarters.num cue.quarters.den * (60 / ofInt n)) := by
  obtain ⟨code, length, seconds⟩ := cued.length
  have above : 0 < ofInt n := rate.near.pos rate.pos
  rw [Event.seconds, length]
  exact (Duration.codeSeconds_whole rate.int_pos (Recorder.ofWhole_rate rate) above code).trans
    (seconds _ above)

theorem playable (cued : event.Cued cue) (rate : Recorder.Rate n) :
    event.Playable (120 / ofInt n) (.whole n) := by
  obtain ⟨name, sound, named⟩ := cued.sound
  obtain ⟨p, start⟩ := cue.start_near rate
  obtain ⟨q, long⟩ := cue.length_near rate
  refine ⟨⟨_, cued.delay _, start.isFinite⟩, ⟨_, cued.seconds rate, long.isFinite, long.nonneg⟩, ?_⟩
  intro other here
  rw [sound, Sound.names, List.mem_singleton] at here
  exact ⟨_, here ▸ named⟩

theorem notes (cued : event.Cued cue) (rate : Recorder.Rate n) :
    event.notes (120 / ofInt n) (.whole n) = [cue.note n] := by
  obtain ⟨name, sound, named⟩ := cued.sound
  obtain ⟨p, start⟩ := cue.start_near rate
  have comes : event.comes (120 / ofInt n) = cue.time * (120 / ofInt n) := by
    rw [Event.comes, cued.delay]
  have lasts : event.lasts (.whole n) =
      ofRatio cue.quarters.num cue.quarters.den * (60 / ofInt n) := by
    rw [Event.lasts, cued.seconds rate]
  have onset (x : Binary64) : event.onset x = 0 := by
    rw [Event.onset, sound]
    rfl
  rw [Event.notes, comes, lasts, onset, start.unsigned.zero_add, start.unsigned.add_zero, sound,
    Sound.names, Recorder.notesFor, named]
  rfl

end Event.Cued

namespace Music
variable {music : Music} {cues : List Recorder.Cue}

theorem exists_cues {low high : Int} (single : ∀ event ∈ music, event.Single low high)
    (laid : ∀ event ∈ music, event.Laid) : ∃ cues, List.Forall₂ Event.Cued music cues := by
  induction music with
  | nil => exact ⟨[], .nil⟩
  | cons event rest ih =>
    rw [List.forall_mem_cons] at single laid
    obtain ⟨cue, first⟩ := event.exists_cue single.1 laid.1
    obtain ⟨cues, others⟩ := ih single.2 laid.2
    exact ⟨cue :: cues, .cons first others⟩

theorem playable_cues (cued : List.Forall₂ Event.Cued music cues) (rate : Recorder.Rate n) :
    ∀ event ∈ music, event.Playable (120 / ofInt n) (.whole n) := by
  induction cued with
  | nil => simp
  | cons first _ ih => exact List.forall_mem_cons.mpr ⟨first.playable rate, ih⟩

theorem notes_cues (cued : List.Forall₂ Event.Cued music cues) (rate : Recorder.Rate n) :
    music.notes (120 / ofInt n) (.whole n) = cues.map (·.note n) := by
  induction cued with
  | nil => rfl
  | cons first _ ih =>
    rw [notes, List.flatMap_cons, first.notes rate, ← notes, ih, List.map_cons,
      List.singleton_append]

theorem laid_of_times {plain : Music} (laid : ∀ event ∈ plain, event.Laid)
    (same : List.Forall₂ (fun a b => b.time = a.time) plain music) :
    ∀ event ∈ music, event.Laid := by
  induction same with
  | nil => simp
  | cons first _ ih =>
    obtain ⟨⟨x, time, moderate⟩, later⟩ := List.forall_mem_cons.mp laid
    exact List.forall_mem_cons.mpr ⟨⟨x, first.trans time, moderate⟩, ih later⟩

theorem head_cues (cued : List.Forall₂ Event.Cued music cues)
    (origin : ∀ first ∈ music.head?, first.time = .real 0) : ∀ cue ∈ cues.head?, cue.time = 0 := by
  cases cued with
  | nil => simp
  | cons first _ =>
    rintro cue ⟨⟩
    exact Number.real.inj (first.time.symm.trans (origin _ rfl))

end Music

namespace CommandLine
variable {music : Music} {cues : List Recorder.Cue} {setting : Setting} {text said : String}
  {transposition : Transposition}

/-- Transposing leaves times as they are. -/
theorem musicOf_laid (found : musicOf setting text transposition = .ok (music, said)) :
    (∀ event ∈ music, event.Laid) ∧ ∀ first ∈ music.head?, first.time = .real 0 := by
  obtain ⟨plain, compiled, laid, _⟩ := Shorthand.compile_ok text
  have timeline := Shorthand.layOut_laid (Shorthand.resolved_grammatical text) Moderate.zero laid
  have same : List.Forall₂ (fun a b => b.time = a.time) plain music := by
    unfold musicOf at found
    rw [compiled] at found
    dsimp only at found
    split at found
    · cases found
    · split at found
      · cases found
        exact List.forall₂_same.mpr fun _ _ => rfl
      · split at found
        · cases found
        · rename_i moved transposed
          cases found
          refine (mapM_eq_ok.mp transposed).imp fun a b made => ?_
          obtain ⟨sound, _, made⟩ := bind_eq_ok.mp made
          cases made
          rfl
  refine ⟨Music.laid_of_times timeline.1 same, ?_⟩
  cases same with
  | nil => simp
  | cons first _ =>
    rintro event ⟨⟩
    exact first.trans (timeline.2 _ rfl)

/-- What an engine records of music that can be sent to it. -/
theorem recording_sends {tempo : Number} {scale : Binary64}
    (scaled : Duration.tempoScale tempo = .ok scale)
    (sendable : ∀ event ∈ music, event.Sendable (.real 0) 0 scale tempo) :
    (recording music tempo Stage.initial).1 =
      (⟨tempo, 0, 0, music.notesFrom 0 scale tempo⟩ : Recorder).bytes.2 := by
  let s : Stage := { Stage.initial with engines := [⟨tempo, 0, 0, []⟩] }
  have added : Act.addEngine { Recorder.standard 0 with tempo := tempo } Stage.initial =
      (.ok 0, s) := rfl
  have found : s.engines[0]? = some ⟨tempo, 0, 0, []⟩ := rfl
  obtain ⟨told, rendered⟩ := Act.render_sends found scaled sendable
  have engine := Act.engine_apply 0 (s.replaced 0 ⟨tempo, 0, 0, music.notesFrom 0 scale tempo⟩ told)
  rw [Stage.replaced_engine found] at engine
  rw [recording, Act.bind_of_ok added, Act.bind_of_ok rendered, Act.write, List.nil_append,
    Act.bind_of_ok engine]
  rfl

theorem recording_cues (cued : List.Forall₂ Event.Cued music cues) (rate : Recorder.Rate n) :
    (recording music (.whole n) Stage.initial).1 =
      (⟨.whole n, 0, 0, cues.map (·.note n)⟩ : Recorder).bytes.2 := by
  have scaled : Duration.tempoScale (.whole n) = .ok (120 / ofInt n) :=
    Duration.tempoScale_whole rate.int_pos (Recorder.ofWhole_rate rate)
  have playable := Music.playable_cues cued rate
  have notes : music.notesFrom 0 (120 / ofInt n) (.whole n) = cues.map (·.note n) :=
    Music.notes_cues cued rate
  rw [recording_sends scaled fun event here => (playable event here).sendable, notes]

theorem save_saved {what path : String} {tempo : Number} {bytes : List UInt8}
    (recorded : (recording music tempo Stage.initial).1 = .ok bytes)
    (plain : '\x00' ∉ path.toList) (taken : setting.disk path = none) :
    (save setting music what path tempo said).saved = some (path, bytes) := by
  cases result : recording music tempo Stage.initial with
  | mk outcome stage =>
    rw [result] at recorded
    obtain rfl : outcome = .ok bytes := recorded
    unfold save
    rw [result]
    dsimp only
    rw [String.contains_char_eq, if_neg (by simpa using plain), taken]

/-- A run that writes a file of some notes to a path. -/
def Outcome.Writes (outcome : Outcome) (path : String) (notes : List Midi.Note) : Prop :=
  ∃ beat bytes, outcome.saved = some (path, bytes) ∧
    Midi.fileBytes beat (Midi.noteTrack Recorder.trackName.toUTF8.toList 0 notes) = .ok bytes

/-- A file has one track of notes. -/
theorem Outcome.Writes.track {outcome : Outcome} {path : String} {notes others : List Midi.Note}
    (some : outcome.Writes path notes) (same : outcome.Writes path others) :
    let track (notes : List Midi.Note) :=
      Midi.chunk (Midi.eventBytes 0 (Midi.noteTrack Recorder.trackName.toUTF8.toList 0 notes))
    track notes = track others := by
  obtain ⟨beat, bytes, saved, file⟩ := some
  obtain ⟨beat', bytes', saved', file'⟩ := same
  obtain rfl : bytes = bytes' := by
    rw [saved] at saved'
    exact (Prod.mk.inj (Option.some.inj saved')).2
  exact (Recorder.drop_fileBytes file).symm.trans (Recorder.drop_fileBytes file')

theorem render_writes (found : musicOf setting text transposition = .ok (music, said))
    (cued : List.Forall₂ Event.Cued music cues) (rate : Recorder.Rate n) {path : String}
    (plain : '\x00' ∉ path.toList) (taken : setting.disk path = none)
    {notes : List Midi.Note}
    (placed : Recorder.Placed (.whole n) (.real 0)
      ((cues.map (·.note n)).filter Recorder.inRange) notes) :
    (render setting text path n transposition).Writes path notes := by
  obtain ⟨beat, bytes, made, file⟩ :=
    Recorder.bytes_cues rate (Music.head_cues cued (musicOf_laid found).2) placed
  refine ⟨beat, bytes, ?_, file⟩
  rw [render, found]
  exact save_saved ((recording_cues cued rate).trans made) plain taken

/-- At every tempo that can be asked for, as many notes are written as at the reference tempo, in
the same order and beside them. At tempos that are a power of two times sixty they are the same. -/
theorem render_beside (setting : Setting) {text path : String} {transposition : Transposition}
    {tempo : Int} (some : Shorthand.accepted text ≠ []) (small : Small transposition)
    (plain : '\x00' ∉ path.toList) (taken : setting.disk path = none) (low : 20 ≤ tempo)
    (high : tempo ≤ 300) :
    ∃ notes references, (render setting text path tempo transposition).Writes path notes ∧
      (render setting text path 120 transposition).Writes path references ∧
      List.Forall₂ Recorder.Beside notes references ∧
      (tempo = 30 ∨ tempo = 60 ∨ tempo = 120 ∨ tempo = 240 → notes = references) := by
  obtain ⟨n, rfl⟩ := Int.eq_ofNat_of_zero_le (by omega : 0 ≤ tempo)
  have rate : Recorder.Rate n := ⟨by omega, by omega⟩
  rcases musicOf_cases setting text small with
    ⟨none, _⟩ | ⟨_, music, said, found, _, single⟩
  · exact absurd none some
  · obtain ⟨cues, cued⟩ := Music.exists_cues single (musicOf_laid found).1
    obtain ⟨notes, references, placed, placed', beside, even⟩ := Recorder.placed_beside rate cues
    refine ⟨notes, references, render_writes found cued rate plain taken placed,
      render_writes found cued ⟨by decide, by decide⟩ plain taken placed', beside,
      fun here => even ?_⟩
    simp only [Recorder.evenTempos, List.mem_cons, List.not_mem_nil, or_false]
    omega

/-- At a tempo that is no power of two times sixty, transposed by chance. -/
theorem render_beside_slow : ∃ notes references : List Midi.Note,
    (render ⟨true, fun _ => none, []⟩ "c4,4n e16t" "x.mid" 22 .random).Writes "x.mid" notes ∧
      (render ⟨true, fun _ => none, []⟩ "c4,4n e16t" "x.mid" 120 .random).Writes "x.mid"
        references ∧ List.Forall₂ Recorder.Beside notes references := by
  have some : Shorthand.accepted "c4,4n e16t" ≠ [] := by decide
  have chance : readTransposition "random" = .ok .random := rfl
  have plain : '\x00' ∉ "x.mid".toList := by decide
  have low : (20 : Int) ≤ 22 := by decide
  obtain ⟨notes, references, written, reference, beside, _⟩ :=
    render_beside ⟨true, fun _ => none, []⟩ some (readTransposition_small chance) plain rfl low
      (by decide)
  exact ⟨notes, references, written, reference, beside⟩

/-- A quarter note loses a tick. -/
theorem render_tick_lost :
    let run (tempo : Int) := render ⟨false, fun _ => none, []⟩ "c4,4n" "x.mid" tempo (.semitones 0)
    (run 22).Writes "x.mid" [⟨60, 127, 0, 959⟩] ∧ (run 120).Writes "x.mid" [⟨60, 127, 0, 960⟩] ∧
      ¬ ∃ notes, (run 22).Writes "x.mid" notes ∧ (run 120).Writes "x.mid" notes := by
  intro run
  have quarter : ∃ said, musicOf ⟨false, fun _ => none, []⟩ "c4,4n" (.semitones 0) =
      .ok ([⟨.real 0, .single "c4", .code "4n"⟩], said) := by
    obtain ⟨music, compiled, laid, _⟩ := Shorthand.compile_ok "c4,4n"
    have same : Shorthand.layOut Duration.referenceTempo 0 (Shorthand.resolved "c4,4n") =
        .ok [⟨.real 0, .single "c4", .code "4n"⟩] := eq_ok_of_toOption (by decide +kernel)
    obtain rfl := Except.ok.inj (same.symm.trans laid)
    unfold musicOf
    rw [compiled]
    exact ⟨_, rfl⟩
  obtain ⟨said, found⟩ := quarter
  have writes {tempo : Int} {note : Midi.Note} (beat : ℕ) (fits : beat < 0x100000000)
      (recorded : (recording [⟨.real 0, .single "c4", .code "4n"⟩] (.whole tempo)
        Stage.initial).1.toOption = (Midi.fileBytes beat
          (Midi.noteTrack Recorder.trackName.toUTF8.toList 0 [note])).toOption) :
      (run tempo).Writes "x.mid" [note] := by
    obtain ⟨bytes, file⟩ := Recorder.fileBytes_ok fits
      (Midi.noteTrack Recorder.trackName.toUTF8.toList 0 [note])
    refine ⟨beat, bytes, ?_, file⟩
    rw [file] at recorded
    change (render _ _ _ _ _).saved = _
    rw [render, found]
    exact save_saved (eq_ok_of_toOption recorded) (by decide) rfl
  have slow : (run 22).Writes "x.mid" [⟨60, 127, 0, 959⟩] :=
    writes 2727272 (by decide) (by decide +kernel)
  have fast : (run 120).Writes "x.mid" [⟨60, 127, 0, 960⟩] :=
    writes 500000 (by decide) (by decide +kernel)
  refine ⟨slow, fast, ?_⟩
  rintro ⟨notes, slow', fast'⟩
  exact absurd ((slow.track slow').trans (fast'.track fast)) (by decide +kernel)

end CommandLine
end Solfege
