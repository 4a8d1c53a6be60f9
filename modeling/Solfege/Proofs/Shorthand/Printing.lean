import Solfege.CommandLine.Program
import Solfege.Proofs.Shorthand.Compile

/-! Music as shorthand. Printed with every octave and duration written out, music compiles to
itself, and a list of notes of the grammar compiles to what it resolves to. -/
namespace Solfege

def Event.printed (event : Event) : Except Fault String :=
  return CommandLine.soundText event.sound ++ "," ++ (← CommandLine.lengthText event.length)

def Music.printed (music : Music) : Except Fault String :=
  return " ".intercalate (← music.mapM Event.printed)

instance (note : PartialNote) : Decidable note.Grammatical :=
  decidable_of_iff (Shorthand.pitchClasses.elem note.pitchClass.toList = true ∧
      (note.octave.all fun octave => Shorthand.octaves.elem octave.toList) = true ∧
      (note.duration.all fun duration => Shorthand.durations.elem duration.toList) = true) <| by
    simp only [List.elem_eq_mem, decide_eq_true_eq, Option.all_eq_true]
    exact ⟨fun ⟨pitchClass, octave, duration⟩ => ⟨pitchClass, octave, duration⟩,
      fun ⟨pitchClass, octave, duration⟩ => ⟨pitchClass, octave, duration⟩⟩

namespace ResolvedNote
variable {note : ResolvedNote}

/-- A note with everything written out. -/
def full (note : ResolvedNote) : PartialNote :=
  ⟨note.pitchClass, some note.octave, some note.duration⟩

theorem Grammatical.full (valid : note.Grammatical) : note.full.Grammatical := by
  constructor
  · exact valid.pitchClass
  · rintro octave ⟨⟩
    exact valid.octave
  · rintro duration ⟨⟩
    exact valid.duration

end ResolvedNote

theorem Event.Sounds.printed {event : Event} {note : ResolvedNote} (sounds : event.Sounds note) :
    event.printed = .ok note.full.written := by
  rw [Event.printed, sounds.sound, sounds.length]
  rfl

namespace Shorthand

theorem printed_words {music : Music} {notes : List ResolvedNote}
    (sounds : List.Forall₂ Event.Sounds music notes) :
    music.printed =
      .ok (" ".intercalate ((notes.map ResolvedNote.full).map PartialNote.written)) := by
  have words : music.mapM Event.printed =
      .ok ((notes.map ResolvedNote.full).map PartialNote.written) := by
    rw [List.map_map, mapM_eq_ok, List.forall₂_map_right_iff]
    exact sounds.imp fun _ _ sounds => sounds.printed
  rw [Music.printed, words]
  rfl

theorem tokens_written {notes : List PartialNote} (valid : ∀ note ∈ notes, note.Grammatical) :
    tokens (" ".intercalate (notes.map PartialNote.written)) = notes.map PartialNote.written := by
  apply tokens_words
  intro word here
  obtain ⟨note, member, rfl⟩ := List.mem_map.mp here
  exact (valid note member).isToken_written

theorem accepted_written {notes : List PartialNote} (valid : ∀ note ∈ notes, note.Grammatical) :
    accepted (" ".intercalate (notes.map PartialNote.written)) = notes := by
  rw [accepted_eq, tokens_written valid, List.filterMap_map]
  calc notes.filterMap (note? ∘ PartialNote.written)
      = notes.filterMap some :=
        List.filterMap_congr fun note here => (valid note here).note?_written
    _ = notes := List.filterMap_some

theorem rejected_written {notes : List PartialNote} (valid : ∀ note ∈ notes, note.Grammatical) :
    rejected (" ".intercalate (notes.map PartialNote.written)) = [] := by
  rw [rejected_eq, tokens_written valid]
  apply List.filter_eq_nil_iff.mpr
  intro word here
  obtain ⟨note, member, rfl⟩ := List.mem_map.mp here
  rw [(valid note member).note?_written]
  exact Bool.false_ne_true

/-- Where everything is written out nothing is carried. -/
theorem resolve_full {notes : List ResolvedNote} (valid : ∀ note ∈ notes, note.Grammatical)
    (carry : Carry) : resolve carry (notes.map ResolvedNote.full) = notes := by
  have octaves : ∀ octave ∈ octaves, octave ≠ "".toList := by decide
  have durations : ∀ code ∈ durations, code ≠ "".toList := by decide
  induction notes generalizing carry with
  | nil => rfl
  | cons note rest ih =>
    have first := valid note (by simp)
    have octave : note.octave ≠ "" := fun same => octaves _ first.octave (congrArg _ same)
    have duration : note.duration ≠ "" := fun same => durations _ first.duration (congrArg _ same)
    have step : (resolveStep carry note.full).1 = note := by
      simp [resolveStep, ResolvedNote.full, orCarried, octave, duration]
    rw [List.map_cons, resolve]
    dsimp only
    rw [step, ih fun note here => valid note (List.mem_cons_of_mem _ here)]

/-- Compiling is a retraction onto printed music, and printed notes of the grammar compile to what
they resolve to; nothing is left out of either. -/
theorem compile_printed (text : String) :
    (∃ compiled words again, compile text = .ok compiled ∧ compiled.music.printed = .ok words ∧
      compile words = .ok again ∧ again.music = compiled.music ∧ again.warning? = none) ∧
    ∀ notes : List PartialNote, (∀ note ∈ notes, note.Grammatical) → ∃ compiled,
      compile (" ".intercalate (notes.map PartialNote.written)) = .ok compiled ∧
      layOut Duration.referenceTempo 0 (resolve .initial notes) = .ok compiled.music ∧
      compiled.warning? = none := by
  have printed {notes : List PartialNote} {music : Music}
      (valid : ∀ note ∈ notes, note.Grammatical)
      (laid : layOut Duration.referenceTempo 0 (resolve .initial notes) = .ok music) :
      compile (" ".intercalate (notes.map PartialNote.written)) = .ok ⟨music, []⟩ := by
    rw [← accepted_written valid] at laid
    have compiled := compile_of_layOut laid
    rwa [rejected_written valid] at compiled
  constructor
  · obtain ⟨music, compiled, laid, sounds⟩ := compile_ok text
    have valid := resolved_grammatical text
    have full : ∀ note ∈ (resolved text).map ResolvedNote.full, note.Grammatical := by
      intro note here
      obtain ⟨resolved, member, rfl⟩ := List.mem_map.mp here
      exact (valid resolved member).full
    rw [← resolve_full valid .initial] at laid
    exact ⟨_, _, ⟨music, []⟩, compiled, printed_words sounds, printed full laid, rfl, rfl⟩
  · intro notes valid
    obtain ⟨music, laid, _⟩ :=
      layOut_reference (resolve_grammatical valid Carry.initial_grammatical)
    exact ⟨_, printed valid laid, laid, rfl⟩

theorem compile_printed_ambiguous : ∃ compiled,
    compile "bb10,16n. c, B1,2n" = .ok compiled ∧
      layOut Duration.referenceTempo 0 (resolve .initial [⟨"bb", some "10", some "16n."⟩,
        ⟨"c", none, none⟩, ⟨"B", some "1", some "2n"⟩]) = .ok compiled.music ∧
      compiled.warning? = none :=
  (compile_printed "").2 [⟨"bb", some "10", some "16n."⟩, ⟨"c", none, none⟩,
    ⟨"B", some "1", some "2n"⟩] (by decide)

end Shorthand
end Solfege
