import Solfege.Proofs.Music.Transposing
import Solfege.Proofs.Playback.Offline
import Solfege.Proofs.Shorthand.Compile
import Solfege.Proofs.Text.Plain

/-! Compiled music can be played. Its names are those of pitches, its lengths are known at every
tempo, and so it can be transposed, measured, rendered and scheduled. -/
namespace Solfege

/-- A pitch class is that of a letter with an accidental. -/
def Shorthand.Spells (pitchClass : String) (letter : Letter) (accidental : Accidental) : Prop :=
  ∃ first, pitchClass.toList = first :: accidental.sign ∧ Letter.ofChar? first = some letter

/-- An event sounds the pitch class of a token at the octave carried to it, and has a length at
every tempo. -/
structure Event.Voices (event : Event) (token : PartialNote) (note : ResolvedNote) : Prop where
  pitch : ∃ name letter accidental, ∃ octave : Int, event.sound = .single name ∧
    Shorthand.Spells token.pitchClass letter accidental ∧ note.octave = toString octave ∧
    Pitch.numberOf name = .ok (12 * (octave + 1) + letter.semitones + accidental.semitones)
  length : ∀ tempo, 0 < tempo → ∃ seconds, event.length.toSeconds (.real tempo) = .ok seconds

/-- Music that can be transposed by any number of semitones for which all its pitches have names,
and measured, rendered and scheduled at any tempo. -/
structure Music.Fit (music : Music) : Prop where
  transposes : ∀ semitones, (∃ moved, music.transpose semitones = .ok moved) ↔
    ∀ event ∈ music, ∀ name ∈ event.sound.names, ∀ number, Pitch.numberOf name = .ok number →
      Pitch.Nameable (number + semitones)
  measures : ∀ tempo, 0 < tempo → ∃ length, music.seconds (.real tempo) = .ok length
  renders : ∀ tempo, 0 < tempo → ∀ start e (s : Stage), e < s.engines.length →
    ∃ length t, Act.render (some e) music (.real start) (.real tempo) s = (.ok length, t)
  schedules : ∀ tempo, 0 < tempo → ∀ perform engine callback (s : Stage),
    ∃ owner t, Act.schedule perform .queueing engine callback music (.real tempo) s = (.ok owner, t)

/-- An event of a single plain name, whose number lies between two bounds, and a duration of the
grammar. -/
structure Event.Single (low high : Int) (event : Event) : Prop where
  time : ∃ x, event.time = .real x
  sound : ∃ name number, event.sound = .single name ∧ Text.Plain name.toList ∧
    Pitch.numberOf name = .ok number ∧ low ≤ number ∧ number ≤ high
  length : ∃ code, event.length = .code code ∧ code.toList ∈ Shorthand.durations

namespace Event.Single
variable {event : Event} {low high : Int} {tempo : Binary64}

theorem widen {least most : Int} (single : event.Single low high) (above : least ≤ low)
    (below : high ≤ most) : event.Single least most := by
  obtain ⟨name, number, sound, plain, named, above', below'⟩ := single.sound
  exact ⟨single.time, ⟨name, number, sound, plain, named, by omega, by omega⟩, single.length⟩

theorem pitches (single : event.Single low high) :
    ∀ name ∈ event.sound.names, ∃ number, Pitch.numberOf name = .ok number := by
  obtain ⟨name, number, sound, _, named, _⟩ := single.sound
  intro other here
  rw [sound, Sound.names, List.mem_singleton] at here
  exact ⟨number, here ▸ named⟩

theorem toSeconds (single : event.Single low high) (positive : 0 < tempo) :
    ∃ seconds, event.length.toSeconds (.real tempo) = .ok seconds := by
  obtain ⟨code, length, valid⟩ := single.length
  obtain ⟨quarters, seconds⟩ := Duration.codeSeconds_grammar valid
  rw [length]
  exact ⟨_, seconds tempo positive⟩

theorem timed (single : event.Single low high) (scale : Binary64) (positive : 0 < tempo) :
    event.Timed scale (.real tempo) := by
  constructor
  · obtain ⟨x, time⟩ := single.time
    rw [Event.delay, time]
    exact ⟨x * scale, rfl⟩
  · obtain ⟨code, length, valid⟩ := single.length
    obtain ⟨quarters, seconds⟩ := Duration.codeSeconds_grammar valid
    rw [Event.seconds, length]
    exact ⟨_, seconds tempo positive⟩

/-- Transposing moves the number and nothing else. -/
theorem moved {semitones : Int} (single : event.Single low high)
    (moves : ∀ name ∈ event.sound.names, Pitch.Moves semitones name) :
    (event.moved semitones).Single (low + semitones) (high + semitones) := by
  obtain ⟨name, number, sound, _, named, above, below⟩ := single.sound
  obtain ⟨other, named', nameable⟩ := moves name (sound ▸ List.mem_singleton_self name)
  obtain rfl := Except.ok.inj (named.symm.trans named')
  have later : (event.moved semitones).sound = .single (Pitch.spell (number + semitones)) := by
    rw [Event.moved, sound, Sound.moved, Pitch.movedName_eq named]
  exact ⟨single.time, ⟨_, _, later, Pitch.plain_spell _, Pitch.numberOf_spell nameable, by omega,
    by omega⟩, single.length⟩

end Event.Single

namespace Music
variable {music : Music} {low high : Int}

theorem transpose_single (single : ∀ event ∈ music, event.Single low high) {semitones : Int}
    (nameable : ∀ n, low ≤ n → n ≤ high → Pitch.Nameable (n + semitones)) :
    ∃ moved, music.transpose semitones = .ok moved ∧ moved.length = music.length ∧
      ∀ event ∈ moved, event.Single (low + semitones) (high + semitones) := by
  have movable : music.Movable semitones := by
    intro event here name inside
    obtain ⟨other, number, sound, _, named, above, below⟩ := (single event here).sound
    rw [sound, Sound.names, List.mem_singleton] at inside
    exact ⟨number, inside ▸ named, nameable number above below⟩
  refine ⟨_, transpose_movable movable, List.length_map _, fun event here => ?_⟩
  obtain ⟨plain, inside, rfl⟩ := List.mem_map.mp here
  exact (single plain inside).moved (movable plain inside)

theorem fit_of_single (single : ∀ event ∈ music, event.Single low high) : music.Fit := by
  have timed (tempo : Binary64) (positive : 0 < tempo) :
      ∀ event ∈ music, event.Timed (120 / tempo) (.real tempo) :=
    fun event here => (single event here).timed _ positive
  constructor
  · intro semitones
    rw [transpose_ok_iff]
    exact movable_iff fun event here => (single event here).pitches
  · intro tempo positive
    exact ⟨_, seconds_eq (Duration.tempoScale_real positive) (timed tempo positive)⟩
  · intro tempo positive start e s there
    have sendable : ∀ event ∈ music,
        event.Sendable (.real start) start (120 / tempo) (.real tempo) :=
      fun event here => ⟨rfl, timed tempo positive event here, (single event here).pitches⟩
    obtain ⟨told, renders⟩ := Act.render_sends (List.getElem?_eq_getElem there)
      (Duration.tempoScale_real positive) sendable
    exact ⟨_, _, renders⟩
  · intro tempo positive perform engine callback s
    have later : Facility.queueing ≠ .immediate := by decide
    obtain ⟨t, started, _⟩ := Act.schedule_timed later (by decide)
      (Duration.tempoScale_real positive) (timed tempo positive) engine callback s
    exact ⟨_, t, started perform⟩

end Music

namespace Shorthand

/-- The number of a resolved note follows from its pitch class and its octave. -/
theorem number_resolved {note : ResolvedNote} (valid : note.Grammatical) :
    ∃ letter accidental, ∃ octave : Int, Spells note.pitchClass letter accidental ∧
      note.octave = toString octave ∧ -4 ≤ octave ∧ octave ≤ 11 ∧
      Pitch.numberOf note.pitchName =
        .ok (12 * (octave + 1) + letter.semitones + accidental.semitones) := by
  obtain ⟨first, known, accidental, spelled⟩ := mem_pitchClasses.mp valid.pitchClass
  obtain ⟨letter, found⟩ := Option.isSome_iff_exists.mp (Letter.mem_chars.mp known)
  obtain ⟨octave, written, above, below⟩ := mem_octaves valid.octave
  have name : note.pitchName.toList = first :: (accidental.sign ++ (toString octave).toList) := by
    rw [ResolvedNote.pitchName, String.toList_append, spelled, written]
    rfl
  have writable : Numeral.Writable octave := .of_few (k := 2) (by omega) (by decide)
  exact ⟨letter, accidental, octave, ⟨first, spelled, found⟩, String.toList_inj.mp written, above,
    below, Pitch.numberOf_spelled accidental writable found name⟩

theorem plain_pitchName {note : ResolvedNote} (valid : note.Grammatical) :
    Text.Plain note.pitchName.toList := by
  have classes : ∀ text ∈ pitchClasses, Text.Plain text := by decide
  have places : ∀ text ∈ octaves, Text.Plain text := by decide
  exact .join (classes _ valid.pitchClass) (places _ valid.octave)

theorem sounds_single {event : Event} {note : ResolvedNote} (sounds : event.Sounds note)
    (valid : note.Grammatical) : event.Single (-38) 157 := by
  obtain ⟨letter, accidental, octave, _, _, above, below, named⟩ := number_resolved valid
  have letters : 0 ≤ letter.semitones ∧ letter.semitones ≤ 11 := by cases letter <;> decide
  have signs : -2 ≤ accidental.semitones ∧ accidental.semitones ≤ 2 := by
    cases accidental <;> decide
  exact ⟨sounds.time, ⟨_, _, sounds.sound, plain_pitchName valid, named, by omega, by omega⟩,
    ⟨_, sounds.length, valid.duration⟩⟩

theorem sounds_voices {event : Event} {token : PartialNote} {note : ResolvedNote}
    (sounds : event.Sounds note) (valid : note.Grammatical)
    (same : note.pitchClass = token.pitchClass) : event.Voices token note := by
  obtain ⟨letter, accidental, octave, spelled, written, _, _, named⟩ := number_resolved valid
  constructor
  · rw [same] at spelled
    exact ⟨_, letter, accidental, octave, sounds.sound, spelled, written, named⟩
  · intro tempo positive
    exact (sounds_single sounds valid).toSeconds positive

/-- Event by event, music voices the notes that it was laid out from. -/
theorem voices_resolve {notes : List PartialNote} {carry : Carry} {music : Music}
    (valid : ∀ note ∈ resolve carry notes, note.Grammatical)
    (sounds : List.Forall₂ Event.Sounds music (resolve carry notes)) :
    List.Forall₂ (fun event pair => event.Voices pair.1 pair.2) music
      (notes.zip (resolve carry notes)) := by
  induction notes generalizing carry music with
  | nil =>
    cases sounds
    exact .nil
  | cons note rest ih =>
    cases sounds with
    | cons first others =>
      have later := ih (fun note here => valid note (List.mem_cons_of_mem _ here)) others
      exact .cons (sounds_voices first (valid _ (List.mem_cons_self ..)) rfl) later

theorem single_of_sounds {music : Music} {notes : List ResolvedNote}
    (sounds : List.Forall₂ Event.Sounds music notes) (valid : ∀ note ∈ notes, note.Grammatical) :
    ∀ event ∈ music, event.Single (-38) 157 := by
  induction sounds with
  | nil => simp
  | cons first _ ih =>
    have others := ih fun note here => valid note (List.mem_cons_of_mem _ here)
    exact List.forall_mem_cons.mpr ⟨sounds_single first (valid _ (by simp)), others⟩

end Shorthand
end Solfege
