import Solfege.Proofs.Music.Transposing

/-! Transposing is an action of the whole numbers, as far as names reach. What has been transposed
once goes on as if by the sum, and what is taken back is the music as it is transposed by nothing,
which spells every pitch anew and no other way a second time. -/
namespace Solfege

theorem Pitch.transposeName_movedName {name : String} {a : Int} (moves : Moves a name) (b : Int) :
    transposeName b (movedName a name) = transposeName (a + b) name := by
  obtain ⟨n, named, nameable⟩ := moves
  rw [transposeName_eq (numberOf_movedName named nameable), transposeName_eq named, Int.add_assoc]

theorem Sound.transpose_again {sound : Sound} {a : Int}
    (moves : ∀ name ∈ sound.names, Pitch.Moves a name) (b : Int) :
    (sound.moved a).transpose b = sound.transpose (a + b) := by
  cases sound with
  | single name =>
    rw [moved, transpose, transpose, Pitch.transposeName_movedName (moves name List.mem_cons_self)]
  | group names =>
    have each : names.mapM (Pitch.transposeName b ∘ Pitch.movedName a) =
        names.mapM (Pitch.transposeName (a + b)) :=
      mapM_congr fun name here => Pitch.transposeName_movedName (moves name here) b
    rw [moved, transpose, transpose, List.mapM_map, each]

/-- An event that differs from another in nothing but that its names are those of pitches some
semitones away, one for one. -/
structure Event.Shifted (semitones : Int) (event later : Event) : Prop where
  time : later.time = event.time
  length : later.length = event.length
  group : later.sound.isGroup = event.sound.isGroup
  names : List.Forall₂ (fun name other => ∃ n, Pitch.numberOf name = .ok n ∧
    Pitch.numberOf other = .ok (n + semitones)) event.sound.names later.sound.names

theorem Event.shifted_moved {event : Event} {semitones : Int}
    (moves : ∀ name ∈ event.sound.names, Pitch.Moves semitones name) :
    event.Shifted semitones (event.moved semitones) := by
  refine ⟨rfl, rfl, Sound.moved_isGroup semitones event.sound, ?_⟩
  rw [Event.moved, Sound.moved_names]
  refine List.forall₂_map_right_iff.mpr (List.forall₂_same.mpr fun name here => ?_)
  obtain ⟨n, named, nameable⟩ := moves name here
  exact ⟨n, named, Pitch.numberOf_movedName named nameable⟩

namespace Music
variable {music shifted : Music} {a : Int}

theorem transpose_again (done : music.transpose a = .ok shifted) (b : Int) :
    shifted.transpose b = music.transpose (a + b) := by
  obtain ⟨movable, rfl⟩ := eq_moved done
  rw [moved, transpose, transpose, List.mapM_map]
  refine mapM_congr fun event here => ?_
  rw [Function.comp_apply, Event.moved, Sound.transpose_again (movable event here)]

theorem shifted_of_transpose (done : music.transpose a = .ok shifted) :
    List.Forall₂ (Event.Shifted a) music shifted := by
  obtain ⟨movable, rfl⟩ := eq_moved done
  exact List.forall₂_map_right_iff.mpr
    (List.forall₂_same.mpr fun event here => Event.shifted_moved (movable event here))

/-- Music can be transposed exactly when each of its names is that of a pitch and the pitch that far
away has a name too; otherwise the first name for which this is not so says why. Transposing moves
the number of every name by as many semitones and changes nothing else: no time, no length, neither
the number nor the order of events and names, nor what is a group. What has been transposed is
transposed further, or not, as the music is by the sum. Taken back it is the music transposed by
nothing, which is its own repetition. -/
theorem transpose_acts (music : Music) :
    (∀ a, (∃ shifted, music.transpose a = .ok shifted) ↔ music.Movable a) ∧
    (∀ a fault, music.transpose a = .error fault ↔ music.Stays a fault) ∧
    (∀ a shifted, music.transpose a = .ok shifted →
      List.Forall₂ (Event.Shifted a) music shifted ∧
      (∀ b, Music.transpose b shifted = music.transpose (a + b)) ∧
      Music.transpose (-a) shifted = music.transpose 0) ∧
    ∀ spelled, music.transpose 0 = .ok spelled → Music.transpose 0 spelled = .ok spelled := by
  refine ⟨fun _ => transpose_ok_iff, fun _ _ => transpose_eq_error,
    fun a shifted done => ⟨shifted_of_transpose done, transpose_again done, ?_⟩,
    fun spelled done => (transpose_again done 0).trans done⟩
  have back := transpose_again done (-a)
  rwa [Int.add_right_neg] at back

/-- A double flat that is moved down past its octave and back is spelled anew. -/
theorem transpose_acts_back :
    let music : Music := [⟨.whole 0, .group ["Cbb-1", "b#4"], .code "4n"⟩]
    let spelled : Music := [⟨.whole 0, .group ["A#-2", "C5"], .code "4n"⟩]
    ∃ lowered, music.transpose (-13) = .ok lowered ∧
      Music.transpose 13 lowered = .ok spelled ∧ Music.transpose 0 spelled = .ok spelled := by
  intro music spelled
  have moves : (music.transpose (-13)).toOption.isSome = true := by
    unfold music
    decide +kernel
  have anew : (music.transpose 0).toOption = some spelled := by
    unfold music spelled
    decide +kernel
  obtain ⟨lowered, moves⟩ := Option.isSome_iff_exists.mp moves
  have done := eq_ok_of_toOption moves
  have same := eq_ok_of_toOption anew
  obtain ⟨_, _, further, still⟩ := transpose_acts music
  obtain ⟨_, _, back⟩ := further (-13) lowered done
  exact ⟨lowered, done, back.trans same, still spelled same⟩

/-- The highest C that has a name is that of a pitch, and cannot be moved up. -/
theorem transpose_beyond :
    let music : Music := [⟨.whole 0, .single Pitch.highestC, .code "4n"⟩]
    music.Pitched ∧ music.transpose 12 = .error (.tooManyDigits none) := by
  intro music
  have pitched : music.Pitched :=
    List.forall_mem_singleton.mpr (List.forall_mem_singleton.mpr ⟨_, Pitch.numberOf_highestC⟩)
  exact ⟨pitched, transpose_stays rfl Pitch.highestC_stays⟩

end Music
end Solfege
