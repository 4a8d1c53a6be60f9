import Solfege.Proofs.Shorthand.Seam
import Solfege.Proofs.Shorthand.Warning

/-! What notes leave out is what was written last. The octave and the duration are carried on apart
from each other, and neither ever becomes empty, so a check of what is carried always passes. -/
namespace Solfege.Shorthand
variable {octave duration : String} {carry : Carry}

/-- Only what is not empty may be carried. -/
theorem Carry.of_eq_ok :
    Carry.of octave duration = .ok carry ↔ carry.octave = octave ∧ carry.duration = duration := by
  obtain ⟨carriedOctave, carriedDuration, octave_ne, duration_ne⟩ := carry
  unfold Carry.of
  constructor
  · intro made
    split at made
    · cases made
      exact ⟨rfl, rfl⟩
    · cases made
  · rintro ⟨rfl, rfl⟩
    exact dif_pos ⟨octave_ne, duration_ne⟩

/-- Fills in notes one by one with a check of all that is carried to the next, and gives the carry
behind the last of them. -/
def resolveChecked (carry : Carry) : List PartialNote → Except Fault (List ResolvedNote × Carry)
  | [] => return ([], carry)
  | note :: rest => do
    let octave := orCarried note.octave carry.octave
    let duration := orCarried note.duration carry.duration
    let next ← Carry.of octave duration
    let (others, last) ← resolveChecked next rest
    return (⟨note.pitchClass, octave, duration⟩ :: others, last)

/-- No check fails on the way. -/
theorem resolveChecked_eq (carry : Carry) (notes : List PartialNote) :
    resolveChecked carry notes = .ok (resolve carry notes, leave carry notes) := by
  induction notes generalizing carry with
  | nil => rfl
  | cons note rest ih =>
    have passes : Carry.of (orCarried note.octave carry.octave)
        (orCarried note.duration carry.duration) = .ok (resolveStep carry note).2 :=
      Carry.of_eq_ok.mpr ⟨rfl, rfl⟩
    have later := ih (resolveStep carry note).2
    exact bind_eq_ok.mpr ⟨_, passes, bind_eq_ok.mpr ⟨_, later, rfl⟩⟩

theorem resolve_pitchClass (carry : Carry) (notes : List PartialNote) :
    (resolve carry notes).map (·.pitchClass) = notes.map (·.pitchClass) := by
  induction notes generalizing carry with
  | nil => rfl
  | cons note rest ih => exact congrArg (note.pitchClass :: ·) (ih _)

theorem resolve_ne (carry : Carry) (notes : List PartialNote) :
    ∀ note ∈ resolve carry notes, note.octave ≠ "" ∧ note.duration ≠ "" := by
  induction notes generalizing carry with
  | nil => simp [resolve]
  | cons first rest ih =>
    intro note here
    rcases List.mem_cons.mp here with rfl | later
    · exact ⟨orCarried_ne _ carry.octave_ne, orCarried_ne _ carry.duration_ne⟩
    · exact ih _ note later

/-- Notes are filled in one for one and in order. Each has the octave that was written last by its
place, if any was before it or in it, and apart from that the duration that was written last; at the
start these are what is carried in, or the octave 3 and the quarter note. What is carried is never
empty, and more notes go on from what the notes before them leave. -/
theorem resolve_written (initial : Option Carry) (notes more : List PartialNote) :
    let carry := initial.getD .initial
    (resolve carry notes).map (·.pitchClass) = notes.map (·.pitchClass) ∧
    (∀ (k : Nat) (note : ResolvedNote), (resolve carry notes)[k]? = some note →
      note.octave = (lastWritten ((notes.take (k + 1)).map (·.octave))).getD
        ((initial.map (·.octave)).getD "3") ∧
      note.duration = (lastWritten ((notes.take (k + 1)).map (·.duration))).getD
        ((initial.map (·.duration)).getD "4n") ∧
      note.octave ≠ "" ∧ note.duration ≠ "") ∧
    resolveChecked carry notes = .ok (resolve carry notes, leave carry notes) ∧
    resolve carry (notes ++ more) =
      resolve carry notes ++ resolve (leave carry notes) more := by
  intro carry
  have octave : carry.octave = (initial.map (·.octave)).getD "3" := by cases initial <;> rfl
  have duration : carry.duration = (initial.map (·.duration)).getD "4n" := by cases initial <;> rfl
  refine ⟨resolve_pitchClass carry notes, fun k note here => ?_, resolveChecked_eq carry notes,
    resolve_append carry notes more⟩
  obtain ⟨octave_ne, duration_ne⟩ := resolve_ne carry notes note (List.mem_of_getElem? here)
  have filled := resolve_getElem? carry notes k
  rw [here, octave, duration] at filled
  obtain ⟨_, _, rfl⟩ := Option.map_eq_some_iff.mp filled.symm
  exact ⟨rfl, rfl, octave_ne, duration_ne⟩

/-- An octave that is written as empty, and a duration that is not written at all, are carried over
from notes of which each wrote only the other. -/
theorem resolve_written_apart :
    let notes : List PartialNote := [⟨"c", some "5", none⟩, ⟨"e", none, some "8n"⟩,
      ⟨"g", some "", none⟩]
    (resolve .initial notes)[2]?.map (fun note => (note.octave, note.duration)) =
      some ("5", "8n") := by
  intro notes
  obtain ⟨note, here⟩ : ∃ note, (resolve .initial notes)[2]? = some note := ⟨_, rfl⟩
  obtain ⟨octave, duration, _⟩ := (resolve_written none notes []).2.1 2 note here
  rw [here, Option.map_some, octave, duration]
  rfl

end Solfege.Shorthand
