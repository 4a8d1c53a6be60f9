import Solfege.Shorthand.Grammar

/-! Octave and duration carry over from note to note: what a note leaves out is taken from the
last note that wrote it, and at the start from the octave 3 and the quarter note. Something
written as empty counts as left out. -/
namespace Solfege

/-- A note with octave and duration filled in. -/
structure ResolvedNote where
  pitchClass : String
  octave : String
  duration : String
deriving DecidableEq

namespace ResolvedNote

def pitchName (note : ResolvedNote) : String := note.pitchClass ++ note.octave

end ResolvedNote

namespace Shorthand

/-- What one note hands to the next. Neither part is empty. -/
structure Carry where
  octave : String
  duration : String
  octave_ne : octave ≠ ""
  duration_ne : duration ≠ ""

namespace Carry

/-- The carry before the first note. -/
def initial : Carry := ⟨"3", "4n", by decide, by decide⟩

def of (octave duration : String) : Except Fault Carry :=
  if h : octave ≠ "" ∧ duration ≠ "" then return ⟨octave, duration, h.1, h.2⟩
  else throw .emptyCarry

end Carry

/-- What is written, if it is not empty, and what is carried otherwise. -/
def orCarried (written : Option String) (carried : String) : String :=
  match written with
  | some text => if text = "" then carried else text
  | none => carried

theorem orCarried_ne (written : Option String) {carried : String} (h : carried ≠ "") :
    orCarried written carried ≠ "" := by
  unfold orCarried
  split
  · split <;> assumption
  · exact h

/-- Fills in one note and gives the carry for the next. -/
def resolveStep (carry : Carry) (note : PartialNote) : ResolvedNote × Carry :=
  let octave := orCarried note.octave carry.octave
  let duration := orCarried note.duration carry.duration
  (⟨note.pitchClass, octave, duration⟩,
    ⟨octave, duration, orCarried_ne _ carry.octave_ne, orCarried_ne _ carry.duration_ne⟩)

def resolve (carry : Carry) : List PartialNote → List ResolvedNote
  | [] => []
  | note :: rest =>
    let (resolved, next) := resolveStep carry note
    resolved :: resolve next rest

end Shorthand
end Solfege
