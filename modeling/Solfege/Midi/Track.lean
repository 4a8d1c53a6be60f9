/-! The events of a note track. They are ordered by tick, then names and programs before notes and
note-offs before note-ons, and otherwise as they were added. -/
namespace Solfege.Midi

inductive Message
  | trackName (name : List UInt8)
  | program (number : UInt8)
  | noteOff (pitch volume : UInt8)
  | noteOn (pitch volume : UInt8)
deriving DecidableEq

def Message.rank : Message → Nat
  | .trackName _ => 0
  | .program _ => 1
  | .noteOff .. => 2
  | .noteOn .. => 3

structure Timed where
  tick : Int
  message : Message
deriving DecidableEq

/-- Whether one event may stand before another. -/
def Timed.before (x y : Timed) : Bool :=
  x.tick < y.tick || (x.tick == y.tick && x.message.rank ≤ y.message.rank)

def place (x : Timed) : List Timed → List Timed
  | [] => [x]
  | y :: rest => if x.before y then x :: y :: rest else y :: place x rest

/-- The events in order; events that may stand either way keep the order they are given in. -/
def inOrder : List Timed → List Timed
  | [] => []
  | x :: rest => place x (inOrder rest)

structure Note where
  pitch : UInt8
  volume : UInt8
  tick : Int
  length : Int
deriving DecidableEq

def Note.messages (note : Note) : List Timed :=
  [⟨note.tick, .noteOn note.pitch note.volume⟩,
    ⟨note.tick + note.length, .noteOff note.pitch note.volume⟩]

/-- The events of a track of notes played with a program. -/
def noteTrack (name : List UInt8) (program : UInt8) (notes : List Note) : List Timed :=
  inOrder (⟨0, .trackName name⟩ :: ⟨0, .program program⟩ :: notes.flatMap Note.messages)

end Solfege.Midi
