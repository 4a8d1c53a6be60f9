import Solfege.Fault
import Solfege.Midi.Track

/-! Standard MIDI files of three tracks: the tempo, an empty track, and the notes. Every event is
preceded by its distance from the event before it. -/
namespace Solfege.Midi

def ticksPerBeat : Nat := 960

/-- A number in a set count of bytes, the high ones first. -/
def bigEndian : Nat → Nat → List UInt8
  | 0, _ => []
  | width + 1, n => bigEndian width (n / 256) ++ [UInt8.ofNat n]

/-- The groups of seven bits of a number, the high ones first, all but the last marked as
continued. -/
def sevenBitGroups (n : Nat) : List UInt8 :=
  (List.range (n.log2 / 7)).reverse.map (fun i => UInt8.ofNat (128 + n >>> (7 * (i + 1)) % 128)) ++
    [UInt8.ofNat (n % 128)]

/-- A distance as a quantity of variable length. A negative one is not written at all. -/
def quantity (n : Int) : List UInt8 := if n < 0 then [] else sevenBitGroups n.toNat

def Message.bytes : Message → List UInt8
  | .trackName name => [0xff, 0x03] ++ sevenBitGroups name.length ++ name
  | .program number => [0xc0, number]
  | .noteOff pitch volume => [0x80, pitch, volume]
  | .noteOn pitch volume => [0x90, pitch, volume]

/-- Events one after the other, from the tick of the event before them. -/
def eventBytes (previous : Int) : List Timed → List UInt8
  | [] => []
  | event :: rest =>
    quantity (event.tick - previous) ++ event.message.bytes ++ eventBytes event.tick rest

def endOfTrack : List UInt8 := [0x00, 0xff, 0x2f, 0x00]

/-- A track with its length in front. -/
def chunk (content : List UInt8) : List UInt8 :=
  let data := content ++ endOfTrack
  [0x4d, 0x54, 0x72, 0x6b] ++ bigEndian 4 data.length ++ data

/-- The tempo event: microseconds to a beat, a number of 32 bits of which the low 24 are kept. -/
def tempoEvent (microseconds : Int) : Except Fault (List UInt8) :=
  if microseconds < 0 ∨ 0x10000000000000000 ≤ microseconds then throw .fieldRange
  else if 0x100000000 ≤ microseconds then throw .fieldWidth
  else return [0x00, 0xff, 0x51, 0x03] ++ bigEndian 3 microseconds.toNat

/-- A whole file: format 1, three tracks. -/
def fileBytes (microseconds : Int) (events : List Timed) : Except Fault (List UInt8) := do
  let tempo ← tempoEvent microseconds
  return [0x4d, 0x54, 0x68, 0x64] ++ bigEndian 4 6 ++ bigEndian 2 1 ++ bigEndian 2 3 ++
    bigEndian 2 ticksPerBeat ++ chunk tempo ++ chunk [] ++ chunk (eventBytes 0 events)

end Solfege.Midi
