import Solfege.Numeral.Reader

/-! Pitch names and their numbers. A name is a letter, an accidental and an octave; its number
counts semitones with the C of octave -1 at zero, so that the C of octave 4 is 60. Every number
has one name spelled with naturals and sharps, unless its octave has too many digits. -/
namespace Solfege

inductive Letter
  | c | d | e | f | g | a | b
deriving DecidableEq

inductive Accidental
  | natural | doubleFlat | flat | sharp | doubleSharp
deriving DecidableEq

structure Pitch where
  letter : Letter
  accidental : Accidental
  octave : Int
deriving DecidableEq

namespace Letter

/-- Letters are read in either case. -/
def ofChar? : Char → Option Letter
  | 'c' | 'C' => some .c
  | 'd' | 'D' => some .d
  | 'e' | 'E' => some .e
  | 'f' | 'F' => some .f
  | 'g' | 'G' => some .g
  | 'a' | 'A' => some .a
  | 'b' | 'B' => some .b
  | _ => none

/-- Letters are written in capitals. -/
def toChar : Letter → Char
  | .c => 'C'
  | .d => 'D'
  | .e => 'E'
  | .f => 'F'
  | .g => 'G'
  | .a => 'A'
  | .b => 'B'

/-- Semitones above the C of the octave. -/
def semitones : Letter → Int
  | .c => 0
  | .d => 2
  | .e => 4
  | .f => 5
  | .g => 7
  | .a => 9
  | .b => 11

end Letter

namespace Accidental

def sign : Accidental → List Char
  | .natural => []
  | .doubleFlat => ['b', 'b']
  | .flat => ['b']
  | .sharp => ['#']
  | .doubleSharp => ['x']

def semitones : Accidental → Int
  | .natural => 0
  | .doubleFlat => -2
  | .flat => -1
  | .sharp => 1
  | .doubleSharp => 2

/-- The longest accidental in front of a text, and the rest. -/
def read : List Char → Accidental × List Char
  | 'b' :: 'b' :: rest => (.doubleFlat, rest)
  | 'b' :: rest => (.flat, rest)
  | '#' :: rest => (.sharp, rest)
  | 'x' :: rest => (.doubleSharp, rest)
  | rest => (.natural, rest)

end Accidental

namespace Pitch

/-- The number of a pitch class in an octave. The class may lie outside one octave, as that of a
lowered C does. -/
def numberAt (pitchClass octave : Int) : Int := (octave + 1) * 12 + pitchClass

def number (p : Pitch) : Int := numberAt (p.letter.semitones + p.accidental.semitones) p.octave

/-- A name taken apart, the octave still in its digits. -/
structure Parts where
  letter : Letter
  accidental : Accidental
  /-- whether the octave is negative -/
  minus : Bool
  digits : List Char
deriving DecidableEq

/-- An octave: a run of decimal digits, with a minus in front when negative. -/
def splitOctave? (text : List Char) : Option (Bool × List Char) :=
  let (minus, ds) := match text with
    | '-' :: rest => (true, rest)
    | _ => (false, text)
  if !ds.isEmpty && ds.all Text.isDigit then some (minus, ds) else none

def split? : List Char → Option Parts
  | [] => none
  | first :: rest => do
    let letter ← Letter.ofChar? first
    let (accidental, tail) := Accidental.read rest
    let (minus, digits) ← splitOctave? tail
    return { letter, accidental, minus, digits }

/-- A pitch name, blanks around it ignored. -/
def parse (name : String) : Except Fault Pitch :=
  match split? (Text.trimmed name) with
  | none => throw (.notPitch name)
  | some parts => do
    let octave ← Numeral.ofDigits parts.digits
    return ⟨parts.letter, parts.accidental, if parts.minus then -octave else octave⟩

/-- The number that a pitch name stands for. -/
def numberOf (name : String) : Except Fault Int := return (← parse name).number

/-- The letter and accidental of a pitch class from 0 to 11, spelled with naturals and sharps. -/
def spelling : Nat → Letter × Accidental
  | 0 => (.c, .natural)
  | 1 => (.c, .sharp)
  | 2 => (.d, .natural)
  | 3 => (.d, .sharp)
  | 4 => (.e, .natural)
  | 5 => (.f, .natural)
  | 6 => (.f, .sharp)
  | 7 => (.g, .natural)
  | 8 => (.g, .sharp)
  | 9 => (.a, .natural)
  | 10 => (.a, .sharp)
  | _ => (.b, .natural)

def ofNumber (n : Int) : Pitch :=
  let (letter, accidental) := spelling (n % 12).toNat
  { letter, accidental, octave := n / 12 - 1 }

/-- A pitch name as it is written. -/
def name (p : Pitch) : Except Fault String :=
  match Numeral.whole? p.octave with
  | some octave => return String.ofList (p.letter.toChar :: p.accidental.sign) ++ octave
  | none => throw (.tooManyDigits none)

def nameOf (n : Int) : Except Fault String := (ofNumber n).name

def transposeName (semitones : Int) (name : String) : Except Fault String := do
  nameOf ((← numberOf name) + semitones)

end Pitch
end Solfege
