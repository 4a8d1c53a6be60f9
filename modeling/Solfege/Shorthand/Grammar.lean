import Solfege.Pitch.Basic

/-! Shorthand notes. A token is a pitch class, then optionally an octave from -4 to 11, a comma
and a duration: `c`, `F#4`, `bb3,8n.`, `e16t`. Where the digits can be read in two ways the
longest octave that leaves a valid rest wins. -/
namespace Solfege

/-- A note as written: octave and duration may be left out. -/
structure PartialNote where
  pitchClass : String
  octave : Option String
  duration : Option String
deriving DecidableEq

namespace Shorthand

/-- The octaves of the grammar, longer ones first. -/
def octaves : List (List Char) :=
  [['1', '0'], ['1', '1'], ['-', '1'], ['-', '2'], ['-', '3'], ['-', '4'], ['0'], ['1'], ['2'],
    ['3'], ['4'], ['5'], ['6'], ['7'], ['8'], ['9']]

/-- The counts that plain, dotted and triplet durations may have. -/
def subdivisions : List (List Char) :=
  [['2'], ['4'], ['8'], ['1', '6'], ['3', '2'], ['6', '4'], ['1', '2', '8']]

/-- The durations of the grammar. -/
def durations : List (List Char) :=
  [['0'], ['1', 'm'], ['1', 'n', '.'], ['1', 'n']] ++
    subdivisions.flatMap fun count => [count ++ ['n', '.'], count ++ ['n'], count ++ ['t']]

/-- A pitch class, as written, in front of a text, and the rest. -/
def readPitchClass? : List Char → Option (List Char × List Char)
  | [] => none
  | first :: rest =>
    if (Letter.ofChar? first).isSome then
      let (accidental, tail) := Accidental.read rest
      some (first :: accidental.sign, tail)
    else none

/-- The ways to take an octave from the front of a text, the longest first and none last. -/
def octaveChoices (text : List Char) : List (Option (List Char) × List Char) :=
  (octaves.filterMap fun octave => (octave.isPrefixOf? text).map fun rest => (some octave, rest)) ++
    [(none, text)]

/-- A whole text as an optional comma and an optional duration. -/
def readDuration? (text : List Char) : Option (Option (List Char)) :=
  let rest := match text with
    | ',' :: rest => rest
    | _ => text
  if rest.isEmpty then some none
  else if rest ∈ durations then some (some rest)
  else none

def readNote? (token : List Char) : Option PartialNote := do
  let (pitchClass, rest) ← readPitchClass? token
  (octaveChoices rest).findSome? fun (octave, tail) =>
    (readDuration? tail).map fun duration =>
      { pitchClass := String.ofList pitchClass
        octave := octave.map String.ofList
        duration := duration.map String.ofList }

def note? (token : String) : Option PartialNote := readNote? token.toList

def note (token : String) : Except Fault PartialNote :=
  match note? token with
  | some n => return n
  | none => throw (.notNote token)

end Shorthand
end Solfege
