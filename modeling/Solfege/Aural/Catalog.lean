import Solfege.Fault
import Solfege.Text.Blank

/-! Named aural objects: intervals, triads and scales as semitone degrees above a root. An object
is asked for by a phrase or by its own name, in any case, or given by its degrees. -/
namespace Solfege.Aural

def objects : List (String × List Int) :=
  [("Silent", []),
    ("Triad.Major", [0, 4, 7]),
    ("Triad.Minor", [0, 3, 7]),
    ("Triad.Diminished", [0, 3, 6]),
    ("Interval.Unison", [0, 0]),
    ("Interval.Minor2nd", [0, 1]),
    ("Interval.Major2nd", [0, 2]),
    ("Interval.Minor3rd", [0, 3]),
    ("Interval.Major3rd", [0, 4]),
    ("Interval.Perfect4th", [0, 5]),
    ("Interval.Diminished5th", [0, 6]),
    ("Interval.Perfect5th", [0, 7]),
    ("Interval.Minor6th", [0, 8]),
    ("Interval.Major6th", [0, 9]),
    ("Interval.Minor7th", [0, 10]),
    ("Interval.Major7th", [0, 11]),
    ("Interval.Octave", [0, 12]),
    ("Scale.Major", [0, 2, 4, 5, 7, 9, 11, 12]),
    ("Scale.NaturalMinor", [0, 2, 3, 5, 7, 8, 10, 12])]

/-- The phrases with the objects that they name, in alphabetical order. -/
def phrases : List (String × String) :=
  [("diminished chord", "Triad.Diminished"),
    ("diminished triad", "Triad.Diminished"),
    ("major 2nd", "Interval.Major2nd"),
    ("major 3rd", "Interval.Major3rd"),
    ("major 6th", "Interval.Major6th"),
    ("major 7th", "Interval.Major7th"),
    ("major chord", "Triad.Major"),
    ("major scale", "Scale.Major"),
    ("major triad", "Triad.Major"),
    ("minor 2nd", "Interval.Minor2nd"),
    ("minor 3rd", "Interval.Minor3rd"),
    ("minor 6th", "Interval.Minor6th"),
    ("minor 7th", "Interval.Minor7th"),
    ("minor chord", "Triad.Minor"),
    ("minor scale", "Scale.NaturalMinor"),
    ("minor triad", "Triad.Minor"),
    ("natural minor scale", "Scale.NaturalMinor"),
    ("octave", "Interval.Octave"),
    ("perfect 4th", "Interval.Perfect4th"),
    ("perfect 5th", "Interval.Perfect5th"),
    ("semitone", "Interval.Minor2nd"),
    ("silent", "Silent"),
    ("tone", "Interval.Major2nd"),
    ("tritone", "Interval.Diminished5th"),
    ("unison", "Interval.Unison")]

/-- Small letters for capitals. Names hold ASCII characters only, and the Kelvin sign is the one
character beyond ASCII whose small form is among them, so no other case needs to be changed. -/
def lower (c : Char) : Char := if c = '\u212a' then 'k' else c.toLower

/-- A text as names are compared: without blanks around it and in small letters. -/
def key (text : String) : String := String.ofList ((Text.trimmed text).map lower)

def find? (text : String) : Option (String × List Int) :=
  match phrases.lookup (key text) with
  | some name => objects.find? fun object => object.1 = name
  | none => objects.find? fun object => String.ofList (object.1.toList.map lower) = key text

inductive Request
  | phrase (text : String)
  | degrees (values : List Datum)

def degree : Datum → Except Fault Int
  | .number (.whole n) => return n
  | other => throw (.degreeNotWhole other)

/-- The degrees of an object. Given degrees are taken as they are. -/
def Request.resolve : Request → Except Fault (List Int)
  | .phrase text =>
    match find? text with
    | some (_, found) => return found
    | none => throw (.unknownPhrase text)
  | .degrees values => values.mapM degree

end Solfege.Aural
