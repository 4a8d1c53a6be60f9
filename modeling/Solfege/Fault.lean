import Solfege.Number.Basic

/-! Everything that can go wrong, one constructor a cause, and the message of each. -/
namespace Solfege

inductive Fault
  | notPitch (name : String)
  | notDuration (code : String)
  /-- a duration code divides by zero -/
  | zeroSubdivision (code : String)
  | notNote (token : String)
  | unknownPhrase (phrase : String)
  | tempoNotPositive (tempo : Number)
  /-- a carried octave or duration is empty -/
  | emptyCarry
  | degreeNotWhole (degree : Datum)
  /-- a step is neither a semitone nor a tone -/
  | unknownStep (unit : String)
  /-- a scale is not made of seven steps -/
  | scaleSize (count : Nat)
  /-- an interval is not made of one to twelve steps -/
  | intervalSize (count : Nat)
  /-- a triad is not made of four steps -/
  | triadSize (count : Nat)
  /-- a transposition option is neither a whole number nor random -/
  | badTransposition (value : Datum)
  /-- a unit length option is neither positive seconds nor automatic -/
  | badUnitLength (value : Datum)
  /-- a value of a kind without order was to be compared with a whole number -/
  | notOrdered (value : Datum)
  /-- a value is neither a number nor a text that could be read as a whole number -/
  | notWhole (value : Datum)
  /-- a value is neither a number nor a text that could be read as a real -/
  | notReal (value : Datum)
  | programRange (program : Int)
  | notWholeText (text : String)
  | notRealText (text : String)
  /-- a whole number has too many digits to be written, or to be read where they are counted -/
  | tooManyDigits (count? : Option Nat)
  | wholeOfNaN
  | wholeOfInfinity
  | wholeTooLarge
  | quotientTooLarge
  | powerTooLarge
  | wholeByZero
  | realByZero
  /-- a file field is negative or beyond 64 bits -/
  | fieldRange
  /-- a file field is beyond 32 bits -/
  | fieldWidth
  | nullInPath
  | noTimers
  /-- a callback gave up with a message of its own -/
  | raised (message : String)
  | noSuchEngine
  | noSuchHandle
  /-- a silent playback has no engine to ask for something -/
  | engineMissing (wanted : String)

namespace Fault

/-- What is said of a whole number with too many digits. -/
def excess (count? : Option Nat) : String :=
  let counted := match count? with
    | some count => ": value has " ++ toString count ++ " digits"
    | none => ""
  "Exceeds the limit (" ++ toString Numeral.digitLimit ++
    " digits) for integer string conversion" ++ counted ++
    "; use sys.set_int_max_str_digits() to increase the limit"

/-- A message that ends in a value. A number in it that cannot be written takes the place of all
that would have been said. -/
def got (expected : String) (shown? : Option String) : String :=
  match shown? with
  | some shown => expected ++ ", got " ++ shown
  | none => excess none

/-- The text shown for a fault. Where a whole number was expected, no more than 200 characters of
the quoted text are shown. -/
def message : Fault → String
  | .notPitch name => "Not a pitch name: " ++ Text.quoted name
  | .notDuration code => "Not a duration code: " ++ Text.quoted code
  | .zeroSubdivision code => "Subdivision must be positive: " ++ Text.quoted code
  | .notNote token => "Token was not recognised as a valid note: " ++ Text.quoted token
  | .unknownPhrase phrase => "Unrecognised aural object name: " ++ Text.quoted phrase
  | .tempoNotPositive tempo => got "tempo must be positive" tempo.text?
  | .emptyCarry => "CarryState needs a non-empty octave and duration"
  | .degreeNotWhole degree => got "Degrees must be whole semitones" degree.shown?
  | .unknownStep unit =>
    "Unknown step unit " ++ Text.quoted unit ++ "; use 'S' (semitone) or 'T' (tone)"
  | .scaleSize count => "A scale needs exactly 7 steps, got " ++ toString count
  | .intervalSize count => "An interval needs 1 to 12 steps, got " ++ toString count
  | .triadSize count => "A triad needs exactly 4 steps, got " ++ toString count
  | .badTransposition value => got "transpose must be an integer or 'random'" value.shown?
  | .badUnitLength value => got "note_duration must be positive seconds or 'auto'" value.shown?
  | .notOrdered value =>
    "'<=' not supported between instances of '" ++ value.kind ++ "' and 'int'"
  | .notWhole value =>
    "int() argument must be a string, a bytes-like object or a real number, not '" ++
      value.kind ++ "'"
  | .notReal value =>
    "float() argument must be a string or a real number, not '" ++ value.kind ++ "'"
  | .programRange program => got "program must be in 0..127" (Numeral.whole? program)
  | .notWholeText text =>
    "invalid literal for int() with base 10: " ++ String.ofList ((Text.quoted text).toList.take 200)
  | .notRealText text => "could not convert string to float: " ++ Text.quoted text
  | .tooManyDigits count? => excess count?
  | .wholeOfNaN => "cannot convert float NaN to integer"
  | .wholeOfInfinity => "cannot convert float infinity to integer"
  | .wholeTooLarge => "int too large to convert to float"
  | .quotientTooLarge => "integer division result too large for a float"
  | .powerTooLarge => "(34, 'Numerical result out of range')"
  | .wholeByZero => "division by zero"
  | .realByZero => "float division by zero"
  | .fieldRange => "argument out of range"
  | .fieldWidth => "'L' format requires 0 <= number <= 4294967295"
  | .nullInPath => "embedded null byte"
  | .noTimers => "no running event loop"
  | .raised message => message
  | .noSuchEngine => "no such engine"
  | .noSuchHandle => "no such handle"
  | .engineMissing wanted => "a silent playback has no engine to ask for " ++ wanted

end Fault
end Solfege
