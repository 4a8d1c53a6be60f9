import Solfege.Fault
import Solfege.Text.Blank
import Solfege.Text.Digit

/-! Numbers read from text. Blanks around the number are ignored, though not the information
separators; a sign may come first; digits may be of any script, with single underscores between
them. A whole number may have only so many digits, zeros in front included. A real may have a point
with digits on either side of it, an exponent, or be one of the words for infinity and not a number
in any case. -/
namespace Solfege.Numeral
open Text

/-- The blanks that may surround a number. -/
def isMargin (c : Char) : Bool := isBlank c && !(0x1C ≤ c.toNat && c.toNat ≤ 0x1F)

def withoutMargins (text : List Char) : List Char :=
  ((text.dropWhile isMargin).reverse.dropWhile isMargin).reverse

/-- The sign in front of a text, true for minus, and the rest. -/
def readSign : List Char → Bool × List Char
  | '-' :: rest => (true, rest)
  | '+' :: rest => (false, rest)
  | text => (false, text)

/-- The digits in front of a text and the rest. An underscore is passed over only between two
digits; `afterDigit` tells whether a digit has just been read. -/
def readDigits : Bool → List Char → List Char × List Char
  | _, [] => ([], [])
  | afterDigit, c :: rest =>
    if isDigit c then
      let (ds, tail) := readDigits true rest
      (c :: ds, tail)
    else if afterDigit && c == '_' && rest.head?.any isDigit then readDigits false rest
    else ([], c :: rest)

/-- The whole number of a run of digits. -/
def ofDigits (ds : List Char) : Except Fault Nat :=
  if ds.length ≤ digitLimit then return digitsValue 0 ds
  else throw (.tooManyDigits (some ds.length))

/-- A text as a whole number. Too many digits are noticed before what is wrong behind them, unless
that is an underscore out of place. -/
def readInt (s : String) : Except Fault Int := do
  let (negative, text) := readSign (withoutMargins s.toList)
  let (ds, tail) := readDigits false text
  if ds.isEmpty || tail.head? == some '_' then throw (.notWholeText s)
  let magnitude ← ofDigits ds
  if tail.isEmpty then return Binary64.signed negative magnitude else throw (.notWholeText s)

/-- An exponent part, zero when there is none. -/
def readExponent? : List Char → Option Int
  | [] => some 0
  | mark :: rest =>
    if mark = 'e' ∨ mark = 'E' then
      let (negative, text) := readSign rest
      match readDigits false text with
      | (d :: ds, []) => some (Binary64.signed negative (digitsValue 0 (d :: ds)))
      | _ => none
    else none

/-- The digits behind a point, none when there is no point, and the rest. -/
def readFraction : List Char → List Char × List Char
  | '.' :: rest => readDigits false rest
  | text => ([], text)

/-- A magnitude in digits: whole part, fraction and exponent, with a digit somewhere before the
exponent. -/
def readMagnitude? (negative : Bool) (text : List Char) : Option Binary64 := do
  let (whole, afterWhole) := readDigits false text
  let (fraction, afterFraction) := readFraction afterWhole
  let exponent ← readExponent? afterFraction
  if whole.isEmpty && fraction.isEmpty then none
  else
    some (.ofDecimal negative (digitsValue (digitsValue 0 whole) fraction)
      (exponent - fraction.length))

def readReal? (s : String) : Option Binary64 :=
  let (negative, text) := readSign (withoutMargins s.toList)
  let word := String.ofList (text.map Char.toLower)
  if word = "inf" ∨ word = "infinity" then some (.infinite negative)
  else if word = "nan" then some .nan
  else readMagnitude? negative text

end Solfege.Numeral
