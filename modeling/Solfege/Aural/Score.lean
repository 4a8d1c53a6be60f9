import Solfege.Aural.Catalog
import Solfege.Music.Transposition

/-! The score of an aural object: its degrees one by one, then all together, each unit as long as
the others and starting where the one before it ends. -/
namespace Solfege.Aural

/-- How long a unit lasts: a set time, or an equal share of one second. -/
inductive UnitLength
  | automatic
  | seconds (n : Number)
deriving DecidableEq

namespace UnitLength

def ofDatum : Datum → Except Fault UnitLength
  | .text "auto" => return .automatic
  | .text s =>
    match Numeral.readReal? s with
    | some x => return .seconds (.real x)
    | none => throw (.notRealText s)
  | .number n => return .seconds n
  | other => throw (.notReal other)

def toSeconds (length : UnitLength) (count : Int) : Except Fault Binary64 := do
  match length with
  | .automatic =>
    let n ← Binary64.ofWhole count
    if count = 0 then throw .realByZero else return 1 / n
  | .seconds n => n.toReal

end UnitLength

structure Options where
  /-- the pitch name of degree zero -/
  root : String
  transposition : Transposition
  /-- whether the degrees sound one by one -/
  arpeggio : Bool
  /-- whether the degrees sound together at the end -/
  chord : Bool
  unitLength : UnitLength

namespace Options

def transpositionOf : Datum → Except Fault Transposition
  | .text "random" => return .random
  | .number (.whole n) => return .semitones n
  | other => throw (.badTransposition other)

def unitLengthOf : Datum → Except Fault UnitLength
  | .text "auto" => return .automatic
  | .text s => throw (.badUnitLength (.text s))
  | .number n => if n.isPositiveOrNaN then return .seconds n else throw (.badUnitLength (.number n))
  | other => throw (.notOrdered other)

structure Values where
  root : String
  transposition : Datum
  arpeggio : Bool
  chord : Bool
  unitLength : Datum

def standard : Values := {
  root := "F4"
  transposition := .number 0
  arpeggio := true
  chord := true
  unitLength := .number (.real 0.6) }

/-- Options from their values, checked in this order: root, transposition, unit length. -/
def Values.check (values : Values) : Except Fault Options := do
  let _ ← Pitch.numberOf values.root
  let transposition ← transpositionOf values.transposition
  let unitLength ← unitLengthOf values.unitLength
  return ⟨values.root, transposition, values.arpeggio, values.chord, unitLength⟩

end Options

def units (seconds : Binary64) (sounds : List Sound) : Music :=
  sounds.mapIdx fun index sound =>
    ⟨.real (Binary64.ofInt index * seconds), sound, .seconds (.real seconds)⟩

/-- The score of an object. No degrees make an empty score and take no chance. -/
def score (degrees : List Int) (options : Options) (chance : Chance) :
    Except Fault (Music × Chance) := do
  if degrees.isEmpty then return ([], chance)
  let root ← Pitch.numberOf options.root
  let (shift, later) := options.transposition.resolve chance
  let names ← degrees.mapM fun degree => Pitch.nameOf (root + shift + degree)
  let seconds ← options.unitLength.toSeconds names.length
  let singles := if options.arpeggio then names.map Sound.single else []
  let together := if options.chord then [Sound.group names] else []
  return (units seconds (singles ++ together), later)

end Solfege.Aural
