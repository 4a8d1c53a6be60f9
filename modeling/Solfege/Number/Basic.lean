import Solfege.Numeral.Printer
import Solfege.Text.Quoted

/-! Numbers as a score holds them: a whole number, a real, or a truth value that counts as one or
zero. A number that is only passed on keeps its kind. A `Datum` is what a caller may hand over
where a number or a word is expected. -/
namespace Solfege

inductive Number
  | flag (set : Bool)
  | whole (n : Int)
  | real (x : Binary64)
deriving DecidableEq

inductive Datum
  | none
  | number (n : Number)
  | text (s : String)
  | list (items : List Datum)

namespace Number

instance (n : Nat) : OfNat Number n := ⟨.whole n⟩

def whole? : Number → Option Int
  | .flag set => some (if set then 1 else 0)
  | .whole n => some n
  | .real _ => none

/-- A number as it is written, unless it has too many digits. -/
def text? : Number → Option String
  | .flag true => some "True"
  | .flag false => some "False"
  | .whole n => Numeral.whole? n
  | .real x => some (Numeral.real x)

end Number

namespace Datum

/-- The kind of a value as messages name it. -/
def kind : Datum → String
  | .none => "NoneType"
  | .number (.flag _) => "bool"
  | .number (.whole _) => "int"
  | .number (.real _) => "float"
  | .text _ => "str"
  | .list _ => "list"

mutual

/-- A value as messages show it, text in quotes; none when a number in it has too many digits. -/
def shown? : Datum → Option String
  | .none => some "None"
  | .number n => n.text?
  | .text s => some (Text.quoted s)
  | .list items => return "[" ++ (← shownItems? items) ++ "]"

def shownItems? : List Datum → Option String
  | [] => some ""
  | [item] => shown? item
  | item :: rest => return (← shown? item) ++ ", " ++ (← shownItems? rest)

end

end Datum
end Solfege
