import Solfege.Text.Ranges

/-! White space: the Unicode property together with the four information separators 1C to 1F. -/
namespace Solfege.Text

/-- Closed ranges of the blank code points, ascending. -/
def blankRanges : List (Nat × Nat) :=
  [(0x09, 0x0D), (0x1C, 0x20), (0x85, 0x85), (0xA0, 0xA0), (0x1680, 0x1680), (0x2000, 0x200A),
    (0x2028, 0x2029), (0x202F, 0x202F), (0x205F, 0x205F), (0x3000, 0x3000)]

def isBlank (c : Char) : Bool := inRanges blankRanges c.toNat

def trim (text : List Char) : List Char :=
  ((text.dropWhile isBlank).reverse.dropWhile isBlank).reverse

/-- The text `s` without the blanks at both ends, as characters. -/
def trimmed (s : String) : List Char := trim s.toList

end Solfege.Text
