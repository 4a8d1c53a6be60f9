/-! Sets of characters as closed ranges of code points. -/
namespace Solfege.Text

def inRanges (ranges : List (Nat × Nat)) (n : Nat) : Bool :=
  ranges.any fun (low, high) => low ≤ n && n ≤ high

end Solfege.Text
