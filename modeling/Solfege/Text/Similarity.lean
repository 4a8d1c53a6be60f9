/-! How alike two texts are. The longest block of characters that both have is matched first, then
the same is done on each side of it; likeness is the share of the characters that are matched. -/
namespace Solfege.Text

/-- The length of the beginning that two texts share. -/
def sharedLength : List Char → List Char → Nat
  | x :: xs, y :: ys => if x = y then sharedLength xs ys + 1 else 0
  | _, _ => 0

/-- Characters in a row that two texts have in common: where they begin in each, and how many. -/
structure Block where
  left : Nat
  right : Nat
  length : Nat
deriving DecidableEq

/-- The longer of two blocks, the first one if they are equally long. -/
def Block.longer (x y : Block) : Block := if x.length < y.length then y else x

/-- The longest block of two texts: of several the earliest in the first text, and of those the
earliest in the second. -/
def longestBlock (xs ys : List Char) : Block :=
  let places := (List.range xs.length).flatMap fun i => (List.range ys.length).map fun j => (i, j)
  places.foldl (fun best (i, j) => best.longer ⟨i, j, sharedLength (xs.drop i) (ys.drop j)⟩)
    ⟨0, 0, 0⟩

/-- The number of characters matched, blocks lying inside one another no deeper than a bound. -/
def matchedWithin : Nat → List Char → List Char → Nat
  | 0, _, _ => 0
  | bound + 1, xs, ys =>
    let block := longestBlock xs ys
    if block.length = 0 then 0
    else
      matchedWithin bound (xs.take block.left) (ys.take block.right) + block.length +
        matchedWithin bound (xs.drop (block.left + block.length))
          (ys.drop (block.right + block.length))

/-- The share of the characters of two texts that are matched. Empty texts are alike. -/
def likeness (x y : String) : Rat :=
  let size := x.length + y.length
  if size = 0 then 1
  else mkRat (2 * matchedWithin x.length x.toList y.toList) size

/-- Whether a candidate is at least as like a word as another, the text deciding a tie. -/
def isLiker (word x y : String) : Bool :=
  likeness y word < likeness x word || (likeness x word = likeness y word && y ≤ x)

/-- The candidates, at most three, that are most like a word and match it in three fifths of the
characters or more, in alphabetical order. -/
def closest (word : String) (candidates : List String) : List String :=
  let close := candidates.filter fun candidate => mkRat 3 5 ≤ likeness candidate word
  ((close.mergeSort (isLiker word)).take 3).mergeSort

end Solfege.Text
