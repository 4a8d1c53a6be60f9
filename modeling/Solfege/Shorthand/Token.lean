import Solfege.Text.Blank

/-! Tokens of shorthand text. Blanks end a token; a character outside the shorthand alphabet is
left out without ending it. -/
namespace Solfege.Shorthand

/-- The characters that tokens are made of. -/
def alphabet : List Char := "abcdefgABCDEFG0123456789+-#x.mnt,".toList

/-- A finished token, unless nothing of it is left. -/
def finish (pending : List Char) : List (List Char) := if pending.isEmpty then [] else [pending]

/-- The tokens of a text that goes on from a token begun as `pending`. -/
def scan (pending : List Char) : List Char → List (List Char)
  | [] => finish pending
  | c :: rest =>
    if Text.isBlank c then finish pending ++ scan [] rest
    else if c ∈ alphabet then scan (pending ++ [c]) rest
    else scan pending rest

def tokens (text : String) : List String := (scan [] text.toList).map String.ofList

end Solfege.Shorthand
