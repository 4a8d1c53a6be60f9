/-! Control sequences that style a terminal: an escape and an opening bracket, any number of
parameter characters, any number of intermediate characters, and a final character. Output that
does not go to a terminal leaves them out. -/
namespace Solfege.Text

/-- A digit or one of the marks that follow the digits. -/
def isParameter (c : Char) : Bool := '0' ≤ c && c ≤ '?'

/-- A blank or one of the marks in front of the digits. -/
def isIntermediate (c : Char) : Bool := ' ' ≤ c && c ≤ '/'

/-- Any other visible ASCII character. -/
def isFinal (c : Char) : Bool := '@' ≤ c && c ≤ '~'

/-- What follows a sequence, from behind its bracket. -/
def afterSequence? (text : List Char) : Option (List Char) :=
  match (text.dropWhile isParameter).dropWhile isIntermediate with
  | c :: rest => if isFinal c then some rest else none
  | [] => none

theorem afterSequence?_length {text rest : List Char} (h : afterSequence? text = some rest) :
    rest.length < text.length := by
  unfold afterSequence? at h
  have bound := ((List.dropWhile_sublist isIntermediate).trans
    (List.dropWhile_sublist (l := text) isParameter)).length_le
  split at h
  · rename_i c tail same
    rw [same, List.length_cons] at bound
    split at h
    · cases h
      omega
    · cases h
  · cases h

/-- A text without the sequences that style it. -/
def unstyledChars : List Char → List Char
  | [] => []
  | '\x1b' :: '[' :: rest =>
    match h : afterSequence? rest with
    | some later =>
      have := afterSequence?_length h
      unstyledChars later
    | none => '\x1b' :: unstyledChars ('[' :: rest)
  | c :: rest => c :: unstyledChars rest
termination_by text => text.length

def unstyled (s : String) : String := String.ofList (unstyledChars s.toList)

end Solfege.Text
