import Solfege.Journal
import Solfege.Music.Basic
import Solfege.Shorthand.Carry
import Solfege.Shorthand.Token

/-! Shorthand text to music: the tokens that are notes, filled in and laid end to end, and the
tokens that are not, which never disturb the music. -/
namespace Solfege.Shorthand

/-- Notes laid end to end from a time, each starting where the one before it ends. -/
def layOut (tempo : Number) (clock : Binary64) : List ResolvedNote → Except Fault Music
  | [] => return []
  | note :: rest => do
    let seconds ← Duration.codeSeconds note.duration tempo
    let later ← layOut tempo (clock + seconds) rest
    return ⟨.real clock, .single note.pitchName, .code note.duration⟩ :: later

/-- The tokens of a text with the notes that they are. -/
def reading (text : String) : List (String × Option PartialNote) :=
  (tokens text).map fun token => (token, note? token)

def accepted (text : String) : List PartialNote := (reading text).filterMap (·.2)

def rejected (text : String) : List String :=
  (reading text).filterMap fun (token, note) => if note.isNone then some token else none

/-- Music from a text, with the tokens that were left out. -/
structure Compiled where
  music : Music
  rejected : List String
deriving DecidableEq

/-- Compiles a text at the reference tempo. -/
def compile (text : String) : Except Fault Compiled :=
  return ⟨← layOut Duration.referenceTempo 0 (resolve .initial (accepted text)), rejected text⟩

/-- The tokens that were left out, joined by commas, if there are any. -/
def Compiled.warning? (compiled : Compiled) : Option String :=
  if compiled.rejected.isEmpty then none else some (", ".intercalate compiled.rejected)

def Compiled.happening (compiled : Compiled) (text : String) : Happening :=
  .compiled (tokens text).length compiled.music.length compiled.rejected.length

/-- The music of a text, with what happens on the way: tokens that were left out are warned of. -/
def compileLogged (text : String) : List Happening × Except Fault Music :=
  match compile text with
  | .error fault => ([], .error fault)
  | .ok compiled =>
    let warned := (compiled.warning?.map Happening.leftOut).toList
    (compiled.happening text :: warned, .ok compiled.music)

end Solfege.Shorthand
