import Solfege.Text.Quoted
import Solfege.Text.Similarity

/-! Command-line arguments. A long option has two dashes and takes its value after an equals sign
or from the next argument; short options have one dash, may be run together, and take the rest of
the argument or the next one as a value. Two dashes alone end the options. -/
namespace Solfege.CommandLine

inductive Effect
  | takesValue
  | sets (value : Bool)
deriving DecidableEq

structure Spelling where
  text : String
  option : String
  effect : Effect

inductive Given
  | text (value : String)
  | flag (value : Bool)
deriving DecidableEq

inductive UsageFault
  /-- there is no such option, but there may be similar ones -/
  | noSuchOption (spelling : String) (similar : List String)
  /-- there is no such command, but there may be similar ones -/
  | noSuchCommand (name : String) (similar : List String)
  | noCommand
  | needsValue (spelling : String)
  | takesNoValue (spelling : String)
  | missingArgument (name : String)
  | missingOption (spellings : List String)
  | unexpected (arguments : List String)
  | badValue (option reason : String)

namespace UsageFault

def suggestion : List String → String
  | [] => ""
  | [word] => " Did you mean " ++ Text.quoted word ++ "?"
  | words => " (Did you mean one of: " ++ ", ".intercalate (words.map Text.quoted) ++ "?)"

def message : UsageFault → String
  | .noSuchOption spelling similar =>
    "No such option " ++ Text.quoted spelling ++ "." ++ suggestion similar
  | .noSuchCommand name similar =>
    "No such command " ++ Text.quoted name ++ "." ++ suggestion similar
  | .noCommand => "Missing command."
  | .needsValue spelling => "Option " ++ Text.quoted spelling ++ " requires an argument."
  | .takesNoValue spelling => "Option " ++ Text.quoted spelling ++ " does not take a value."
  | .missingArgument name => "Missing argument '" ++ name ++ "'."
  | .missingOption spellings =>
    "Missing option " ++ " / ".intercalate (spellings.map fun s => "'" ++ s ++ "'") ++ "."
  | .unexpected arguments =>
    "Got unexpected extra argument" ++ (if arguments.length = 1 then "" else "s") ++ " (" ++
      " ".intercalate arguments ++ ")"
  | .badValue option reason => "Invalid value for '" ++ option ++ "': " ++ reason

end UsageFault

/-- Arguments taken apart: the options in the order in which they were given, and the others. -/
structure Parsed where
  options : List (String × Given)
  others : List String

namespace Parsed

def last? (parsed : Parsed) (option : String) : Option Given :=
  parsed.options.reverse.lookup option

def text? (parsed : Parsed) (option : String) : Option String :=
  match parsed.last? option with
  | some (.text value) => some value
  | _ => none

def flag? (parsed : Parsed) (option : String) : Option Bool :=
  match parsed.last? option with
  | some (.flag value) => some value
  | _ => none

def withOptions (given : List (String × Given)) (parsed : Parsed) : Parsed :=
  { parsed with options := given ++ parsed.options }

def withOther (argument : String) (parsed : Parsed) : Parsed :=
  { parsed with others := argument :: parsed.others }

end Parsed

def findSpelling? (spellings : List Spelling) (text : List Char) : Option Spelling :=
  spellings.find? fun spelling => spelling.text.toList = text

/-- Short options run together: what they were given, and the option that still needs a value,
with its spelling. -/
def readShort (spellings : List Spelling) :
    List Char → Except UsageFault (List (String × Given) × Option Spelling)
  | [] => return ([], none)
  | c :: rest =>
    match findSpelling? spellings ['-', c] with
    | none => throw (.noSuchOption (String.ofList ['-', c]) [])
    | some spelling =>
      match spelling.effect with
      | .takesValue =>
        if rest.isEmpty then return ([], some spelling)
        else return ([(spelling.option, .text (String.ofList rest))], none)
      | .sets value => do
        let (given, needing) ← readShort spellings rest
        return ((spelling.option, .flag value) :: given, needing)

/-- One argument that starts with a dash: what its options were given, and the option that still
needs a value. -/
def readOption (spellings : List Spelling) (argument : List Char) :
    Except UsageFault (List (String × Given) × Option Spelling) :=
  let label := argument.takeWhile (· ≠ '=')
  let value? := match argument.dropWhile (· ≠ '=') with
    | [] => none
    | _ :: value => some (String.ofList value)
  let isLong := (['-', '-'] : List Char).isPrefixOf argument
  let longOnes := spellings.filter fun s => "--".toList.isPrefixOf s.text.toList
  match findSpelling? longOnes label with
  | some spelling =>
    match spelling.effect, value? with
    | .takesValue, some value => return ([(spelling.option, .text value)], none)
    | .takesValue, none => return ([], some spelling)
    | .sets _, some _ => throw (.takesNoValue spelling.text)
    | .sets value, none => return ([(spelling.option, .flag value)], none)
  | none =>
    if isLong then
      let word := String.ofList label
      throw (.noSuchOption word (Text.closest word (longOnes.map Spelling.text)))
    else readShort spellings (argument.drop 1)

/-- Takes arguments apart. Where options may not follow other arguments, everything from the first
of those on is left alone. -/
def parse (spellings : List Spelling) (interspersed : Bool) :
    List String → Except UsageFault Parsed
  | [] => return ⟨[], []⟩
  | argument :: rest =>
    if argument = "--" then return ⟨[], rest⟩
    else if argument.toList.head? = some '-' ∧ 1 < argument.length then
      match readOption spellings argument.toList, rest with
      | .error fault, _ => throw fault
      | .ok (given, none), rest => return (← parse spellings interspersed rest).withOptions given
      | .ok (_, some spelling), [] => throw (.needsValue spelling.text)
      | .ok (given, some spelling), value :: rest =>
        return (← parse spellings interspersed rest).withOptions
          (given ++ [(spelling.option, .text value)])
    else if interspersed then return (← parse spellings interspersed rest).withOther argument
    else return ⟨[], argument :: rest⟩

end Solfege.CommandLine
