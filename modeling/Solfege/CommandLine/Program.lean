import Solfege.CommandLine.Arguments
import Solfege.CommandLine.Disk
import Solfege.CommandLine.Help
import Solfege.Pitch.Frequency
import Solfege.Playback.Session
import Solfege.Text.Styling

/-! The command line: compiling shorthand to a list of events, rendering it to a MIDI file,
writing an aural object to a MIDI file, and listing the names of the objects. -/
namespace Solfege.CommandLine

structure Outcome where
  exit : Nat
  out : String
  err : String
  /-- the fault that ended the run without being dealt with -/
  fault : Option Fault
  /-- the file that was written -/
  saved : Option (String × List UInt8)

/-- What a run is given: whether to log everything, the disk, and numbers for chance. -/
structure Setting where
  verbose : Bool
  disk : Disk
  numbers : List Int

namespace Setting

def log (setting : Setting) (journal : List Happening) : String :=
  String.join ((journal.filterMap Happening.line?).map fun line =>
    if setting.verbose ∨ line.severity = .warning then line.render ++ "\n" else "")

end Setting

namespace Outcome

def success (out err : String) : Outcome := ⟨0, out, err, none, none⟩

def failure (err message : String) : Outcome :=
  ⟨1, "", err ++ "  ERROR: " ++ message ++ "\n", none, none⟩

def escaped (err : String) (fault : Fault) : Outcome := ⟨1, "", err, some fault, none⟩

def usage (fault : UsageFault) : Outcome := ⟨2, "", "Error: " ++ fault.message ++ "\n", none, none⟩

def unstyled (outcome : Outcome) : Outcome :=
  { outcome with out := Text.unstyled outcome.out, err := Text.unstyled outcome.err }

end Outcome

def soundText : Sound → String
  | .single name => name
  | .group names => "[" ++ " ".intercalate names ++ "]"

def lengthText : NoteLength → Except Fault String
  | .code text => return text
  | .seconds n =>
    match n.text? with
    | some text => return text
    | none => throw (.tooManyDigits none)

def eventLine (event : Event) : Except Fault String := do
  let frequencies ← event.sound.names.mapM fun name =>
    return Numeral.fixed 2 (← Pitch.frequencyOf name Pitch.concertPitch)
  return Numeral.alignRight 7 (Numeral.fixed 3 (← event.time.toReal)) ++ "s  " ++
    Numeral.alignLeft 6 (soundText event.sound) ++ " " ++
    Numeral.alignLeft 5 (← lengthText event.length) ++ " " ++ " ".intercalate frequencies ++
    " Hz\n"

def phraseLine (phrase object : String) (degrees : List Int) : String :=
  Numeral.alignLeft 22 phrase ++ " " ++ Numeral.alignLeft 24 object ++ " " ++
    (if degrees.isEmpty then "-" else " ".intercalate (degrees.map toString)) ++ "\n"

/-- The music of a text, transposed, behind what is said on the way; or the outcome when there is
none. -/
def musicOf (setting : Setting) (text : String) (transposition : Transposition) :
    Except Outcome (Music × String) :=
  match Shorthand.compile text with
  | .error fault => throw (.escaped "" fault)
  | .ok compiled =>
    let said := setting.log [compiled.happening text] ++
      match compiled.warning? with
      | some warning => "  WARNING: Failed to parse the tokens: " ++ warning ++ "\n"
      | none => ""
    if compiled.music.isEmpty then throw (.failure said "No notes found in the input.")
    else if transposition = .semitones 0 then return (compiled.music, said)
    else
      let shift := (transposition.resolve (.ofList setting.numbers)).1
      match compiled.music.transpose shift with
      | .error fault => throw (.escaped said fault)
      | .ok music => return (music, said)

def compile (setting : Setting) (text : String) (transposition : Transposition) : Outcome :=
  match musicOf setting text transposition with
  | .error outcome => outcome
  | .ok (music, said) =>
    match music.mapM eventLine with
    | .error fault => .escaped said fault
    | .ok lines => .success (String.join lines) said

def recording (music : Music) (tempo : Number) : Act (List UInt8) := do
  let engine ← Act.addEngine { Recorder.standard 0 with tempo := tempo }
  let _ ← Act.render (some engine) music (.real 0) tempo
  Act.write engine

/-- Writes music to a file and tells how much was written, behind what was said before. -/
def save (setting : Setting) (music : Music) (what path : String) (tempo : Number) (said : String) :
    Outcome :=
  let (outcome, stage) := recording music tempo Stage.initial
  let said := said ++ setting.log stage.journal
  match outcome with
  | .error fault => .escaped said fault
  | .ok bytes =>
    if path.contains '\x00' then .escaped said .nullInPath
    else match setting.disk path with
      | some complaint => .failure said ("Could not write MIDI file — " ++ complaint)
      | none =>
        let done := "Done!  Wrote " ++ toString music.length ++ " " ++ what ++ "(s) to '"
        ⟨0, done ++ path ++ "'.\n", said, none, some (path, bytes)⟩

def render (setting : Setting) (text path : String) (tempo : Int) (transposition : Transposition) :
    Outcome :=
  match musicOf setting text transposition with
  | .error outcome => outcome
  | .ok (music, said) => save setting music "event" path (.whole tempo) said

def aural (setting : Setting) (phrase path : String) (values : Aural.Options.Values) : Outcome :=
  match (Aural.Request.phrase phrase).resolve, values.check with
  | .error (.unknownPhrase name), _ =>
    .failure "" (Fault.message (.unknownPhrase name) ++ ". Run 'intuitune names' for the list.")
  | .error fault, _ => .failure "" fault.message
  | .ok _, .error fault => .failure "" fault.message
  | .ok degrees, .ok options =>
    match Aural.score degrees options (.ofList setting.numbers) with
    | .error fault => .escaped "" fault
    | .ok ([], _) => .success "Nothing to play.\n" ""
    | .ok (music, _) => save setting music "unit" path Duration.referenceTempo ""

def names : Outcome :=
  .success (String.join (Aural.phrases.map fun (phrase, object) =>
    phraseLine phrase object ((Aural.objects.lookup object).getD []))) ""

def readTransposition (text : String) : Except String Transposition :=
  if text = "random" then return .random
  else match Numeral.readInt text with
    | .error _ => throw (Text.quoted text ++ " is neither an integer nor 'random'")
    | .ok n =>
      if 24 < n.natAbs then throw "transpose must be within ±24 semitones"
      else return .semitones n

def readTempo (text : String) : Except String Int :=
  match Numeral.readInt text with
  | .error _ => throw (Text.quoted text ++ " is not a valid integer range.")
  | .ok n =>
    if 20 ≤ n ∧ n ≤ 300 then return n
    else throw (toString n ++ " is not in the range 20<=x<=300.")

def readUnitLength (text : String) : Except String Datum :=
  if text = "auto" then return .text text
  else match Numeral.readReal? text with
    | none => throw (Text.quoted text ++ " is neither a number nor 'auto'")
    | some x =>
      if x ≤ 0 then throw "note duration must be positive" else return .number (.real x)

/-- The reading of an option, with a default where it is not given. -/
def optionValue {α : Type} (parsed : Parsed) (option : String) (default : α)
    (read : String → Except String α) : Except UsageFault α :=
  match parsed.text? option with
  | none => return default
  | some text => (read text).mapError fun reason => .badValue option reason

def argument (parsed : Parsed) (name : String) : Except UsageFault String :=
  match parsed.others.head? with
  | some text => return text
  | none => throw (.missingArgument name)

def outputPath (parsed : Parsed) : Except UsageFault String :=
  match parsed.text? "--output" with
  | some path => return path
  | none => throw (.missingOption ["--output", "-o"])

def transpositionOf (parsed : Parsed) : Except UsageFault Transposition :=
  optionValue parsed "--transpose" (.semitones 0) readTransposition

def tempoOf (parsed : Parsed) : Except UsageFault Int := optionValue parsed "--tempo" 120 readTempo

def unitLengthOf (parsed : Parsed) : Except UsageFault Datum :=
  optionValue parsed "--note-duration" (.number (.real 0.6)) readUnitLength

/-- Whether one parameter of a command was given as it should be. -/
def checkParameter (parsed : Parsed) (parameter : String) : Except UsageFault Unit := do
  match parameter with
  | "--output" => discard (outputPath parsed)
  | "--transpose" => discard (transpositionOf parsed)
  | "--tempo" => discard (tempoOf parsed)
  | "--note-duration" => discard (unitLengthOf parsed)
  | "TEXT" | "NAME" => discard (argument parsed parameter)
  | _ => return ()

/-- Checks the parameters of a command: the options given, in their order, then the argument, then
the other options, and last that nothing is left over. -/
def checkAll (parsed : Parsed) (argument? : Option String) (options : List String) :
    Except UsageFault Unit := do
  (parsed.options.map (·.1)).forM (checkParameter parsed)
  argument?.toList.forM (checkParameter parsed)
  options.forM (checkParameter parsed)
  let left := parsed.others.drop argument?.toList.length
  if !left.isEmpty then throw (.unexpected left)

def helpSpellings : List Spelling :=
  [⟨"--help", "--help", .sets true⟩, ⟨"-h", "--help", .sets true⟩]

def transposeSpelling : Spelling := ⟨"--transpose", "--transpose", .takesValue⟩

def outputSpellings : List Spelling :=
  [⟨"--output", "--output", .takesValue⟩, ⟨"-o", "--output", .takesValue⟩]

def compileSpellings : List Spelling := transposeSpelling :: helpSpellings

def renderSpellings : List Spelling :=
  ⟨"--tempo", "--tempo", .takesValue⟩ :: transposeSpelling :: outputSpellings ++ helpSpellings

def auralSpellings : List Spelling :=
  [⟨"--root", "--root", .takesValue⟩, transposeSpelling,
    ⟨"--arpeggio", "--arpeggio", .sets true⟩, ⟨"--no-arpeggio", "--arpeggio", .sets false⟩,
    ⟨"--chord", "--chord", .sets true⟩, ⟨"--no-chord", "--chord", .sets false⟩,
    ⟨"--note-duration", "--note-duration", .takesValue⟩] ++ outputSpellings ++ helpSpellings

def programSpellings : List Spelling :=
  [⟨"--verbose", "--verbose", .sets true⟩, ⟨"-v", "--verbose", .sets true⟩,
    ⟨"--version", "--version", .sets true⟩] ++ helpSpellings

/-- Runs a command on its arguments: its help if it is asked for, else the action once everything
has been checked. -/
def command (help : Help) (spellings : List Spelling) (argument? : Option String)
    (options : List String) (action : Parsed → Except UsageFault Outcome)
    (arguments : List String) : Outcome :=
  match parse spellings true arguments with
  | .error fault => .usage fault
  | .ok parsed =>
    if parsed.flag? "--help" = some true then .success help.text ""
    else
      match checkAll parsed argument? options >>= fun _ => action parsed with
      | .error fault => .usage fault
      | .ok outcome => outcome

def compileCommand (setting : Setting) : List String → Outcome :=
  command compileHelp compileSpellings (some "TEXT") ["--transpose"] fun parsed => do
    return compile setting (← argument parsed "TEXT") (← transpositionOf parsed)

def renderCommand (setting : Setting) : List String → Outcome :=
  let options := ["--output", "--tempo", "--transpose"]
  command renderHelp renderSpellings (some "TEXT") options fun parsed => do
    return render setting (← argument parsed "TEXT") (← outputPath parsed) (← tempoOf parsed)
      (← transpositionOf parsed)

def transpositionDatum : Transposition → Datum
  | .random => .text "random"
  | .semitones n => .number (.whole n)

def auralCommand (setting : Setting) : List String → Outcome :=
  let options := ["--output", "--transpose", "--note-duration"]
  command auralHelp auralSpellings (some "NAME") options fun parsed => do
    let values : Aural.Options.Values := {
      root := (parsed.text? "--root").getD "F4"
      transposition := transpositionDatum (← transpositionOf parsed)
      arpeggio := (parsed.flag? "--arpeggio").getD true
      chord := (parsed.flag? "--chord").getD true
      unitLength := ← unitLengthOf parsed }
    return aural setting (← argument parsed "NAME") (← outputPath parsed) values

def namesCommand : List String → Outcome :=
  command namesHelp helpSpellings none [] fun _ => return names

def commands (setting : Setting) : List (String × (List String → Outcome)) :=
  [("aural", auralCommand setting), ("compile", compileCommand setting), ("names", namesCommand),
    ("render", renderCommand setting)]

/-- What the options of the program itself say at once: its version or its help, whichever was
asked for first. -/
def notice? (parsed : Parsed) : Option Outcome :=
  match (parsed.options.map (·.1)).find? fun o => o = "--version" ∨ o = "--help" with
  | some "--version" => some (.success "intuitune, version 0.1.0\n" "")
  | some _ => some (.success programHelp.text "")
  | none => none

/-- What is said to a name that is no command. The arguments from the name on are first read as
options of the program once more, since an option may stand where a command belongs. -/
def unknownCommand (name : String) (rest : List String) (names : List String) : Outcome :=
  match parse programSpellings false (name :: rest) with
  | .error fault => .usage fault
  | .ok parsed =>
    (notice? parsed).getD (.usage (.noSuchCommand name (Text.closest name names)))

def dispatch (disk : Disk) (numbers : List Int) (parsed : Parsed) : Outcome :=
  let setting : Setting := ⟨parsed.flag? "--verbose" = some true, disk, numbers⟩
  match parsed.others with
  | [] => .usage .noCommand
  | name :: rest =>
    match (commands setting).lookup name with
    | some command => command rest
    | none => unknownCommand name rest ((commands setting).map (·.1))

/-- Runs the program on its arguments. Without any it shows its help as a complaint. -/
def run (disk : Disk) (numbers : List Int) (arguments : List String) : Outcome :=
  match parse programSpellings false arguments with
  | .error fault => (Outcome.usage fault).unstyled
  | .ok parsed =>
    if arguments.isEmpty then ⟨2, "", programHelp.text, none, none⟩
    else ((notice? parsed).getD (dispatch disk numbers parsed)).unstyled

end Solfege.CommandLine
