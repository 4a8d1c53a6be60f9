import Solfege.Numeral.Printer

/-! Help on the program and on each of its commands: how it is called, what it does, and what its
options and commands are for. -/
namespace Solfege.CommandLine

/-- A term and what it is for, in lines. -/
structure HelpRow where
  term : String
  purpose : List String

/-- What help tells, line by line. -/
structure Help where
  usage : String
  about : List String
  options : List HelpRow
  commands : List HelpRow

namespace Help

def indented (line : String) : String := if line.isEmpty then line else "  " ++ line

/-- Rows under a title, the purposes in a column of their own behind the longest term. Without rows
there is no title either. -/
def table (title : String) (rows : List HelpRow) : List String :=
  let width := (rows.map (·.term.length)).foldl max 0
  let lines := rows.flatMap fun row => row.purpose.mapIdx fun i line =>
    Numeral.alignLeft width (if i = 0 then row.term else "") ++ "  " ++ line
  if rows.isEmpty then [] else "" :: title :: lines.map indented

def text (help : Help) : String :=
  let lines := ["Usage: " ++ help.usage, ""] ++ help.about.map indented ++
    table "Options:" help.options ++ table "Commands:" help.commands
  String.join (lines.map (· ++ "\n"))

end Help

def helpRow : HelpRow := ⟨"-h, --help", ["Show this message and exit."]⟩

def outputRow : HelpRow := ⟨"-o, --output PATH", ["Destination MIDI file path.  [required]"]⟩

/-- How the transposition is explained where it applies to something. -/
def transposeRow (what : String) : HelpRow :=
  ⟨"--transpose SEMITONES|RANDOM",
    ["Shift " ++ what ++ " by this many semitones, or", "'random'.  [default: 0]"]⟩

def programHelp : Help := {
  usage := "intuitune [OPTIONS] COMMAND [ARGS]..."
  about := ["intuitune — shorthand music notation and aural-object playback."]
  options := [⟨"--version", ["Show the version and exit."]⟩,
    ⟨"-v, --verbose", ["Log scheduling and parsing detail."]⟩, helpRow]
  commands := [⟨"aural", ["Write the aural object NAME (e.g."]⟩,
    ⟨"compile", ["Compile shorthand TEXT and print its timed events."]⟩,
    ⟨"names", ["List the phrases accepted by 'aural'."]⟩,
    ⟨"render", ["Compile shorthand TEXT and write it to a MIDI file."]⟩] }

def compileHelp : Help := {
  usage := "intuitune compile [OPTIONS] TEXT"
  about := ["Compile shorthand TEXT and print its timed events.", "", "Examples:",
    "  intuitune compile \"c4,4n e g c5,2n\"",
    "  intuitune compile \"a3,8n b c4 d e\" --transpose 2"]
  options := [transposeRow "every note", helpRow]
  commands := [] }

def renderHelp : Help := {
  usage := "intuitune render [OPTIONS] TEXT"
  about := ["Compile shorthand TEXT and write it to a MIDI file.", "", "Examples:",
    "  intuitune render \"c4,4n d e f g,2n\" -o scale.mid",
    "  intuitune render \"e4,8n d c d e e e,4n\" -o mary.mid --tempo 90"]
  options := [outputRow, ⟨"--tempo INTEGER RANGE",
    ["Playback tempo in BPM.  [default: 120;", "20<=x<=300]"]⟩, transposeRow "every note", helpRow]
  commands := [] }

def auralHelp : Help := {
  usage := "intuitune aural [OPTIONS] NAME"
  about := ["Write the aural object NAME (e.g. \"major chord\") to a MIDI file.", "", "Examples:",
    "  intuitune aural \"perfect 5th\" -o fifth.mid",
    "  intuitune aural \"major scale\" -o scale.mid --no-chord --note-duration auto"]
  options := [outputRow, ⟨"--root TEXT", ["Pitch of degree 0.  [default: F4]"]⟩,
    transposeRow "the root",
    ⟨"--arpeggio / --no-arpeggio", ["Play notes one by one.  [default: arpeggio]"]⟩,
    ⟨"--chord / --no-chord", ["Finish with all notes together.  [default:", "chord]"]⟩,
    ⟨"--note-duration SECS|AUTO",
      ["Seconds per note, or 'auto' to fit the object", "into one second.  [default: 0.6]"]⟩,
    helpRow]
  commands := [] }

def namesHelp : Help := {
  usage := "intuitune names [OPTIONS]"
  about := ["List the phrases accepted by 'aural'."]
  options := [helpRow]
  commands := [] }

end Solfege.CommandLine
