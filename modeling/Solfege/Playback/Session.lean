import Solfege.Playback.Schedule

/-! Sessions: commands carried out one after the other on a stage, each with an entry that tells
its answer and what has become of the stage. A command that fails does not end the session. -/
namespace Solfege

namespace Act

def playbackNamed (id : String) : Act Nat := do
  match (← get).playbackNames.lookup id with
  | some index => return index
  | none => throw .noSuchHandle

def engineNamed (id : String) : Act Nat := do
  match (← get).engineNames.lookup id with
  | some index => return index
  | none => throw .noSuchEngine

/-- The engine referred to; nothing, and a silent playback, have none. -/
def engineOf : EngineRef → Act (Option Nat)
  | .nothing => return none
  | .named id => return some (← engineNamed id)
  | .ofPlayback id => do
    let playback ← Act.playback (← playbackNamed id)
    return playback.engine

def engineFor (wanted : String) (ref : EngineRef) : Act Nat := do
  match ← engineOf ref with
  | some index => return index
  | none => throw (.engineMissing wanted)

/-- Gives a playback a name, in place of whatever had it. -/
def namePlayback (id : String) (index : Nat) : Act Unit :=
  modify fun stage => { stage with
    playbackNames := (id, index) :: stage.playbackNames.filter (·.1 ≠ id) }

/-- Gives an engine a name, in place of whatever had it. -/
def nameEngine (id : String) (index : Nat) : Act Unit :=
  modify fun stage => { stage with
    engineNames := (id, index) :: stage.engineNames.filter (·.1 ≠ id) }

def build (source : ScoreSource) : Act Music := do
  let (happenings, outcome) := source.build
  record happenings
  ofExcept outcome

/-- A callback that carries out a program in the name of a playback. -/
def callbackOf (id : String) (onFinish : Option (List Command)) : Option Callback :=
  onFinish.map fun program => ⟨id, program⟩

/-- The answer about a playback that was started. -/
def startedAnswer (index : Nat) (draws : Option Nat) : Act Answer := do
  let playback ← Act.playback index
  return .started playback.length playback.engine.isSome draws

/-- Plays an aural object: nothing to play makes a silent playback. Answers with the number of the
playback and the draws that were made. -/
def play (perform : Performer) (facility : Facility) (engine : Option Nat)
    (callback : Option Callback) (request : Aural.Request) (options : Aural.Options)
    (chance : Chance) : Act (Nat × Nat) := do
  let degrees ← ofExcept request.resolve
  if degrees.isEmpty then return (← addPlayback (.silent callback), chance.draws)
  let (score, later) ← ofExcept (Aural.score degrees options chance)
  let index ← schedule perform facility engine callback score Duration.referenceTempo
  return (index, later.draws)

/-- Writes out a recording, the notes skipped on the way entered. -/
def write (index : Nat) : Act (List UInt8) := do
  let (skipped, outcome) := (← Act.engine index).bytes
  record (skipped.map Happening.skipped)
  ofExcept outcome

def exec (perform : Performer) (bound : Nat) : Command → Act Answer
  | .engine id tempo program => do
    let recorder ← ofExcept (Recorder.make tempo program (← get).clock)
    nameEngine id (← addEngine recorder)
    return .nothing
  | .schedule id engine source tempo facility onFinish => do
    let score ← build source
    let engine ← engineOf engine
    let index ← schedule perform facility engine (callbackOf id onFinish) score tempo
    namePlayback id index
    startedAnswer index none
  | .play id engine request values facility numbers onFinish => do
    let options ← ofExcept values.check
    let engine ← engineOf engine
    let (index, draws) ←
      play perform facility engine (callbackOf id onFinish) request options (.ofList numbers)
    namePlayback id index
    startedAnswer index (some draws)
  | .silent id onFinish => do
    let index ← addPlayback (.silent (callbackOf id onFinish))
    namePlayback id index
    startedAnswer index none
  | .stop id => do
    stop perform (← playbackNamed id)
    return .nothing
  | .finished id => do
    let playback ← Act.playback (← playbackNamed id)
    return .truth playback.finished
  | .advance seconds => do
    advance perform bound seconds
    return .nothing
  | .render ref source start tempo => do
    let score ← build source
    let engine ← engineOf ref
    return .seconds (← render engine score start tempo)
  | .trigger ref sound duration start velocity => do
    trigger none (← engineOf ref) sound.names duration start velocity
    return .nothing
  | .now ref => do
    let recorder ← Act.engine (← engineFor "now" ref)
    return .seconds (recorder.now (← get).clock)
  | .notes ref => do
    let recorder ← Act.engine (← engineFor "notes" ref)
    return .notes recorder.notes
  | .clear ref => do
    let index ← engineFor "clear" ref
    modify fun stage => { stage with engines := stage.engines.modify index Recorder.clear }
    return .nothing
  | .write ref => do
    return .bytes (← write (← engineFor "write" ref))
  | .raise message => throw (.raised message)

/-- Adds an answer to the announcement of a place. -/
def answer (place : Nat) (outcome : Except Fault Answer) : Act Unit :=
  modify fun stage => { stage with
    announcements := stage.announcements.modify place fun announcement =>
      { announcement with answers := announcement.answers ++ [outcome] } }

/-- Carries out a program, its answers going to an announcement. A fault is an answer like any
other, but raising a fault ends the program with it. -/
def execAll (perform : Performer) (bound place : Nat) : List Command → Act Unit
  | [] => return ()
  | .raise message :: _ => throw (.raised message)
  | command :: rest => do
    answer place (← attempt (exec perform bound command))
    execAll perform bound place rest

/-- Performs the program of a callback. The first argument bounds how deep callbacks are nested
and how many timers an advance runs. -/
def perform : Nat → Performer
  | 0, _, _ => return ()
  | bound + 1, place, program => execAll (perform bound) bound place program

end Act

/-- What a command came to: its answer, the stage after it, and what happened meanwhile. -/
structure Entry where
  answer : Except Fault Answer
  clock : Binary64
  waiting : Nat
  finished : List String
  announcements : List Announcement
  journal : List Happening

namespace Stage

/-- The names of the playbacks that are finished, in alphabetical order. -/
def finishedNames (stage : Stage) : List String :=
  (stage.playbackNames.filterMap fun (id, index) =>
    if (stage.playbacks[index]?).any Playback.finished then some id else none).mergeSort

/-- Carries out one command. The timers and callbacks that it can bring about are bounded by what
the stage holds and the command adds. -/
def step (stage : Stage) (command : Command) : Except Fault Answer × Stage :=
  let bound := stage.load + command.weight
  Act.exec (Act.perform bound) bound command stage

/-- Carries out one command and tells what it came to. -/
def enter (stage : Stage) (command : Command) : Entry × Stage :=
  let (answer, later) := stage.step command
  (⟨answer, later.clock, later.timers.length, later.finishedNames,
    later.announcements.drop stage.announcements.length,
    later.journal.drop stage.journal.length⟩, later)

def enterAll (stage : Stage) : List Command → List Entry
  | [] => []
  | command :: rest =>
    let (entry, later) := stage.enter command
    entry :: later.enterAll rest

end Stage

def session (commands : List Command) : List Entry := Stage.initial.enterAll commands

end Solfege
