import Solfege.Music.Tempo
import Solfege.Playback.Command
import Solfege.Recorder.Writing

/-! The stage on which music is played: one clock, the timers that wait on it, the engines and the
playbacks. An act changes the stage and may fail; what it changed before failing stays changed. -/
namespace Solfege

/-- What a timer does when it is due. -/
inductive Task
  /-- sounds a unit of the score for its length in seconds -/
  | unit (index : Nat) (event : Event) (seconds : Binary64)
  | completion
deriving DecidableEq

structure Timer where
  /-- timers are numbered in the order in which they were made -/
  id : Nat
  due : Binary64
  /-- the playback that the timer belongs to -/
  owner : Nat
  task : Task
  /-- whether cancelling removes the timer -/
  cancellable : Bool
deriving DecidableEq

/-- A program to be carried out when a playback ends. -/
structure Callback where
  /-- the name under which the playback was started -/
  id : String
  program : List Command

structure Playback where
  length : Binary64
  /-- the engine that its units go to; a silent playback has none -/
  engine : Option Nat
  callback : Option Callback
  /-- the timers made for it that have not been seen to run -/
  pending : List Nat
  finished : Bool
  /-- whether its end has been announced, which happens once -/
  notified : Bool

namespace Playback

/-- A playback with nothing to play. It is finished from the start, and a stop announces its end.
-/
def silent (callback : Option Callback) : Playback := ⟨0, none, callback, [], true, false⟩

/-- A playback that has just been set up. -/
def started (length : Binary64) (engine : Nat) (callback : Option Callback) : Playback :=
  ⟨length, some engine, callback, [], false, false⟩

/-- What a playback may still bring about by ending. -/
def load (playback : Playback) : Nat :=
  if playback.notified then 0
  else callbackWeight (playback.callback.map Callback.program)

end Playback

inductive Answer
  | nothing
  | truth (value : Bool)
  | seconds (x : Binary64)
  /-- a playback was started; the draws of chance are told where some could be made -/
  | started (length : Binary64) (hasEngine : Bool) (draws : Option Nat)
  | notes (notes : List RecordedNote)
  | bytes (bytes : List UInt8)

/-- One run of a callback: the playback that ended, its name, and the answers to its program so
far. -/
structure Announcement where
  playback : Nat
  id : String
  answers : List (Except Fault Answer)

structure Stage where
  clock : Binary64
  nextTimer : Nat
  /-- the waiting timers in the order in which they were made -/
  timers : List Timer
  engines : List Recorder
  playbacks : List Playback
  engineNames : List (String × Nat)
  playbackNames : List (String × Nat)
  journal : List Happening
  announcements : List Announcement

abbrev Act (α : Type) := ExceptT Fault (StateM Stage) α

/-- How the program of a callback is carried out; its answers go to the announcement of the given
place. -/
abbrev Performer := Nat → List Command → Act Unit

namespace Stage

/-- The stage before anything has happened. -/
def initial : Stage := ⟨0, 0, [], [], [], [], [], [], []⟩

/-- A bound on the timers and callbacks that can still run without a further command. -/
def load (stage : Stage) : Nat :=
  stage.timers.length + (stage.playbacks.map Playback.load).foldr (· + ·) 0

/-- The timer that is due first, by time and then by number; `timers` is in order of number. -/
def soonest : List Timer → Option Timer
  | [] => none
  | timer :: rest =>
    match soonest rest with
    | none => some timer
    | some other => if other.due < timer.due then some other else some timer

/-- The next timer that is due by a time. A time that is not a number never comes. -/
def nextDue? (time : Binary64) (timers : List Timer) : Option Timer :=
  soonest (timers.filter fun timer => timer.due ≤ time)

def updatePlayback (stage : Stage) (index : Nat) (change : Playback → Playback) : Stage :=
  { stage with playbacks := stage.playbacks.modify index change }

def removeTimer (stage : Stage) (id : Nat) : Stage :=
  { stage with timers := stage.timers.filter fun timer => timer.id ≠ id }

/-- Cancels timers: those that can be cancelled wait no longer. -/
def cancelTimers (stage : Stage) (ids : List Nat) : Stage :=
  { stage with timers := stage.timers.filter fun timer => !(timer.cancellable && timer.id ∈ ids) }

end Stage

namespace Act

/-- Carries out an act and answers with its outcome. -/
def attempt {α : Type} (act : Act α) : Act (Except Fault α) := fun stage =>
  match act stage with
  | (outcome, later) => (.ok outcome, later)

/-- An outcome that needs no stage. -/
def ofExcept {α : Type} (outcome : Except Fault α) : Act α := fun stage => (outcome, stage)

def record (happenings : List Happening) : Act Unit :=
  modify fun stage => { stage with journal := stage.journal ++ happenings }

def addEngine (recorder : Recorder) : Act Nat := do
  let stage ← get
  set { stage with engines := stage.engines ++ [recorder] }
  return stage.engines.length

def addPlayback (playback : Playback) : Act Nat := do
  let stage ← get
  set { stage with playbacks := stage.playbacks ++ [playback] }
  return stage.playbacks.length

def playback (index : Nat) : Act Playback := do
  match (← get).playbacks[index]? with
  | some found => return found
  | none => throw .noSuchHandle

def engine (index : Nat) : Act Recorder := do
  match (← get).engines[index]? with
  | some found => return found
  | none => throw .noSuchEngine

end Act
end Solfege
