import Solfege.Aural.Score
import Solfege.Journal
import Solfege.Shorthand.Compile

/-! What a session is told to do. Engines and playbacks go by names. A playback may have a program
of further commands, to be carried out when it ends. -/
namespace Solfege

/-- How timers behave. -/
inductive Facility
  /-- timers wait until they are due, and a cancelled one is gone -/
  | queueing
  /-- a timer without delay runs at once instead of waiting -/
  | immediate
  /-- cancelling has no effect -/
  | stubborn
  /-- there are no timers at all -/
  | absent
deriving DecidableEq

inductive ScoreSource
  | music (music : Music)
  | text (text : String)
  | aural (request : Aural.Request) (options : Aural.Options.Values)

/-- How an engine is referred to: not at all, by its own name, or as that of a playback. -/
inductive EngineRef
  | nothing
  | named (id : String)
  | ofPlayback (id : String)

inductive Command
  | engine (id : String) (tempo : Number) (program : Int)
  | schedule (id : String) (engine : EngineRef) (score : ScoreSource) (tempo : Number)
      (facility : Facility) (onFinish : Option (List Command))
  | play (id : String) (engine : EngineRef) (request : Aural.Request)
      (options : Aural.Options.Values) (facility : Facility) (numbers : List Int)
      (onFinish : Option (List Command))
  | silent (id : String) (onFinish : Option (List Command))
  | stop (id : String)
  | finished (id : String)
  | advance (seconds : Number)
  | render (engine : EngineRef) (score : ScoreSource) (start tempo : Number)
  | trigger (engine : EngineRef) (sound : Sound) (duration start velocity : Number)
  | now (engine : EngineRef)
  | notes (engine : EngineRef)
  | clear (engine : EngineRef)
  | write (engine : EngineRef)
  | raise (message : String)

namespace ScoreSource

/-- The score, with what happens while it is built. Random transpositions draw nothing but zeros.
-/
def build : ScoreSource → List Happening × Except Fault Music
  | .music given => ([], .ok given)
  | .text shorthand =>
    match Shorthand.compile shorthand with
    | .error fault => ([], .error fault)
    | .ok compiled => ([compiled.happening shorthand], .ok compiled.music)
  | .aural request options =>
    ([], do
      let options ← options.check
      return (← Aural.score (← request.resolve) options (.ofList [])).1)

def size (source : ScoreSource) : Nat :=
  match source.build.2 with
  | .ok built => built.length
  | .error _ => 0

end ScoreSource

namespace Aural.Request

def size (request : Aural.Request) : Nat :=
  match request.resolve with
  | .ok found => found.length
  | .error _ => 0

end Aural.Request

mutual

/-- A bound on the timers and callbacks that a command can bring about: the units of its score,
its completion, itself, and the same for the program of its playback. -/
def Command.weight : Command → Nat
  | .schedule _ _ score _ _ onFinish => score.size + 2 + callbackWeight onFinish
  | .play _ _ request _ _ _ onFinish => request.size + 3 + callbackWeight onFinish
  | .silent _ onFinish => 1 + callbackWeight onFinish
  | _ => 1

def callbackWeight : Option (List Command) → Nat
  | none => 0
  | some commands => 1 + programWeight commands

def programWeight : List Command → Nat
  | [] => 0
  | command :: rest => command.weight + programWeight rest

end

end Solfege
