import Solfege.Playback.Stage

/-! Playing a score: every unit has a timer of its own, and one more marks the completion. A
playback ends once, by completion or by the first stop, and only then is its callback announced
and its program performed. A playback only ever touches its own timers. -/
namespace Solfege.Act

/-- Has an engine record a sound; a silent playback's engine is none. The journal tells of it in
reals, so numbers too large for one are a fault, but the notes are recorded by then. -/
def trigger (source engine : Option Nat) (names : List String) (duration start velocity : Number) :
    Act Unit := do
  match engine with
  | none => throw (.engineMissing "trigger")
  | some index =>
    let (recorder, outcome) := (← Act.engine index).trigger names duration start velocity
    modify fun stage => { stage with engines := stage.engines.set index recorder }
    ofExcept outcome
    let start ← ofExcept start.toReal
    let duration ← ofExcept duration.toReal
    let velocity ← ofExcept velocity.toReal
    record [.triggered source names start duration velocity]

/-- Sends an event of a given length to an engine at a time on the engine's clock. -/
def dispatch (source engine : Option Nat) (event : Event) (seconds now : Binary64) : Act Unit :=
  trigger source engine event.sound.names (.real seconds)
    (.real (now + event.onset seconds)) (.real event.sound.velocity)

/-- Announces the end of a playback and performs the program of its callback. -/
def announce (perform : Performer) (index : Nat) (callback : Callback) : Act Unit := do
  let stage ← get
  let announcement : Announcement := ⟨index, callback.id, []⟩
  set { stage with announcements := stage.announcements ++ [announcement] }
  perform stage.announcements.length callback.program

/-- Ends a playback: it is finished for good, and its callback is announced. -/
def finish (perform : Performer) (index : Nat) : Act Unit := do
  let playback ← Act.playback index
  modify fun stage =>
    stage.updatePlayback index fun p => { p with finished := true, notified := true }
  record [.ended index]
  match playback.callback with
  | some callback => announce perform index callback
  | none => return ()

/-- Completes a playback that has not ended yet. -/
def complete (perform : Performer) (index : Nat) : Act Unit := do
  if (← Act.playback index).notified then return ()
  modify fun stage => stage.updatePlayback index fun p => { p with pending := [] }
  finish perform index

/-- Stops a playback that has not ended yet: its pending timers are cancelled. -/
def stop (perform : Performer) (index : Nat) : Act Unit := do
  let playback ← Act.playback index
  if playback.notified then record [.stopIgnored]
  else
    modify fun stage => stage.cancelTimers playback.pending
    record [.stopped playback.pending.length]
    modify fun stage => stage.updatePlayback index fun p => { p with pending := [] }
    finish perform index

/-- Runs the task of a timer. A unit whose timer is known is no longer pending. -/
def run (perform : Performer) (owner : Nat) (timer : Option Nat) (task : Task) :
    Act Unit := do
  match task with
  | .completion =>
    record [.ran owner none]
    complete perform owner
  | .unit index event seconds =>
    record [.ran owner (some index)]
    modify fun stage => stage.updatePlayback owner fun p =>
      { p with pending := p.pending.filter fun id => some id ≠ timer }
    let playback ← Act.playback owner
    match playback.engine with
    | none => throw (.engineMissing "now")
    | some engine =>
      let now := (← Act.engine engine).now (← get).clock
      dispatch (some owner) playback.engine event seconds now

/-- A timer for a task, as its number. One without delay may run at once; it is then not known as
a timer yet. -/
def callLater (perform : Performer) (facility : Facility) (owner : Nat)
    (delay : Binary64) (task : Task) : Act Nat := do
  let stage ← get
  let id := stage.nextTimer
  set { stage with nextTimer := id + 1 }
  if facility = .immediate ∧ delay ≤ 0 then run perform owner none task
  else
    let timer : Timer := ⟨id, stage.clock + delay, owner, task, facility ≠ .stubborn⟩
    modify fun stage => { stage with timers := stage.timers ++ [timer] }
  return id

def keep (owner id : Nat) : Act Unit :=
  modify fun stage => stage.updatePlayback owner fun p => { p with pending := p.pending ++ [id] }

/-- Makes a timer for a playback and keeps it as pending. -/
def track (perform : Performer) (facility : Facility) (owner : Nat) (delay : Binary64)
    (task : Task) : Act Unit := do
  let id ← callLater perform facility owner delay task
  keep owner id

/-- Makes the timers of the units of a score, the first of which has the given place. -/
def scheduleUnits (perform : Performer) (facility : Facility) (owner : Nat)
    (scale : Binary64) (tempo : Number) : Nat → Music → Act Unit
  | _, [] => return ()
  | index, event :: rest => do
    let seconds ← ofExcept (event.seconds tempo)
    let delay ← ofExcept (event.delay scale)
    track perform facility owner delay (.unit index event seconds)
    scheduleUnits perform facility owner scale tempo (index + 1) rest

/-- Sets up a playback and makes the timers of its units. Answers with its number and its length.
Everything that can fail without an engine is worked out before the first timer is made. -/
def prepare (perform : Performer) (facility : Facility) (engine : Option Nat)
    (callback : Option Callback) (score : Music) (tempo : Number) : Act (Nat × Binary64) := do
  if facility = .absent then throw .noTimers
  let scale ← ofExcept (Duration.tempoScale tempo)
  let length ← ofExcept (score.seconds tempo)
  let engine ← match engine with
    | some index => pure index
    | none => addEngine (.standard (← get).clock)
  let owner ← addPlayback (.started length engine callback)
  scheduleUnits perform facility owner scale tempo 0 score
  return (owner, length)

def schedule (perform : Performer) (facility : Facility) (engine : Option Nat)
    (callback : Option Callback) (score : Music) (tempo : Number) : Act Nat := do
  let (owner, length) ← prepare perform facility engine callback score tempo
  track perform facility owner length .completion
  record [.scheduled score.length length]
  return owner

/-- Runs a waiting timer, which waits no longer; the clock follows it. -/
def fire (perform : Performer) (timer : Timer) : Act Unit := do
  modify fun stage => { stage.removeTimer timer.id with clock := timer.due }
  run perform timer.owner (some timer.id) timer.task

/-- Runs the timers that are due by a time, one after the other, the clock following them. The
last argument bounds their number. -/
def drain (perform : Performer) (time : Binary64) : Nat → Act Unit
  | 0 => return ()
  | bound + 1 => do
    match Stage.nextDue? time (← get).timers with
    | none => return ()
    | some timer =>
      fire perform timer
      drain perform time bound

/-- Lets time pass. -/
def advance (perform : Performer) (bound : Nat) (seconds : Number) : Act Unit := do
  let time := (← get).clock + (← ofExcept seconds.toReal)
  drain perform time bound
  modify fun stage => { stage with clock := time }

/-- Sends the units of a score to an engine at once, each with its own start. -/
def renderUnits (engine : Option Nat) (scale : Binary64) (start tempo : Number) : Music → Act Unit
  | [] => return ()
  | event :: rest => do
    let seconds ← ofExcept (event.seconds tempo)
    let delay ← ofExcept (event.delay scale)
    dispatch none engine event seconds ((← ofExcept start.toReal) + delay)
    renderUnits engine scale start tempo rest

/-- Sends a whole score to an engine at once and answers with its length. -/
def render (engine : Option Nat) (score : Music) (start tempo : Number) : Act Binary64 := do
  let scale ← ofExcept (Duration.tempoScale tempo)
  renderUnits engine scale start tempo score
  ofExcept (score.seconds tempo)

end Solfege.Act
