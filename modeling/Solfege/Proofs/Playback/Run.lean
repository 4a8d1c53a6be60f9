import Solfege.Proofs.Playback.Act

/-! Runs of a stage. A run is any sequence of commands and of waiting timers that run. The code of a
callback is arbitrary, provided that it acts on the stage by a run of its own. -/
namespace Solfege

/-- The order in which waiting timers run. -/
inductive Order
  /-- whichever comes -/
  | any
  /-- the one that is due first -/
  | due

/-- The timer that is due first among those that wait in order of age, by time and then by age. A
timer whose time is not a number never comes and holds up no other. -/
structure Timer.First (timers : List Timer) (timer : Timer) : Prop where
  comes : timer.due ≤ timer.due
  place : ∃ older newer, timers = older ++ timer :: newer ∧
    (∀ other ∈ older, ¬ other.due ≤ timer.due) ∧ ∀ other ∈ newer, ¬ other.due < timer.due

/-- Whether a waiting timer may run. -/
def Order.Allows : Order → List Timer → Timer → Prop
  | .any, timers, timer => timer ∈ timers
  | .due, timers, timer => timer.First timers

/-- Launches a playback on immediate timers. When it has no length it ends here, before its start
is answered. -/
def Act.launch (perform : Performer) (engine : Option Nat) (callback : Option Callback)
    (score : Music) (tempo : Number) : Act Unit := do
  let (owner, length) ← prepare perform .immediate engine callback score tempo
  if length ≤ 0 then let _ ← callLater perform .immediate owner length .completion

namespace Stage

/-- The stages that a run leads to. The stages that a callback finds are among them: a callback that
does nothing is code like any other, and a callback that is entered while its playback is being
started finds the stage after `build` and `launch`. -/
inductive Reaches (order : Order) : Stage → Stage → Prop
  | refl (s : Stage) : Reaches order s s
  /-- a command is carried out -/
  | exec {s t : Stage} {perform : Performer} : Reaches order s t →
      (∀ place program u, Reaches order u (perform place program u).2) →
      (bound : Nat) → (command : Command) → Reaches order s (Act.exec perform bound command t).2
  /-- a score is played, for an engine that need not have a name -/
  | schedule {s t : Stage} {perform : Performer} : Reaches order s t →
      (∀ place program u, Reaches order u (perform place program u).2) → (facility : Facility) →
      (engine : Option Nat) → (callback : Option Callback) → (score : Music) → (tempo : Number) →
      Reaches order s (Act.schedule perform facility engine callback score tempo t).2
  /-- a playback is stopped, which need not have a name -/
  | stop {s t : Stage} {perform : Performer} : Reaches order s t →
      (∀ place program u, Reaches order u (perform place program u).2) → (i : Nat) →
      Reaches order s (Act.stop perform i t).2
  /-- a waiting timer runs -/
  | fire {s t : Stage} {perform : Performer} {timer : Timer} : Reaches order s t →
      (∀ place program u, Reaches order u (perform place program u).2) →
      order.Allows t.timers timer → Reaches order s (Act.fire perform timer t).2
  /-- a score is built -/
  | build {s t : Stage} : Reaches order s t → (source : ScoreSource) →
      Reaches order s (Act.build source t).2
  /-- a playback is launched -/
  | launch {s t : Stage} {perform : Performer} : Reaches order s t →
      (∀ place program u, Reaches order u (perform place program u).2) →
      (engine : Option Nat) → (callback : Option Callback) → (score : Music) → (tempo : Number) →
      Reaches order s (Act.launch perform engine callback score tempo t).2
  /-- a command of a callback is answered -/
  | answer {s t : Stage} : Reaches order s t → (place : Nat) → (outcome : Except Fault Answer) →
      Reaches order s (Act.answer place outcome t).2
  /-- the clock moves -/
  | tick {s t : Stage} : Reaches order s t → (time : Binary64) →
      Reaches order s { t with clock := time }

end Stage

/-- Code that acts on the stage by runs. -/
def Performer.Lawful (order : Order) (perform : Performer) : Prop :=
  ∀ place program s, Stage.Reaches order s (perform place program s).2

/-- The code of a callback that does nothing. -/
def Performer.idle : Performer := fun _ _ => return ()

namespace Stage.Reaches
variable {order : Order} {s t u : Stage}

theorem trans (first : Reaches order s t) (second : Reaches order t u) : Reaches order s u := by
  induction second with
  | refl => exact first
  | exec _ lawful bound command ih => exact .exec (ih first) lawful bound command
  | schedule _ lawful facility engine callback score tempo ih =>
    exact .schedule (ih first) lawful facility engine callback score tempo
  | stop _ lawful i ih => exact .stop (ih first) lawful i
  | fire _ lawful allowed ih => exact .fire (ih first) lawful allowed
  | build _ source ih => exact .build (ih first) source
  | launch _ lawful engine callback score tempo ih =>
    exact .launch (ih first) lawful engine callback score tempo
  | answer _ place outcome ih => exact .answer (ih first) place outcome
  | tick _ time ih => exact .tick (ih first) time

end Stage.Reaches

namespace Performer
variable {order : Order} {perform : Performer}

theorem idle_lawful : idle.Lawful order := fun _ _ s => .refl s

theorem execAll_reaches (lawful : perform.Lawful order) (bound place : Nat)
    (program : List Command) (s : Stage) :
    Stage.Reaches order s (Act.execAll perform bound place program s).2 := by
  induction program generalizing s with
  | nil => exact .refl s
  | cons command rest ih =>
    by_cases raised : ∃ message, command = .raise message
    · obtain ⟨message, rfl⟩ := raised
      exact .refl s
    · rw [Act.execAll.eq_3 _ _ _ _ _ fun message same => raised ⟨message, same⟩,
        Act.bind_of_ok (Act.attempt_apply _ s)]
      have done := Stage.Reaches.exec (.refl s) lawful bound command
      exact (done.answer place _).trans (ih _)

/-- Programs of commands are lawful code, however deep their callbacks are nested. -/
theorem perform_lawful (bound : Nat) : Lawful order (Act.perform bound) := by
  induction bound with
  | zero => exact fun _ _ s => .refl s
  | succ bound ih => exact fun place program s => execAll_reaches ih bound place program s

end Performer

/-- A command of a session is a run. -/
theorem Stage.step_reaches {order : Order} (s : Stage) (command : Command) :
    Reaches order s (s.step command).2 :=
  .exec (.refl s) (Performer.perform_lawful _) _ command

end Solfege
