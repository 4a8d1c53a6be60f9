import Solfege.Proofs.Playback.Ending
import Solfege.Proofs.Playback.Offline

/-! The moments of a session, one for each timer that runs and one for each command that lets no
time pass, and what they are to a playback: the notes that its units record, and the times at which
it ends and its callback is called. -/
namespace Solfege

/-- Something happens on a stage: a timer runs, or a command is carried out. -/
structure Moment where
  timer : Option Timer
  before : Stage
  after : Stage

/-- What has become of a playback in the course of some moments. -/
structure Account where
  notes : List RecordedNote
  ends : List Binary64
  calls : List Binary64
deriving DecidableEq

namespace Act

/-- The moments of an advance. -/
def drained (perform : Performer) (time : Binary64) : Nat → Stage → List Moment
  | 0, _ => []
  | bound + 1, s =>
    match Stage.nextDue? time s.timers with
    | none => []
    | some timer =>
      ⟨some timer, s, (fire perform timer s).2⟩ ::
        match (fire perform timer s).1 with
        | .ok _ => drained perform time bound (fire perform timer s).2
        | .error _ => []

end Act

namespace Stage

/-- The moments of a command. -/
def moments (s : Stage) (command : Command) : List Moment :=
  match command with
  | .advance lapse =>
    match lapse.toReal with
    | .ok x =>
      let bound := s.load + command.weight
      Act.drained (Act.perform bound) (s.clock + x) bound s
    | .error _ => []
  | _ => [⟨none, s, (s.step command).2⟩]

/-- The stage after commands. -/
def performed (s : Stage) (commands : List Command) : Stage :=
  commands.foldl (fun s command => (s.step command).2) s

/-- The moments of commands. -/
def lived : Stage → List Command → List Moment
  | _, [] => []
  | s, command :: rest => s.moments command ++ (s.step command).2.lived rest

def finishedAt (s : Stage) (i : Nat) : Bool := s.playbacks[i]?.any Playback.finished

end Stage

namespace Moment

/-- The notes that the engine of a playback gains. -/
def gained (moment : Moment) (i : Nat) : List RecordedNote :=
  match moment.before.playbacks[i]?.bind Playback.engine with
  | some e => ((moment.after.notes e).getD []).drop ((moment.before.notes e).getD []).length
  | none => []

/-- The notes that a unit of a playback records. -/
def notes (moment : Moment) (i : Nat) : List RecordedNote :=
  match moment.timer with
  | some ⟨_, _, owner, .unit .., _⟩ => if i = owner then moment.gained i else []
  | _ => []

/-- When a playback ends. -/
def ends (moment : Moment) (i : Nat) : List Binary64 :=
  if !moment.before.finishedAt i && moment.after.finishedAt i then [moment.after.clock] else []

/-- When the callback of a playback is called, as often as that happens. -/
def calls (moment : Moment) (i : Nat) : List Binary64 :=
  List.replicate (moment.after.calls i - moment.before.calls i) moment.after.clock

def account (moments : List Moment) (i : Nat) : Account :=
  ⟨moments.flatMap (·.notes i), moments.flatMap (·.ends i), moments.flatMap (·.calls i)⟩

instance : Append Account where
  append a b := ⟨a.notes ++ b.notes, a.ends ++ b.ends, a.calls ++ b.calls⟩

theorem account_append (moments more : List Moment) (i : Nat) :
    account (moments ++ more) i = account moments i ++ account more i := by
  simp only [account, List.flatMap_append]
  rfl

/-- A timer runs that is due first. -/
inductive Runs : Moment → Prop
  | fire {s : Stage} {timer : Timer} (deep : Nat) : timer.First s.timers →
      Runs ⟨some timer, s, (Act.fire (Act.perform deep) timer s).2⟩

/-- Moments follow each other from stage to stage, while nothing but the clock moves in between. -/
inductive Chain : Stage → List Moment → Stage → Prop
  | nil (s : Stage) (time : Binary64) : Chain s [] { s with clock := time }
  | cons {s t : Stage} {moment : Moment} {moments : List Moment} (time : Binary64) :
      moment.before = { s with clock := time } → Chain moment.after moments t →
      Chain s (moment :: moments) t

theorem Chain.trans {s t u : Stage} {moments more : List Moment} (first : Chain s moments t)
    (second : Chain t more u) : Chain s (moments ++ more) u := by
  induction first with
  | nil s time =>
    cases second with
    | nil _ later => exact .nil s later
    | cons later before rest => exact .cons later before rest
  | cons time before _ ih => exact .cons time before (ih second)

end Moment

open Moment in
theorem Act.drain_chain (perform : Performer) (time : Binary64) (bound : Nat) (s : Stage) :
    Chain s (drained perform time bound s) (drain perform time bound s).2 := by
  induction bound generalizing s with
  | zero => exact .nil s s.clock
  | succ bound ih =>
    rw [drained, drain, get_bind]
    cases Stage.nextDue? time s.timers with
    | none => exact .nil s s.clock
    | some timer =>
      dsimp only
      rw [bind_stage]
      refine .cons s.clock rfl ?_
      dsimp only
      cases (fire perform timer s).1 with
      | error fault => exact .nil _ (fire perform timer s).2.clock
      | ok => exact ih _

namespace Act
variable {perform : Performer} {time : Binary64} {s : Stage} {timer : Timer} {fault : Fault}

theorem drain_idle (perform : Performer) (idle : Stage.nextDue? time s.timers = none)
    (bound : Nat) :
    drain perform time bound s = (.ok (), s) ∧ drained perform time bound s = [] := by
  cases bound with
  | zero => exact ⟨rfl, rfl⟩
  | succ bound =>
    rw [drain, get_bind, drained, idle]
    exact ⟨rfl, rfl⟩

theorem drain_error (next : Stage.nextDue? time s.timers = some timer)
    (fails : (fire perform timer s).1 = .error fault) (bound : Nat) :
    drain perform time (bound + 1) s = (.error fault, (fire perform timer s).2) ∧
      drained perform time (bound + 1) s = [⟨some timer, s, (fire perform timer s).2⟩] := by
  have fired : fire perform timer s = (.error fault, (fire perform timer s).2) := Prod.ext fails rfl
  constructor
  · rw [drain, get_bind, next]
    dsimp only
    rw [bind_apply, fired]
  · rw [drained, next]
    dsimp only
    rw [fails]

theorem drain_ok (next : Stage.nextDue? time s.timers = some timer)
    (fires : (fire perform timer s).1 = .ok ()) (bound : Nat) :
    drain perform time (bound + 1) s = drain perform time bound (fire perform timer s).2 ∧
      drained perform time (bound + 1) s = ⟨some timer, s, (fire perform timer s).2⟩ ::
        drained perform time bound (fire perform timer s).2 := by
  have fired : fire perform timer s = (.ok (), (fire perform timer s).2) := Prod.ext fires rfl
  constructor
  · rw [drain, get_bind, next]
    exact bind_of_ok fired _
  · rw [drained, next]
    dsimp only
    rw [fires]

theorem drained_runs (deep : Nat) (time : Binary64) (bound : Nat) (s : Stage) :
    ∀ moment ∈ drained (Act.perform deep) time bound s, moment.Runs := by
  induction bound generalizing s with
  | zero => simp [drained]
  | succ bound ih =>
    intro moment here
    cases next : Stage.nextDue? time s.timers with
    | none =>
      rw [(drain_idle (Act.perform deep) next (bound + 1)).2] at here
      cases here
    | some timer =>
      have first : Moment.Runs ⟨some timer, s, (fire (Act.perform deep) timer s).2⟩ :=
        .fire deep (Stage.nextDue?_first next)
      cases fires : (fire (Act.perform deep) timer s).1 with
      | error fault =>
        rw [(drain_error next fires bound).2] at here
        exact List.mem_singleton.mp here ▸ first
      | ok =>
        rw [(drain_ok next fires bound).2] at here
        rcases List.mem_cons.mp here with rfl | later
        · exact first
        · exact ih _ moment later

/-- A timer that fails ends the advance that runs it, and nothing happens after it. -/
theorem drained_error {moment : Moment} {bound : Nat}
    (here : moment ∈ drained perform time bound s) (ran : moment.timer = some timer)
    (fails : (fire perform timer moment.before).1 = .error fault) :
    drain perform time bound s = (.error fault, moment.after) := by
  induction bound generalizing s with
  | zero => cases here
  | succ bound ih =>
    cases next : Stage.nextDue? time s.timers with
    | none =>
      rw [(drain_idle perform next (bound + 1)).2] at here
      cases here
    | some other =>
      cases fires : (fire perform other s).1 with
      | error first =>
        obtain ⟨done, moments⟩ := drain_error next fires bound
        rw [moments] at here
        obtain rfl := List.mem_singleton.mp here
        cases ran
        cases fires.symm.trans fails
        exact done
      | ok =>
        obtain ⟨goes, moments⟩ := drain_ok next fires bound
        rw [moments] at here
        rw [goes]
        rcases List.mem_cons.mp here with rfl | later
        · cases ran
          cases fires.symm.trans fails
        · exact ih later

end Act

namespace Stage
open Moment
variable {s : Stage}

theorem moments_chain (s : Stage) (command : Command) :
    Chain s (s.moments command) (s.step command).2 := by
  cases command with
  | advance lapse =>
    rw [moments, step, Act.exec, Act.return_stage, Act.advance, Act.get_bind]
    dsimp only
    rw [Act.bind_stage, Act.ofExcept_apply]
    cases lapse.toReal with
    | error fault => exact .nil s s.clock
    | ok x =>
      let bound := s.load + (Command.advance lapse).weight
      have drained := Act.drain_chain (Act.perform bound) (s.clock + x) bound s
      dsimp only
      rw [Act.bind_stage]
      cases (Act.drain (Act.perform bound) (s.clock + x) bound s).1 with
      | error fault => exact drained
      | ok =>
        rw [← List.append_nil (Act.drained ..)]
        exact drained.trans (.nil _ _)
  | _ => exact .cons s.clock rfl (.nil _ _)

theorem lived_append (s : Stage) (commands more : List Command) :
    s.lived (commands ++ more) = s.lived commands ++ (s.performed commands).lived more := by
  induction commands generalizing s with
  | nil => rfl
  | cons command rest ih =>
    rw [List.cons_append, lived, ih, lived, List.append_assoc]
    rfl

/-- Whenever time passes the moments are timers that run. -/
theorem moments_run (s : Stage) (lapse : Number) :
    ∀ moment ∈ s.moments (.advance lapse), moment.Runs := by
  intro moment here
  rw [moments] at here
  cases given : lapse.toReal with
  | error fault =>
    rw [given] at here
    cases here
  | ok x =>
    rw [given] at here
    exact Act.drained_runs _ _ _ s moment here

theorem lived_runs (s : Stage) (lapses : List Number) :
    ∀ moment ∈ s.lived (lapses.map .advance), moment.Runs := by
  induction lapses generalizing s with
  | nil => simp [lived]
  | cons lapse rest ih =>
    intro moment here
    rw [List.map_cons, lived] at here
    rcases List.mem_append.mp here with first | later
    · exact s.moments_run lapse moment first
    · exact ih _ moment later

/-- An advance that reaches the time of a timer that waits runs a timer. -/
theorem moments_ne_nil {timer : Timer} {lapse : Number} {x : Binary64} (waits : timer ∈ s.timers)
    (real : lapse.toReal = .ok x) (due : timer.due ≤ s.clock + x) :
    s.moments (.advance lapse) ≠ [] := by
  have room : 0 < s.load + (Command.advance lapse).weight := by
    have := List.length_pos_of_mem waits
    unfold load
    omega
  obtain ⟨bound, enough⟩ := Nat.exists_eq_add_one_of_ne_zero (Nat.ne_of_gt room)
  rw [moments, real]
  dsimp only
  rw [enough, Act.drained]
  cases next : nextDue? (s.clock + x) s.timers with
  | none => exact absurd due (nextDue?_eq_none next timer waits)
  | some first => simp

/-- An advance that runs a timer that fails answers so, and leaves the stage as the timer does. -/
theorem step_advance_fails {lapse : Number} {moment : Moment} {timer : Timer} {fault : Fault}
    (here : moment ∈ s.moments (.advance lapse)) (ran : moment.timer = some timer)
    (fails : ∀ perform, (Act.fire perform timer moment.before).1 = .error fault) :
    s.step (.advance lapse) = (.error fault, moment.after) := by
  rw [moments] at here
  cases given : lapse.toReal with
  | error other =>
    rw [given] at here
    cases here
  | ok x =>
    rw [given] at here
    dsimp only at here
    have drained := Act.drained_error here ran (fails _)
    have advanced : Act.advance (Act.perform (s.load + (Command.advance lapse).weight))
        (s.load + (Command.advance lapse).weight) lapse s = (.error fault, moment.after) := by
      rw [Act.advance, Act.get_bind, given, Act.ofExcept_bind_ok, Act.bind_apply, drained]
    rw [step, Act.exec, Act.bind_apply, advanced]

/-- The moments of a session are all that happens in it. -/
theorem lived_chain (s : Stage) (commands : List Command) :
    Chain s (s.lived commands) (s.performed commands) := by
  induction commands generalizing s with
  | nil => exact .nil s s.clock
  | cons command rest ih => exact (moments_chain s command).trans (ih _)

end Stage
end Solfege
