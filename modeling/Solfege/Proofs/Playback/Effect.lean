import Mathlib.Tactic.Simps.Basic
import Solfege.Proofs.Playback.Run

/-! What the acts of a playback do to the stage up to the entry of a callback. Whatever code a
callback runs, it is entered last: ending a playback is one change of the stage, and then the
callback. -/
namespace Solfege

namespace Playback

@[simps] def keep (p : Playback) (id : Nat) : Playback := { p with pending := p.pending ++ [id] }

/-- A timer, when it is known, is no longer pending. -/
@[simps] def forget (p : Playback) (timer : Option Nat) : Playback :=
  { p with pending := p.pending.filter fun id => some id ≠ timer }

/-- A playback that is over: nothing is pending, and its end has been announced. -/
@[simps] def closed (p : Playback) : Playback :=
  { p with pending := [], finished := true, notified := true }

end Playback

/-! The small changes of a stage that acts are made of. -/

namespace Stage
variable {s t u : Stage} {i j : Nat} {p : Playback}

@[simps] def noted (s : Stage) (happenings : List Happening) : Stage :=
  { s with journal := s.journal ++ happenings }

@[simps] def numbered (s : Stage) : Stage := { s with nextTimer := s.nextTimer + 1 }

@[simps] def kept (s : Stage) (owner id : Nat) : Stage :=
  { s with playbacks := s.playbacks.modify owner (·.keep id) }

@[simps] def joined (s : Stage) (p : Playback) : Stage := { s with playbacks := s.playbacks ++ [p] }

/-- Where no engine is given a new one is made. -/
def equipped (s : Stage) : Option Nat → Stage
  | some _ => s
  | none => { s with engines := s.engines ++ [.standard s.clock] }

@[simps] def waiting (s : Stage) (timer : Timer) : Stage :=
  { s with
    nextTimer := s.nextTimer + 1
    timers := s.timers ++ [timer]
    playbacks := s.playbacks.modify timer.owner (·.keep timer.id) }

/-- A timer is taken off to run, and the clock follows it. -/
@[simps] def taken (s : Stage) (timer : Timer) : Stage :=
  { s with timers := s.timers.filter (·.id ≠ timer.id), clock := timer.due }

@[simps] def forgotten (s : Stage) (owner : Nat) (timer : Option Nat) : Stage :=
  { s with playbacks := s.playbacks.modify owner (·.forget timer) }

/-- A playback is over: it is finished for good, and its callback is announced. -/
@[simps] def ended (s : Stage) (i : Nat) (p : Playback) : Stage :=
  { s with
    playbacks := s.playbacks.modify i Playback.closed
    journal := s.journal ++ [.ended i]
    announcements :=
      s.announcements ++ (p.callback.map fun callback => ⟨i, callback.id, []⟩).toList }

/-- A playback completes, unless it is over. -/
def completed (s : Stage) (i : Nat) : Stage :=
  match s.playbacks[i]? with
  | some p => if p.notified then s else s.ended i p
  | none => s

/-- A playback is stopped, unless it is over. -/
def stopped (s : Stage) (i : Nat) : Stage :=
  match s.playbacks[i]? with
  | some p =>
    if p.notified then s.noted [.stopIgnored]
    else ((s.cancelTimers p.pending).noted [.stopped p.pending.length]).ended i p
  | none => s

/-- A unit of a playback sounds. -/
def sounded (s : Stage) (owner : Nat) (timer : Option Nat) (index : Nat) (event : Event)
    (seconds : Binary64) : Stage :=
  (Act.run .idle owner timer (.unit index event seconds) s).2

/-- The task of a timer that was taken off is carried out. -/
def fired (s : Stage) (timer : Timer) : Stage :=
  match timer.task with
  | .unit index event seconds =>
    (s.taken timer).sounded timer.owner (some timer.id) index event seconds
  | .completion => ((s.taken timer).noted [.ran timer.owner none]).completed timer.owner

/-- All that a completion can do. -/
theorem completed_cases (s : Stage) (i : Nat) :
    s.completed i = s ∨ ∃ p, s.playbacks[i]? = some p ∧ p.notified = false ∧
      s.completed i = s.ended i p := by
  unfold completed
  cases found : s.playbacks[i]? with
  | none => exact .inl rfl
  | some p =>
    cases live : p.notified with
    | true => exact .inl (if_pos live)
    | false => exact .inr ⟨p, rfl, live, if_neg (by simp [live])⟩

/-- All that a stop can do. -/
theorem stopped_cases (s : Stage) (i : Nat) :
    s.stopped i = s ∨ s.stopped i = s.noted [.stopIgnored] ∨
    ∃ p, s.playbacks[i]? = some p ∧ p.notified = false ∧ s.stopped i =
      ((s.cancelTimers p.pending).noted [.stopped p.pending.length]).ended i p := by
  unfold stopped
  cases found : s.playbacks[i]? with
  | none => exact .inl rfl
  | some p =>
    cases live : p.notified with
    | true => exact .inr (.inl (if_pos live))
    | false => exact .inr (.inr ⟨p, rfl, live, if_neg (by simp [live])⟩)

/-- All that a waiting timer can do. -/
theorem fired_cases (s : Stage) (timer : Timer) :
    (∃ index event seconds, s.fired timer =
      (s.taken timer).sounded timer.owner (some timer.id) index event seconds) ∨
    s.fired timer = ((s.taken timer).noted [.ran timer.owner none]).completed timer.owner := by
  unfold fired
  cases timer.task with
  | unit index event seconds => exact .inl ⟨index, event, seconds, rfl⟩
  | completion => exact .inr rfl

end Stage

/-! An engine that is asked to sound changes at most its notes and the journal. -/

/-- Names may have been sounded. -/
structure Sounding (source : Option Nat) (names : List String) (s t : Stage) : Prop where
  clock : t.clock = s.clock
  nextTimer : t.nextTimer = s.nextTimer
  timers : t.timers = s.timers
  playbacks : t.playbacks = s.playbacks
  announcements : t.announcements = s.announcements
  engines : t.engines.length = s.engines.length
  journal : t.journal = s.journal ∨ ∃ start duration velocity,
    t.journal = s.journal ++ [.triggered source names start duration velocity]

namespace Sounding
variable {source : Option Nat} {names : List String}

theorem refl (s : Stage) : Sounding source names s s := ⟨rfl, rfl, rfl, rfl, rfl, rfl, .inl rfl⟩

theorem set (s : Stage) (e : Nat) (recorder : Recorder) :
    Sounding source names s { s with engines := s.engines.set e recorder } :=
  ⟨rfl, rfl, rfl, rfl, rfl, List.length_set, .inl rfl⟩

end Sounding

namespace Act
variable {perform : Performer} {s t : Stage} {i : Nat} {p : Playback}

/-- Performs the program of a callback, if there is one. -/
def enter (perform : Performer) (place : Nat) : Option Callback → Act Unit
  | some callback => perform place callback.program
  | none => return ()

theorem finish_apply (found : s.playbacks[i]? = some p) :
    finish perform i s = enter perform s.announcements.length p.callback
      { s with
        playbacks := s.playbacks.modify i fun q => { q with finished := true, notified := true }
        journal := s.journal ++ [.ended i]
        announcements :=
          s.announcements ++ (p.callback.map fun callback => ⟨i, callback.id, []⟩).toList } := by
  simp only [finish, bind_apply, playback_apply, found]
  cases p.callback with
  | none => simp [enter, Stage.updatePlayback]
  | some callback => simp [enter, announce, Stage.updatePlayback, bind_apply]

theorem complete_apply (perform : Performer) (i : Nat) (s : Stage) :
    complete perform i s = match s.playbacks[i]? with
      | some p =>
        if p.notified then (.ok (), s)
        else enter perform s.announcements.length p.callback (s.ended i p)
      | none => (.error .noSuchHandle, s) := by
  simp only [complete, bind_apply, playback_apply]
  cases found : s.playbacks[i]? with
  | none => rfl
  | some p =>
    simp only
    split
    · rfl
    · simp [bind_apply, finish_apply, Stage.updatePlayback, Stage.ended, found,
        List.modify_modify_eq, Function.comp_def]
      rfl

theorem stop_apply (perform : Performer) (i : Nat) (s : Stage) :
    stop perform i s = match s.playbacks[i]? with
      | some p =>
        if p.notified then (.ok (), s.noted [.stopIgnored])
        else enter perform s.announcements.length p.callback (s.stopped i)
      | none => (.error .noSuchHandle, s) := by
  simp only [stop, bind_apply, playback_apply]
  cases found : s.playbacks[i]? with
  | none => rfl
  | some p =>
    simp only
    split
    · rfl
    · rename_i live
      simp [bind_apply, finish_apply, Stage.updatePlayback, Stage.ended, Stage.stopped, Stage.noted,
        Stage.cancelTimers, found, live, List.modify_modify_eq, Function.comp_def]
      rfl

theorem callLater_apply (perform : Performer) (facility : Facility) (owner : Nat)
    (delay : Binary64) (task : Task) (s : Stage) :
    callLater perform facility owner delay task s =
      if facility = .immediate ∧ delay ≤ 0 then
        (run perform owner none task >>= fun _ => return s.nextTimer) s.numbered
      else (.ok s.nextTimer, { s.numbered with
        timers := s.timers ++
          [⟨s.nextTimer, s.clock + delay, owner, task, facility ≠ .stubborn⟩] }) := by
  rw [callLater, get_bind, set_bind]
  split <;> rfl

/-- A task that does not run at once waits for its time. -/
theorem track_waits {facility : Facility} {delay : Binary64}
    (later : ¬ (facility = .immediate ∧ delay ≤ 0)) (perform : Performer) (owner : Nat)
    (task : Task) (s : Stage) :
    track perform facility owner delay task s = (.ok (), s.waiting
      ⟨s.nextTimer, s.clock + delay, owner, task, facility ≠ .stubborn⟩) := by
  rw [track, bind_apply, callLater_apply, if_neg later]
  rfl

/-- The number of a task that runs at once is kept when the task is over. -/
theorem track_runs {facility : Facility} {delay : Binary64}
    (now : facility = .immediate ∧ delay ≤ 0) (perform : Performer) (owner : Nat)
    (task : Task) (s : Stage) :
    track perform facility owner delay task s =
      (run perform owner none task >>= fun _ => keep owner s.nextTimer) s.numbered := by
  rw [track, bind_apply, callLater_apply, if_pos now]
  simp only [bind_apply]
  rcases run perform owner none task s.numbered with ⟨_ | _, t⟩ <;> rfl

theorem prepare_apply (perform : Performer) (facility : Facility) (engine : Option Nat)
    (callback : Option Callback) (score : Music) (tempo : Number) (s : Stage) :
    prepare perform facility engine callback score tempo s =
      if facility = .absent then (.error .noTimers, s)
      else match Duration.tempoScale tempo, score.seconds tempo with
        | .ok scale, .ok length =>
          (scheduleUnits perform facility s.playbacks.length scale tempo 0 score >>=
              fun _ => return (s.playbacks.length, length))
            ((s.equipped engine).joined
              (.started length (engine.getD s.engines.length) callback))
        | .error fault, _ | .ok _, .error fault => (.error fault, s) := by
  unfold prepare
  split
  · rfl
  · dsimp only
    rw [bind_apply, ofExcept_apply]
    cases Duration.tempoScale tempo with
    | error fault => rfl
    | ok scale =>
      cases score.seconds tempo with
      | error fault => rfl
      | ok length => cases engine <;> rfl

theorem run_completion_apply (perform : Performer) (owner : Nat) (timer : Option Nat) (s : Stage) :
    run perform owner timer .completion s =
      complete perform owner (s.noted [.ran owner none]) := rfl

theorem run_unit_apply (perform : Performer) (owner : Nat) (timer : Option Nat) (index : Nat)
    (event : Event) (seconds : Binary64) (s : Stage) :
    run perform owner timer (.unit index event seconds) s =
      let t := (s.noted [.ran owner (some index)]).forgotten owner timer
      match t.playbacks[owner]? with
      | none => (.error .noSuchHandle, t)
      | some p =>
        match p.engine with
        | none => (.error (.engineMissing "now"), t)
        | some e =>
          match t.engines[e]? with
          | none => (.error .noSuchEngine, t)
          | some recorder =>
            dispatch (some owner) (some e) event seconds (recorder.now t.clock) t := by
  generalize forgot : (s.noted [.ran owner (some index)]).forgotten owner timer = t
  have same : { s with journal := s.journal ++ [Happening.ran owner (some index)] }.updatePlayback
      owner (fun p => { p with pending := p.pending.filter fun id => some id ≠ timer }) = t :=
    forgot
  simp only [run, bind_apply, record_apply, modify_apply, playback_apply, same]
  cases t.playbacks[owner]? with
  | none => rfl
  | some p =>
    simp only
    cases p.engine with
    | none => rfl
    | some e =>
      dsimp only
      rw [bind_apply, engine_apply]
      cases t.engines[e]? with
      | none => rfl
      | some recorder => exact get_bind _ t

theorem run_unit_sounded (perform : Performer) (owner : Nat) (timer : Option Nat) (index : Nat)
    (event : Event) (seconds : Binary64) (s : Stage) :
    (run perform owner timer (.unit index event seconds) s).2 =
      s.sounded owner timer index event seconds := rfl

theorem enter_idle (place : Nat) (callback : Option Callback) (s : Stage) :
    enter .idle place callback s = (.ok (), s) := by
  cases callback <;> rfl

theorem stop_idle (i : Nat) (s : Stage) : (stop .idle i s).2 = s.stopped i := by
  rw [stop_apply]
  cases found : s.playbacks[i]? with
  | none => simp [Stage.stopped, found]
  | some p =>
    by_cases done : p.notified <;> simp [Stage.stopped, found, done, enter_idle]

/-- The stage after code was entered is the one it found, or the one that a callback left. -/
def Enters (perform : Performer) (found left : Stage) : Prop :=
  left = found ∨ ∃ place program, left = (perform place program found).2

theorem enter_enters (perform : Performer) (place : Nat) (callback : Option Callback) (s : Stage) :
    Enters perform s (enter perform place callback s).2 := by
  cases callback with
  | none => exact .inl rfl
  | some callback => exact .inr ⟨place, callback.program, rfl⟩

/-- A playback that completes is followed by its callback. -/
theorem complete_stage (perform : Performer) (i : Nat) (s : Stage) :
    (complete perform i s).2 = s.completed i ∨
    ∃ p callback, s.playbacks[i]? = some p ∧ p.callback = some callback ∧
      (complete perform i s).2 =
        (perform s.announcements.length callback.program (s.completed i)).2 := by
  rw [complete_apply, Stage.completed]
  cases s.playbacks[i]? with
  | none => exact .inl rfl
  | some p =>
    dsimp only
    split
    · exact .inl rfl
    · cases called : p.callback with
      | none => exact .inl rfl
      | some callback => exact .inr ⟨p, callback, rfl, called, rfl⟩

theorem complete_enters (perform : Performer) (i : Nat) (s : Stage) :
    Enters perform (s.completed i) (complete perform i s).2 := by
  rcases complete_stage perform i s with same | ⟨_, _, _, _, same⟩
  · exact .inl same
  · exact .inr ⟨_, _, same⟩

theorem stop_enters (perform : Performer) (i : Nat) (s : Stage) :
    Enters perform (s.stopped i) (stop perform i s).2 := by
  rw [stop_apply]
  cases found : s.playbacks[i]? with
  | none => exact .inl (by simp [Stage.stopped, found])
  | some p =>
    dsimp only
    split
    · rename_i done
      exact .inl (by simp [Stage.stopped, found, done])
    · exact enter_enters ..

theorem fire_stage (perform : Performer) (timer : Timer) (s : Stage) :
    (fire perform timer s).2 = s.fired timer ∨
    ∃ p callback, s.playbacks[timer.owner]? = some p ∧ p.callback = some callback ∧
      (fire perform timer s).2 =
        (perform s.announcements.length callback.program (s.fired timer)).2 := by
  rw [fire, bind_apply, modify_apply, Stage.fired]
  cases timer.task with
  | unit index event seconds => exact .inl rfl
  | completion =>
    exact complete_stage perform timer.owner ((s.taken timer).noted [.ran timer.owner none])

theorem fire_enters (perform : Performer) (timer : Timer) (s : Stage) :
    Enters perform (s.fired timer) (fire perform timer s).2 := by
  rcases fire_stage perform timer s with same | ⟨_, _, _, _, same⟩
  · exact .inl same
  · exact .inr ⟨_, _, same⟩

theorem trigger_sounding (source engine : Option Nat) (names : List String)
    (duration start velocity : Number) (s : Stage) :
    Sounding source names s (trigger source engine names duration start velocity s).2 := by
  cases engine with
  | none => exact .refl s
  | some e =>
    simp only [trigger, bind_apply, engine_apply]
    cases s.engines[e]? with
    | none => exact .refl s
    | some recorder =>
      simp only [modify_apply, ofExcept_apply]
      cases (recorder.trigger names duration start velocity).2 with
      | error fault => exact .set s e _
      | ok =>
        cases start.toReal with
        | error fault => exact .set s e _
        | ok start =>
          cases duration.toReal with
          | error fault => exact .set s e _
          | ok duration =>
            cases velocity.toReal with
            | error fault => exact .set s e _
            | ok velocity =>
              exact ⟨rfl, rfl, rfl, rfl, rfl, List.length_set,
                .inr ⟨start, duration, velocity, rfl⟩⟩

/-- A sound whose numbers are reals and whose names are pitch names is recorded and told. -/
theorem trigger_real {e : Nat} {recorder later : Recorder} {names : List String}
    {duration start velocity : Binary64} (source : Option Nat)
    (found : s.engines[e]? = some recorder)
    (sounds : recorder.trigger names (.real duration) (.real start) (.real velocity) =
      (later, .ok ())) :
    trigger source (some e) names (.real duration) (.real start) (.real velocity) s =
      (.ok (), { s with
        engines := s.engines.set e later
        journal := s.journal ++ [.triggered source names start duration velocity] }) := by
  simp only [trigger, bind_apply, engine_apply, found, sounds]
  rfl

end Act

namespace Stage
variable {s : Stage} {owner index : Nat} {timer : Option Nat} {event : Event} {seconds : Binary64}

theorem sounded_sounding (s : Stage) (owner : Nat) (timer : Option Nat) (index : Nat)
    (event : Event) (seconds : Binary64) :
    Sounding (some owner) event.sound.names
      ((s.noted [.ran owner (some index)]).forgotten owner timer)
      (s.sounded owner timer index event seconds) := by
  unfold sounded
  rw [Act.run_unit_apply]
  generalize (s.noted [.ran owner (some index)]).forgotten owner timer = t
  dsimp only
  cases t.playbacks[owner]? with
  | none => exact .refl t
  | some p =>
    dsimp only
    cases p.engine with
    | none => exact .refl t
    | some e =>
      dsimp only
      cases t.engines[e]? with
      | none => exact .refl t
      | some recorder => exact Act.trigger_sounding ..

@[simp] theorem sounded_timers : (s.sounded owner timer index event seconds).timers = s.timers :=
  (sounded_sounding ..).timers

@[simp] theorem sounded_nextTimer :
    (s.sounded owner timer index event seconds).nextTimer = s.nextTimer :=
  (sounded_sounding ..).nextTimer

@[simp] theorem sounded_playbacks :
    (s.sounded owner timer index event seconds).playbacks =
      s.playbacks.modify owner (·.forget timer) :=
  (sounded_sounding ..).playbacks

@[simp] theorem sounded_announcements :
    (s.sounded owner timer index event seconds).announcements = s.announcements :=
  (sounded_sounding ..).announcements

@[simp] theorem sounded_engines :
    (s.sounded owner timer index event seconds).engines.length = s.engines.length :=
  (sounded_sounding ..).engines

/-- A unit that runs tells so, and then what it sounded, unless that failed. -/
theorem sounded_journal (s : Stage) (owner : Nat) (timer : Option Nat) (index : Nat)
    (event : Event) (seconds : Binary64) : ∃ heard,
    (s.sounded owner timer index event seconds).journal =
      s.journal ++ .ran owner (some index) :: heard ∧
    (heard = [] ∨ ∃ start duration velocity,
      heard = [.triggered (some owner) event.sound.names start duration velocity]) := by
  rcases (sounded_sounding s owner timer index event seconds).journal with
    silent | ⟨start, duration, velocity, told⟩
  · exact ⟨[], silent, .inl rfl⟩
  · refine ⟨_, ?_, .inr ⟨start, duration, velocity, rfl⟩⟩
    rw [told]
    exact List.append_assoc ..

end Stage
end Solfege
