import Solfege.Proofs.Playback.Moments
import Solfege.Proofs.Playback.Starts

/-! Sessions in which playbacks are only started, stopped and left to their timers. All that a
playback does in them can be told from outside. -/
namespace Solfege

/-- A score whose names are those of pitches, if there is one. -/
def ScoreSource.Pitched (source : ScoreSource) : Prop :=
  ∀ score ∈ source.build.2.toOption, score.Pitched

instance (source : ScoreSource) : Decidable source.Pitched :=
  inferInstanceAs (Decidable (∀ score ∈ source.build.2.toOption, score.Pitched))

/-- A command that starts no playback but on timers that wait and with a callback that stands by,
the names of its score being those of pitches. -/
def Command.Orderly : Command → Prop
  | .schedule _ _ source _ facility onFinish =>
    facility = .queueing ∧ source.Pitched ∧
      ∀ program ∈ onFinish, ∀ command ∈ program, command.standsBy = true
  | .stop _ | .advance _ => True
  | command => command.standsBy = true

instance : DecidablePred Command.Orderly
  | .schedule .. => inferInstanceAs (Decidable (_ ∧ _ ∧ ∀ program ∈ _, ∀ command ∈ program, _ = _))
  | .stop _ | .advance _ => inferInstanceAs (Decidable True)
  | .engine .. | .play .. | .silent .. | .finished _ | .render .. | .trigger .. | .now _ | .notes _
  | .clear _ | .write _ | .raise _ => inferInstanceAs (Decidable (_ = true))

theorem Command.Orderly.kinds {command : Command} (fair : command.Orderly) :
    (∃ id ref source tempo onFinish,
      command = .schedule id ref source tempo .queueing onFinish) ∨
    (∃ id, command = .stop id) ∨ (∃ lapse, command = .advance lapse) ∨
      command.standsBy = true := by
  cases command with
  | schedule id ref source tempo facility onFinish =>
    obtain ⟨rfl, _⟩ := fair
    exact .inl ⟨id, ref, source, tempo, onFinish, rfl⟩
  | stop id => exact .inr (.inl ⟨id, rfl⟩)
  | advance lapse => exact .inr (.inr (.inl ⟨lapse, rfl⟩))
  | _ => exact .inr (.inr (.inr fair))

/-- How often the callback of a playback has been called. -/
def Face.calls (f : Face) : Nat := if f.notified && f.callback.isSome then 1 else 0

namespace Stage

structure Orderly (s : Stage) : Prop where
  tracks : s.Tracks
  settled : ∀ i, s.Settled i
  honoured : ∀ timer ∈ s.timers, timer.cancellable = true
  pitched : ∀ timer ∈ s.timers, timer.task.Pitched
  faces : s.Faces
  named : s.Named

variable {s t : Stage} {i : Nat} {f : Face} {timer : Timer}

theorem finishedAt_face (s : Stage) (i : Nat) :
    s.finishedAt i = (s.face i).any Face.finished := by
  rw [finishedAt, face]
  cases s.playbacks[i]? <;> rfl

theorem face_eq_none : s.face i = none ↔ s.playbacks.length ≤ i := by
  rw [face, Option.map_eq_none_iff, List.getElem?_eq_none_iff]

namespace Orderly

theorem initial : Orderly .initial where
  tracks := .initial
  settled := .initial
  honoured := by simp [Stage.initial]
  pitched := by simp [Stage.initial]
  faces := by simp [Faces, face, Stage.initial]
  named := by simp [Named, Stage.initial]

/-- Every timer that waits is that of a playback. -/
theorem owner (orderly : s.Orderly) (waiting : timer ∈ s.timers) :
    ∃ f, s.face timer.owner = some f := by
  have there := Tracked.owned orderly.tracks timer waiting
  exact ⟨_, face_of_found (List.getElem?_eq_getElem there)⟩

/-- What has been called can be seen. -/
theorem calls (orderly : s.Orderly) (i : Nat) : s.calls i = ((s.face i).map Face.calls).getD 0 := by
  rw [face]
  cases found : s.playbacks[i]? with
  | none => exact ((orderly.settled i).absent found).2
  | some p => exact (orderly.settled i).called p found

/-- A run keeps a stage orderly, where its new timers are such. -/
theorem leads (orderly : s.Orderly) (leads : Leads .any s t)
    (timers : ∀ timer ∈ t.timers,
      timer ∈ s.timers ∨ timer.cancellable = true ∧ timer.task.Pitched)
    (faces : t.Faces) (named : t.Named) : t.Orderly where
  tracks := orderly.tracks.changes leads
  settled i := (orderly.settled i).changes leads
  honoured timer here := (timers timer here).elim (orderly.honoured timer) And.left
  pitched timer here := (timers timer here).elim (orderly.pitched timer) And.right
  faces := faces
  named := named

theorem tick (orderly : s.Orderly) (time : Binary64) : Orderly { s with clock := time } :=
  orderly.leads (.aside (.of_quiet rfl rfl rfl rfl rfl (Nat.le_refl _)))
    (fun _ here => .inl here) (orderly.faces.congr (face_congr rfl rfl))
    (orderly.named.congr rfl rfl)

theorem idles (orderly : s.Orderly) (leads : Leads .any s t) (idles : Idles s t)
    (named : t.Named) : t.Orderly := by
  refine orderly.leads leads (fun timer here => ?_) (orderly.faces.congr (idles.face orderly.faces))
    named
  rw [idles.timers] at here
  exact .inl here

theorem ends {left : List Timer} (orderly : s.Orderly) (leads : Leads .any s t)
    (ends : Ends i f left s t) (seen : s.face i = some f)
    (fewer : ∀ timer ∈ left, timer ∈ s.timers) : t.Orderly := by
  refine orderly.leads leads (fun timer here => ?_)
    (orderly.faces.change (orderly.faces i f seen).ended ends.face ends.others) ends.named
  rw [ends.timers] at here
  exact .inl (fewer timer here)

theorem fires (orderly : s.Orderly) (leads : Leads .any s t) (fires : Fires timer f s t)
    (seen : s.face timer.owner = some f) : t.Orderly := by
  have fit := orderly.faces timer.owner f seen
  have later : (f.after timer.task).Fit := by
    cases timer.task with
    | unit => exact fit
    | completion => exact fit.ended
  refine orderly.leads leads (fun other here => ?_)
    (orderly.faces.change later fires.face fires.others) fires.named
  rw [fires.timers] at here
  exact .inl (List.mem_filter.mp here).1

theorem starts {id : String} {tasks : List (Binary64 × Task)} (orderly : s.Orderly)
    (leads : Leads .any s t) (starts : Starts id f tasks s t) (fit : f.Fit)
    (pitched : ∀ cue ∈ tasks, cue.2.Pitched) : t.Orderly := by
  obtain ⟨added, timers, cues, owned⟩ := starts.timers
  refine orderly.leads leads (fun timer here => ?_)
    (orderly.faces.change fit starts.face starts.others) starts.named
  rw [timers] at here
  rcases List.mem_append.mp here with old | new
  · exact .inl old
  · refine .inr ⟨(owned timer new).2, ?_⟩
    have cue := List.mem_map_of_mem (f := fun timer : Timer => (timer.due, timer.task)) new
    rw [cues] at cue
    exact pitched _ cue

/-- A timer that waits can run. -/
theorem runs (orderly : s.Orderly) (waiting : timer ∈ s.timers) (bound : Nat) :
    ∃ f, s.face timer.owner = some f ∧
      (Act.fire (Act.perform (bound + 1)) timer s).1 = f.answers timer.task ∧
      Fires timer f s (Act.fire (Act.perform (bound + 1)) timer s).2 := by
  obtain ⟨f, seen⟩ := orderly.owner waiting
  exact ⟨f, seen, Act.fire_fires (orderly.pitched timer waiting) orderly.faces orderly.named seen
    bound⟩

theorem fire (orderly : s.Orderly) (waiting : timer ∈ s.timers) (bound : Nat) :
    (Act.fire (Act.perform (bound + 1)) timer s).2.Orderly := by
  obtain ⟨f, seen, _, fires⟩ := orderly.runs waiting bound
  have allowed : Order.any.Allows s.timers timer := waiting
  have leads := Act.fire_leads (Performer.perform_lawful (bound + 1)).walks allowed
  exact orderly.fires leads fires seen

theorem fire_fewer (orderly : s.Orderly) (waiting : timer ∈ s.timers) {size : Nat}
    (enough : s.timers.length ≤ size + 1) (bound : Nat) :
    (Act.fire (Act.perform (bound + 1)) timer s).2.timers.length ≤ size := by
  obtain ⟨f, _, _, fires⟩ := orderly.runs waiting bound
  have fewer : (s.timers.filter (·.id ≠ timer.id)).length < s.timers.length :=
    List.length_filter_lt_length_iff_exists.mpr ⟨timer, waiting, by simp⟩
  rw [fires.timers]
  omega

theorem drain (orderly : s.Orderly) (time : Binary64) (deep bound : Nat) :
    (Act.drain (Act.perform (deep + 1)) time bound s).2.Orderly := by
  induction bound generalizing s with
  | zero => exact orderly
  | succ bound ih =>
    rw [Act.drain, Act.get_bind]
    cases next : nextDue? time s.timers with
    | none => exact orderly
    | some timer =>
      have fired := orderly.fire (nextDue?_first next).waits deep
      dsimp only
      rw [Act.bind_stage]
      cases (Act.fire (Act.perform (deep + 1)) timer s).1 with
      | error fault => exact fired
      | ok => exact ih fired

end Orderly

end Stage

namespace Moment
variable {moment other : Moment} {i j : Nat}

/-- What a moment is to a playback can be told from what is seen of it. -/
theorem account_congr (before : moment.before.Orderly) (after : moment.after.Orderly)
    (first : other.before.Orderly) (last : other.after.Orderly)
    (was : moment.before.face i = other.before.face j)
    (is : moment.after.face i = other.after.face j)
    (clock : moment.after.clock = other.after.clock) (notes : moment.notes i = other.notes j) :
    account [moment] i = account [other] j := by
  have ends : moment.ends i = other.ends j := by
    rw [Moment.ends, Moment.ends, Stage.finishedAt_face, Stage.finishedAt_face,
      Stage.finishedAt_face, Stage.finishedAt_face, was, is, clock]
  have calls : moment.calls i = other.calls j := by
    rw [Moment.calls, Moment.calls, before.calls, after.calls, first.calls, last.calls, was, is,
      clock]
  simp only [account, List.flatMap_singleton, notes, ends, calls]

/-- A moment is nothing to a playback that looks the same after it and records nothing. -/
theorem account_still (before : moment.before.Orderly) (after : moment.after.Orderly)
    (same : moment.after.face i = moment.before.face i) (silent : moment.notes i = []) :
    account [moment] i = account [] i := by
  have ends : moment.ends i = [] := by
    rw [Moment.ends, Stage.finishedAt_face, Stage.finishedAt_face, same]
    cases (moment.before.face i).any Face.finished <;> rfl
  have calls : moment.calls i = [] := by
    rw [Moment.calls, before.calls, after.calls, same, Nat.sub_self, List.replicate_zero]
  simp only [account, List.flatMap_singleton, List.flatMap_nil, silent, ends, calls]

end Moment

namespace Stage
variable {s t : Stage} {i : Nat} {f : Face}

/-! The commands that act on timers. -/

theorem weight_pos (command : Command) : 0 < command.weight := by
  cases command with
  | schedule | play | silent =>
    rw [Command.weight]
    omega
  | _ => simp [Command.weight]

theorem deep (s : Stage) (command : Command) :
    ∃ deep, s.load + command.weight = deep + 1 ∧ s.timers.length ≤ deep + 1 := by
  have pos := weight_pos command
  have load : s.timers.length ≤ s.load := Nat.le_add_right ..
  exact ⟨s.load + command.weight - 1, by omega, by omega⟩

theorem step_advance_error {lapse : Number} {fault : Fault} (none : lapse.toReal = .error fault) :
    s.moments (.advance lapse) = [] ∧ (s.step (.advance lapse)).2 = s := by
  constructor
  · rw [moments, none]
  · rw [step, Act.exec, Act.return_stage, Act.advance, Act.get_bind]
    dsimp only
    rw [Act.bind_stage, Act.ofExcept_apply, none]

theorem step_advance {lapse : Number} {x : Binary64} (given : lapse.toReal = .ok x) :
    ∃ deep, s.timers.length ≤ deep + 1 ∧
      let done := Act.drain (Act.perform (deep + 1)) (s.clock + x) (deep + 1) s
      s.moments (.advance lapse) =
        Act.drained (Act.perform (deep + 1)) (s.clock + x) (deep + 1) s ∧
      (s.step (.advance lapse)).2 = { done.2 with
        clock := match done.1 with
          | .ok _ => s.clock + x
          | .error _ => done.2.clock } := by
  obtain ⟨deep, bound, enough⟩ := s.deep (.advance lapse)
  refine ⟨deep, enough, ?_, ?_⟩
  · rw [moments, given]
    dsimp only
    rw [bound]
  · rw [step, bound, Act.exec, Act.return_stage, Act.advance, Act.get_bind]
    dsimp only
    rw [Act.bind_stage, Act.ofExcept_apply, given]
    dsimp only
    rw [Act.bind_stage]
    cases (Act.drain (Act.perform (deep + 1)) (s.clock + x) (deep + 1) s).1 <;> rfl

theorem step_stop_none {id : String}
    (none : (s.playbackNames.lookup id).bind s.face = none) : (s.step (.stop id)).2 = s := by
  rw [step, Act.exec, Act.bind_stage, Act.playbackNamed, Act.get_bind]
  cases named : s.playbackNames.lookup id with
  | none => rfl
  | some i =>
    have missing : s.playbacks[i]? = .none := by
      rw [named, Option.bind_some, face, Option.map_eq_none_iff] at none
      exact none
    show ((Act.stop _ i >>= fun _ => pure Answer.nothing) s).2 = s
    rw [Act.return_stage, Act.stop_apply, missing]

theorem Orderly.step_stop {id : String} (orderly : s.Orderly)
    (named : s.playbackNames.lookup id = some i) (seen : s.face i = some f) :
    Ends i f (f.leaves i s.timers) s (s.step (.stop id)).2 := by
  obtain ⟨deep, bound, _⟩ := s.deep (.stop id)
  have known : Act.playbackNamed id s = (.ok i, s) := by
    rw [Act.playbackNamed, Act.get_bind, named]
    rfl
  rw [step, bound, Act.exec, Act.bind_of_ok known, Act.return_stage]
  exact (Act.stop_ends orderly.tracks orderly.honoured orderly.faces orderly.named seen deep).2

theorem Orderly.step_bystands {command : Command} (orderly : s.Orderly)
    (stands : command.standsBy = true) :
    Bystands (command.makes s.clock) s (s.step command).2 :=
  Act.exec_standsBy _ stands _ orderly.named

theorem Orderly.step_schedule (orderly : s.Orderly) (id : String) (ref : EngineRef)
    (source : ScoreSource) (tempo : Number) (onFinish : Option (List Command)) :
    Attempts id (s.starting id ref source tempo onFinish) s
      (s.step (.schedule id ref source tempo .queueing onFinish)).2 :=
  let bound := s.load + (Command.schedule id ref source tempo .queueing onFinish).weight
  Act.exec_schedule (Act.perform bound) bound orderly.faces orderly.named id ref source onFinish

/-- Every command of an orderly session leaves the stage orderly. -/
theorem Orderly.step {command : Command} (orderly : s.Orderly) (fair : command.Orderly) :
    (s.step command).2.Orderly := by
  have leads : Leads .any s (s.step command).2 := (s.step_reaches command).leads
  rcases fair.kinds with ⟨id, ref, source, tempo, onFinish, rfl⟩ | ⟨id, rfl⟩ | ⟨lapse, rfl⟩ | stands
  · obtain ⟨_, pitched, stands⟩ := fair
    have attempts := orderly.step_schedule id ref source tempo onFinish
    cases found : s.starting id ref source tempo onFinish with
    | none =>
      rw [found] at attempts
      exact orderly.idles leads attempts.1 (attempts.1.bystands attempts.2 orderly.named).named
    | some playing =>
      obtain ⟨f, tasks⟩ := playing
      rw [found] at attempts
      obtain ⟨score, scale, time, built, _, rfl, rfl⟩ := starting_eq_some found
      have tasks := (pitched score (by rw [built]; rfl)).tasks s.clock scale tempo
      refine orderly.starts leads attempts ⟨⟨_, rfl⟩, ?_⟩ tasks
      intro callback here
      obtain ⟨program, given, rfl⟩ := Option.map_eq_some_iff.mp here
      exact stands program given
  · cases seen : (s.playbackNames.lookup id).bind s.face with
    | none =>
      rw [step_stop_none seen]
      exact orderly
    | some f =>
      obtain ⟨i, named, here⟩ := Option.bind_eq_some_iff.mp seen
      exact orderly.ends leads (orderly.step_stop named here) here
        fun timer left => Face.mem_of_mem_leaves left
  · cases given : lapse.toReal with
    | error fault =>
      rw [(step_advance_error given).2]
      exact orderly
    | ok x =>
      obtain ⟨deep, _, _, after⟩ := s.step_advance given
      rw [after]
      exact (orderly.drain ..).tick _
  · have bystands := orderly.step_bystands stands
    exact orderly.idles leads bystands.idles bystands.named

theorem Orderly.performed {commands : List Command} (orderly : s.Orderly)
    (fair : ∀ command ∈ commands, command.Orderly) : (s.performed commands).Orderly := by
  induction commands generalizing s with
  | nil => exact orderly
  | cons command rest ih =>
    exact ih (orderly.step (fair command List.mem_cons_self))
      fun later member => fair later (List.mem_cons_of_mem command member)

end Stage
end Solfege
