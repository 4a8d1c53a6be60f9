import Solfege.Proofs.Outcome
import Solfege.Proofs.Pitch.Name
import Solfege.Proofs.Playback.Agenda
import Solfege.Proofs.Playback.Faces

/-! Units that fail. A unit with a name that is not that of a pitch records the names before it and
ends the advance that runs it. Nothing else is lost: all other units are played, with the notes that
they have in the score without the failing ones, and the playback completes. -/
namespace Solfege

namespace Sound

/-- The names that a sound is heard with: those before the first that is not that of a pitch. -/
def heardNames (sound : Sound) : List String := sound.names.takeWhile Pitch.isName

/-- The first name of a sound that is not that of a pitch. -/
def misnomer? (sound : Sound) : Option String := sound.names.find? fun name => !Pitch.isName name

/-- What an engine answers that is asked for a sound: what is wrong with its first misnomer. -/
def outcome (sound : Sound) : Except Fault Unit :=
  match sound.misnomer? with
  | some name => (Pitch.numberOf name).map fun _ => ()
  | none => .ok ()

theorem outcome_eq_error {sound : Sound} {name : String}
    (misnomer : sound.misnomer? = some name) :
    ∃ fault, Pitch.Misnames name fault ∧ sound.outcome = .error fault := by
  have unnamed : Pitch.isName name = false := by simpa using List.find?_some misnomer
  obtain ⟨fault, failed⟩ := Pitch.isName_eq_false.mp unnamed
  refine ⟨fault, Pitch.numberOf_eq_error.mp failed, ?_⟩
  rw [outcome, misnomer]
  exact map_eq_error.mpr failed

end Sound

/-- All names of an event are those of pitches. -/
def Event.pitched (event : Event) : Bool := event.sound.names.all Pitch.isName

/-- The notes that a unit leaves on an engine made at a time: one for each name that is heard. -/
def Plan.notes (plan : Plan) (origin : Binary64) (cue : Event × Nat) : List RecordedNote :=
  let seconds := cue.1.lasts plan.tempo
  let start := (plan.unit cue).due - origin + cue.1.onset seconds
  cue.1.sound.heardNames.filterMap fun name => (Pitch.numberOf name).toOption.map fun number =>
    ⟨number, .real start, .real seconds, .real cue.1.sound.velocity⟩

theorem Recorder.notesFor_eq (duration start velocity : Number) (names : List String) :
    notesFor duration start velocity names =
      ((names.takeWhile Pitch.isName).filterMap fun name =>
        (Pitch.numberOf name).toOption.map fun number => ⟨number, start, duration, velocity⟩,
      match names.find? fun name => !Pitch.isName name with
      | some name => (Pitch.numberOf name).map fun _ => ()
      | none => .ok ()) := by
  induction names with
  | nil => rfl
  | cons name rest ih =>
    rw [notesFor]
    cases valid : Pitch.isName name with
    | true =>
      obtain ⟨number, named⟩ := Pitch.isName_iff.mp valid
      rw [List.takeWhile_cons_of_pos valid, List.find?_cons_of_neg (by simp [valid]), named, ih]
      simp [named, Except.toOption]
    | false =>
      obtain ⟨fault, unnamed⟩ := Pitch.isName_eq_false.mp valid
      rw [List.takeWhile_cons_of_neg (by simp [valid]), List.find?_cons_of_pos (by simp [valid])]
      dsimp only
      rw [unnamed]
      rfl

namespace Act
variable {s : Stage} {p : Playback} {e : Nat} {recorder : Recorder}

/-- What a sound whose numbers are reals answers, and what it leaves on its engine. -/
theorem trigger_records (source : Option Nat) (there : s.engines[e]? = some recorder)
    (names : List String) (duration start velocity : Binary64) :
    let heard := Recorder.notesFor (.real duration) (.real start) (.real velocity) names
    let done := trigger source (some e) names (.real duration) (.real start) (.real velocity) s
    done.1 = heard.2 ∧
      done.2.engines = s.engines.set e { recorder with notes := recorder.notes ++ heard.1 } := by
  intro heard done
  let later : Recorder := { recorder with notes := recorder.notes ++ heard.1 }
  have opened : done = (ofExcept heard.2 >>= fun _ =>
      record [.triggered source names start duration velocity])
        { s with engines := s.engines.set e later } := by
    unfold done
    simp only [trigger, bind_apply, engine_apply, there]
    rfl
  rw [opened, bind_apply, ofExcept_apply]
  cases heard.2 <;> exact ⟨rfl, rfl⟩

/-- What a unit answers, and what it leaves on its engine. -/
theorem run_unit_records {owner : Nat} (found : s.playbacks[owner]? = some p)
    (engine : p.engine = some e) (there : s.engines[e]? = some recorder) (perform : Performer)
    (timer : Option Nat) (index : Nat) (event : Event) (seconds : Binary64) :
    let heard := Recorder.notesFor (.real seconds)
      (.real (recorder.now s.clock + event.onset seconds)) (.real event.sound.velocity)
      event.sound.names
    let done := run perform owner timer (.unit index event seconds) s
    done.1 = heard.2 ∧
      done.2.engines = s.engines.set e { recorder with notes := recorder.notes ++ heard.1 } := by
  have known : ((s.noted [.ran owner (some index)]).forgotten owner timer).playbacks[owner]? =
      some (p.forget timer) := by
    simp [found]
  have heard : ((s.noted [.ran owner (some index)]).forgotten owner timer).engines[e]? =
      some recorder := there
  rw [run_unit_apply]
  dsimp only
  rw [known]
  dsimp only
  rw [Playback.forget_engine, engine]
  dsimp only
  rw [heard]
  exact trigger_records (some owner) heard ..

/-- A unit of a plan answers with its first misnomer and leaves the notes before that. -/
theorem fire_unit_records {plan : Plan} (cue : Event × Nat)
    (found : s.playbacks[plan.owner]? = some p) (engine : p.engine = some e)
    (there : s.engines[e]? = some recorder) (perform : Performer) :
    (fire perform (plan.unit cue) s).1 = cue.1.sound.outcome ∧
      (s.fired (plan.unit cue)).engines = s.engines.set e
        { recorder with notes := recorder.notes ++ plan.notes recorder.origin cue } := by
  obtain ⟨answer, engines⟩ := run_unit_records (s := s.taken (plan.unit cue)) found engine there
    perform (some (plan.unit cue).id) cue.2 cue.1 (cue.1.lasts plan.tempo)
  rw [Recorder.notesFor_eq] at answer engines
  exact ⟨answer, engines⟩

end Act

namespace Stage
variable {i e deep : Nat} {s t u : Stage} {timer : Timer} {time : Binary64}

/-! Timers of other playbacks. -/

/-- A playback waits while something else happens. -/
structure Passes (i : Nat) (s t : Stage) : Prop where
  timers : t.timersOf i = s.timersOf i
  playback : t.playbacks[i]? = s.playbacks[i]?
  origin : ∀ e time, s.origin e = some time → t.origin e = some time

theorem sounded_origin (owner : Nat) (timer : Option Nat) (index : Nat) (event : Event)
    (seconds : Binary64) (made : s.origin e = some time) :
    (s.sounded owner timer index event seconds).origin e = some time := by
  have same : ((s.noted [.ran owner (some index)]).forgotten owner timer).origin e = some time :=
    made
  unfold sounded
  rw [Act.run_unit_apply]
  revert same
  generalize (s.noted [.ran owner (some index)]).forgotten owner timer = t
  intro same
  dsimp only
  cases t.playbacks[owner]? with
  | none => exact same
  | some p =>
    dsimp only
    cases p.engine with
    | none => exact same
    | some engine =>
      dsimp only
      cases t.engines[engine]? with
      | none => exact same
      | some recorder => exact (Act.StandsBy.trigger _ _ _ _ _ _ t).1.origins e time same

theorem fired_passes (tracks : s.Tracks) (waits : timer ∈ s.timers) (other : timer.owner ≠ i) :
    Passes i s (s.fired timer) := by
  refine ⟨(Spares.fired tracks waits other).timers, ?_, fun e time made => ?_⟩
  · rcases fired_cases s timer with ⟨index, event, seconds, same⟩ | same
    · rw [same, sounded_playbacks]
      exact List.getElem?_modify_ne _ _ other
    · rw [same]
      rcases completed_cases ((s.taken timer).noted [.ran timer.owner none]) timer.owner with
        still | ⟨p, _, _, ends⟩
      · rw [still]
        rfl
      · rw [ends, ended_playbacks]
        exact List.getElem?_modify_ne _ _ other
  · rcases fired_cases s timer with ⟨index, event, seconds, same⟩ | same
    · rw [same]
      exact sounded_origin (s := s.taken timer) _ _ _ _ _ made
    · rw [same, origin, completed_engines]
      exact made

/-- When a timer that waits ends its playback, unless it is the given one, the callback acts neither
on timers nor on playbacks. -/
def Calm (i : Nat) (s : Stage) : Prop :=
  ∀ timer ∈ s.timers, timer.owner ≠ i → ∀ p, s.playbacks[timer.owner]? = some p →
    ∀ callback ∈ p.callback, callback.StandsBy

theorem Calm.fire_idles (calm : s.Calm i) (waits : timer ∈ s.timers) (other : timer.owner ≠ i)
    (deep : Nat) : Idles (s.fired timer) (Act.fire (Act.perform deep) timer s).2 := by
  rcases Act.fire_stage (Act.perform deep) timer s with same | ⟨p, callback, found, called, same⟩
  · rw [same]
    exact .refl _
  · rw [same]
    exact Act.perform_idles (calm timer waits other p found callback called) deep _ _

theorem Calm.fire_passes (calm : s.Calm i) (tracks : s.Tracks) (waits : timer ∈ s.timers)
    (other : timer.owner ≠ i) (deep : Nat) :
    Passes i s (Act.fire (Act.perform deep) timer s).2 := by
  have fired := fired_passes tracks waits other
  have idles := calm.fire_idles waits other deep
  refine ⟨?_, ?_, fun e time made => idles.origins e time (fired.origin e time made)⟩
  · rw [timersOf, idles.timers, ← timersOf, fired.timers]
  · rw [idles.playbacks, fired.playback]

/-- What is calm stays calm while no timers are made but for the given playback. -/
theorem Calm.later {order : Order} (calm : s.Calm i) (tracks : s.Tracks) (leads : Leads order s t)
    (fewer : ∀ timer ∈ t.timers, timer.owner ≠ i → timer ∈ s.timers) : t.Calm i := by
  intro timer here other p found callback called
  have waits := fewer timer here other
  have known := List.getElem?_eq_getElem (Tracked.owned tracks timer waits)
  obtain ⟨q, later, aged⟩ := Changes.ages leads known
  cases found.symm.trans later
  exact calm timer waits other _ known callback (aged.callback ▸ called)

end Stage

/-! Moments. -/

/-- The unit that a task plays, with its place. -/
def Task.cue? : Task → Option (Event × Nat)
  | .unit index event _ => some (event, index)
  | .completion => none

namespace Moment

/-- The unit of a playback that is played. -/
def unit? (moment : Moment) (i : Nat) : Option (Event × Nat) :=
  moment.timer.bind fun timer => if timer.owner = i then timer.task.cue? else none

/-- Whether it is the completion of a playback that runs. -/
def closes (moment : Moment) (i : Nat) : Bool :=
  moment.timer.any fun timer => timer.owner = i && timer.task = .completion

/-- The units of a playback that are played in the course of some moments, each with the notes that
its engine gains. -/
def takes (moments : List Moment) (i : Nat) : List ((Event × Nat) × List RecordedNote) :=
  moments.filterMap fun moment => (moment.unit? i).map fun cue => (cue, moment.gained i)

/-- A unit of a plan is played: the notes before its first misnomer are recorded, the clock follows
its timer, and the misnomer is the fault. -/
structure Plays (moment : Moment) (plan : Plan) (origin : Binary64) (cue : Event × Nat) : Prop where
  timer : moment.timer = some (plan.unit cue)
  gained : moment.gained plan.owner = plan.notes origin cue
  clock : moment.after.clock = (plan.unit cue).due
  answers : ∀ perform,
    (Act.fire perform (plan.unit cue) moment.before).1 = cue.1.sound.outcome

variable {s t : Stage} {timer : Timer} {plan : Plan} {score : Music} {cue : Event × Nat} {i : Nat}

theorem unit?_unit : (Moment.mk (some (plan.unit cue)) s t).unit? plan.owner = some cue := by
  simp [unit?, Task.cue?]

theorem unit?_last : (Moment.mk (some (plan.last score)) s t).unit? plan.owner = none := by
  simp [unit?, Task.cue?]

theorem unit?_other (other : timer.owner ≠ i) : (Moment.mk (some timer) s t).unit? i = none := by
  simp [unit?, other]

theorem closes_unit : (Moment.mk (some (plan.unit cue)) s t).closes plan.owner = false := by
  simp [closes]

theorem closes_last : (Moment.mk (some (plan.last score)) s t).closes plan.owner = true := by
  simp [closes]

theorem closes_other (other : timer.owner ≠ i) :
    (Moment.mk (some timer) s t).closes i = false := by
  simp [closes, other]

end Moment

namespace Stage
variable {plan : Plan} {score : Music} {callback : Option Callback} {origin time : Binary64}
  {played waiting : List (Event × Nat)} {cue : Event × Nat} {deep : Nat} {s t : Stage}
  {timer : Timer}

/-! A playback until it completes. -/

/-- A playback has not completed yet, whatever has become of the units that were played. -/
structure Underway (plan : Plan) (score : Music) (callback : Option Callback) (origin : Binary64)
    (played waiting : List (Event × Nat)) (s : Stage) : Prop where
  agenda : s.Agenda plan score played waiting
  playback : ∃ p, s.playbacks[plan.owner]? = some p ∧ p.callback = callback ∧
    p.notified = false ∧ p.engine.bind s.origin = some origin
  tracks : s.Tracks
  settled : s.Settled plan.owner
  calm : s.Calm plan.owner

/-- A playback is over and has no timer left. -/
structure Past (plan : Plan) (callback : Option Callback) (s : Stage) : Prop where
  gone : s.Gone plan.owner
  callback : ∃ p, s.playbacks[plan.owner]? = some p ∧ p.callback = callback
  tracks : s.Tracks
  settled : s.Settled plan.owner

namespace Underway

theorem tick (under : s.Underway plan score callback origin played waiting) (time : Binary64) :
    Underway plan score callback origin played waiting { s with clock := time } :=
  ⟨under.agenda.congr rfl, under.playback, under.tracks,
    under.settled.quiet ⟨rfl, rfl, fun _ => .rfl⟩, under.calm⟩

/-- A timer of another playback runs. -/
theorem other (under : s.Underway plan score callback origin played waiting)
    (first : timer.First s.timers) (other : timer.owner ≠ plan.owner) (deep : Nat) :
    Underway plan score callback origin played waiting
      (Act.fire (Act.perform deep) timer s).2 := by
  have passes := under.calm.fire_passes under.tracks first.waits other deep
  have leads : Leads .due s (Act.fire (Act.perform deep) timer s).2 :=
    Act.fire_leads (Performer.perform_lawful deep).walks first
  obtain ⟨p, found, called, live, made⟩ := under.playback
  obtain ⟨e, engine, made⟩ := Option.bind_eq_some_iff.mp made
  refine ⟨under.agenda.congr passes.timers, ⟨p, passes.playback.trans found, called, live, ?_⟩,
    under.tracks.changes leads, under.settled.changes leads,
    under.calm.later under.tracks leads fun other here _ => ?_⟩
  · rw [engine]
    exact passes.origin e _ made
  · rw [(under.calm.fire_idles first.waits ‹_› deep).timers, fired_queue] at here
    exact (List.mem_filter.mp here).1

/-- A unit is played, and the others stay. -/
theorem unit (under : s.Underway plan score callback origin played waiting)
    (measured : ∀ event ∈ score, event.Measured plan.scale plan.tempo) (here : cue ∈ waiting)
    (first : (plan.unit cue).First s.timers) :
    (Moment.mk (some (plan.unit cue)) s (s.fired (plan.unit cue))).Plays plan origin cue ∧
    ∃ waiting, Underway plan score callback origin (played ++ [cue]) waiting
      (s.fired (plan.unit cue)) := by
  obtain ⟨p, found, called, live, made⟩ := under.playback
  obtain ⟨e, engine, made⟩ := Option.bind_eq_some_iff.mp made
  obtain ⟨recorder, there, rfl⟩ := Option.map_eq_some_iff.mp made
  have records := Act.fire_unit_records cue found engine there
  have engines := (records .idle).2
  have leads : Leads .due s (s.fired (plan.unit cue)) := .single (.fire _ first)
  obtain ⟨left, agenda⟩ := under.agenda.plays under.tracks measured here first (fired_timers s _)
  refine ⟨⟨rfl, gained_sounds found engine there engines _, ?_, fun perform => (records perform).1⟩,
    left, agenda, ?_, under.tracks.changes leads, under.settled.changes leads,
    under.calm.later under.tracks leads fun other here _ => ?_⟩
  · exact (sounded_sounding (s.taken (plan.unit cue)) ..).clock
  · refine ⟨p.forget (some (plan.unit cue).id), ?_, called, live, ?_⟩
    · have modified : (s.fired (plan.unit cue)).playbacks =
          s.playbacks.modify plan.owner (·.forget (some (plan.unit cue).id)) := sounded_playbacks
      rw [modified, List.getElem?_modify_eq, found]
      rfl
    · rw [Playback.forget_engine, engine, Option.bind_some, Stage.origin, engines,
        origin_set there, made]
      rfl
  · rw [fired_queue] at here
    exact (List.mem_filter.mp here).1

/-- The completion finds no unit waiting and ends the playback. -/
theorem last (under : s.Underway plan score callback origin played waiting)
    (measured : ∀ event ∈ score, event.Measured plan.scale plan.tempo)
    (first : (plan.last score).First s.timers) (deep : Nat) :
    waiting = [] ∧ Past plan callback (Act.fire (Act.perform deep) (plan.last score) s).2 := by
  obtain rfl := under.agenda.last_alone under.tracks measured first
  obtain ⟨p, found, called, _⟩ := under.playback
  have there := (List.getElem?_eq_some_iff.mp found).1
  let entered := s.fired (plan.last score)
  have fires : Leads .due s entered := .single (.fire _ first)
  have follows : Leads .due entered (Act.fire (Act.perform deep) (plan.last score) s).2 :=
    Act.enters_leads (Performer.perform_lawful deep).walks (Act.fire_enters ..)
  have gone : entered.Gone plan.owner := by
    refine ⟨Act.completed_over ((s.taken (plan.last score)).noted [.ran plan.owner none]) there, ?_⟩
    rw [fired_timers, under.agenda.timers]
    simp
  have old := Nat.lt_of_lt_of_le there fires.length_le
  obtain ⟨q, later, aged⟩ := Changes.ages (fires.trans follows) found
  exact ⟨rfl, (gone.changes (under.tracks.changes fires) old follows).1,
    ⟨q, later, aged.callback.trans called⟩, under.tracks.changes (fires.trans follows),
    under.settled.changes (fires.trans follows)⟩

end Underway

/-- A playback that has just been started is underway, with all its units still to come. -/
theorem Started.underway {order : Order} {engine : Option Nat}
    (started : Started plan engine callback score s t) (run : Reaches order .initial s)
    (starts : Reaches order s t) (owner : plan.owner = s.playbacks.length)
    (made : (s.equipped engine).origin (engine.getD s.engines.length) = some origin)
    (calm : s.Calm plan.owner) :
    t.Underway plan score callback origin [] score.zipIdx := by
  obtain ⟨pending, found⟩ := started.playback
  refine ⟨started.agenda run owner, ⟨_, found, rfl, rfl, ?_⟩, .of_run (run.trans starts),
    .of_run (run.trans starts) _, calm.later (.of_run run) starts.leads fun timer here other => ?_⟩
  · rw [Stage.origin, ← started.engines] at made
    exact made
  · rw [started.timers] at here
    rcases List.mem_append.mp here with old | new
    · exact old
    · exact absurd (plan.owned score _ timer new).1 other

end Stage
end Solfege
