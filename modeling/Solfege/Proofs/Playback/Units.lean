import Solfege.Proofs.Music.Playable
import Solfege.Proofs.Playback.Effect
import Solfege.Proofs.Recorder.Trigger

/-! The timers that are made for a score, when all of them have to wait, and what a unit of it does
when its timer runs. -/
namespace Solfege

/-- What the timers of a playback are made from. -/
structure Plan where
  clock : Binary64
  owner : Nat
  /-- the number of the first timer -/
  first : Nat
  cancellable : Bool
  scale : Binary64
  tempo : Number

namespace Plan

/-- The timer of a unit of a score. -/
@[simps] def unit (plan : Plan) (cue : Event × Nat) : Timer :=
  ⟨plan.first + cue.2, plan.clock + cue.1.comes plan.scale, plan.owner,
    .unit cue.2 cue.1 (cue.1.lasts plan.tempo), plan.cancellable⟩

/-- The timers of the units of a score. -/
def units (plan : Plan) (score : Music) : List Timer := score.zipIdx.map plan.unit

/-- The timer of the completion of a score. -/
@[simps] def last (plan : Plan) (score : Music) : Timer :=
  ⟨plan.first + score.length, plan.clock + score.lasts plan.scale plan.tempo, plan.owner,
    .completion, plan.cancellable⟩

/-- A timer of a plan is that of a unit or the completion. -/
theorem cases {plan : Plan} {score : Music} {cues : List (Event × Nat)} {timer : Timer}
    (here : timer ∈ cues.map plan.unit ++ [plan.last score]) :
    (∃ cue ∈ cues, timer = plan.unit cue) ∨ timer = plan.last score := by
  rcases List.mem_append.mp here with unit | last
  · obtain ⟨cue, member, rfl⟩ := List.mem_map.mp unit
    exact .inl ⟨cue, member, rfl⟩
  · exact .inr (List.mem_singleton.mp last)

theorem owned (plan : Plan) (score : Music) (cues : List (Event × Nat)) :
    ∀ timer ∈ cues.map plan.unit ++ [plan.last score],
      timer.owner = plan.owner ∧ timer.cancellable = plan.cancellable := by
  intro timer here
  rcases cases here with ⟨cue, _, rfl⟩ | rfl <;> exact ⟨rfl, rfl⟩

/-- The timers of a plan are made in order. -/
theorem aged (plan : Plan) (score : Music) :
    (plan.units score ++ [plan.last score]).Pairwise fun a b => a.id < b.id := by
  have places : score.zipIdx.Pairwise fun a b => a.2 < b.2 := by
    have indices : (score.zipIdx.map Prod.snd).Pairwise (· < ·) := by
      rw [List.zipIdx_map_snd]
      exact List.pairwise_lt_range'
    exact List.pairwise_map.mp indices
  refine List.pairwise_append.mpr ⟨?_, List.pairwise_singleton _ _, ?_⟩
  · exact List.pairwise_map.mpr (places.imp fun less => Nat.add_lt_add_left less _)
  · intro timer unit last here
    obtain ⟨cue, member, rfl⟩ := List.mem_map.mp unit
    rw [List.mem_singleton.mp here]
    have inside : cue.2 < 0 + score.length := (List.mem_zipIdx member).2.1
    exact Nat.add_lt_add_left (by omega) _

end Plan

namespace Stage
variable {s : Stage} {i : Nat} {p : Playback}

/-- The plan of the next playback to be started. -/
def plan (s : Stage) (facility : Facility) (scale : Binary64) (tempo : Number) : Plan :=
  ⟨s.clock, s.playbacks.length, s.nextTimer, facility ≠ .stubborn, scale, tempo⟩

/-- Timers begin to wait. -/
def waitingAll (s : Stage) (timers : List Timer) : Stage := timers.foldl waiting s

theorem waitingAll_cons (s : Stage) (timer : Timer) (timers : List Timer) :
    s.waitingAll (timer :: timers) = (s.waiting timer).waitingAll timers := rfl

theorem waitingAll_append (s : Stage) (timers more : List Timer) :
    s.waitingAll (timers ++ more) = (s.waitingAll timers).waitingAll more := List.foldl_append

/-- Timers that begin to wait change nothing but the timers and what their owners keep. -/
theorem waitingAll_eq (s : Stage) (timers : List Timer) :
    s.waitingAll timers = { s with
      nextTimer := s.nextTimer + timers.length
      timers := s.timers ++ timers
      playbacks := (s.waitingAll timers).playbacks } := by
  induction timers generalizing s with
  | nil => simp [waitingAll]
  | cons timer rest ih =>
    rw [waitingAll_cons, ih]
    simp [waiting, Nat.add_comm, Nat.add_left_comm]

theorem waitingAll_playbacks (timers : List Timer) (found : s.playbacks[i]? = some p) :
    ∃ pending, (s.waitingAll timers).playbacks[i]? = some { p with pending := pending } := by
  induction timers generalizing s p with
  | nil => exact ⟨p.pending, found⟩
  | cons timer rest ih =>
    rw [waitingAll_cons]
    have kept : (s.waiting timer).playbacks[i]? = some { p with
        pending := if timer.owner = i then p.pending ++ [timer.id] else p.pending } := by
      rw [waiting_playbacks, List.getElem?_modify, found]
      by_cases mine : timer.owner = i <;> simp [mine, Playback.keep]
    obtain ⟨pending, later⟩ := ih kept
    exact ⟨pending, later⟩

/-- A stage with a playback that has just been set up, all its timers waiting. -/
def scheduled (s : Stage) (plan : Plan) (engine : Option Nat) (callback : Option Callback)
    (score : Music) : Stage :=
  (((s.equipped engine).joined (.started (score.lasts plan.scale plan.tempo)
    (engine.getD s.engines.length) callback)).waitingAll
      (plan.units score ++ [plan.last score])).noted
    [.scheduled score.length (score.lasts plan.scale plan.tempo)]

/-- A playback has just been started, and all its timers wait. -/
structure Started (plan : Plan) (engine : Option Nat) (callback : Option Callback) (score : Music)
    (s t : Stage) : Prop where
  timers : t.timers = s.timers ++ (plan.units score ++ [plan.last score])
  engines : t.engines = (s.equipped engine).engines
  journal : t.journal =
    s.journal ++ [.scheduled score.length (score.lasts plan.scale plan.tempo)]
  playback : ∃ pending, t.playbacks[plan.owner]? = some
    { Playback.started (score.lasts plan.scale plan.tempo) (engine.getD s.engines.length)
      callback with pending := pending }

theorem scheduled_started (s : Stage) (plan : Plan) (engine : Option Nat)
    (callback : Option Callback) (score : Music) (next : plan.owner = s.playbacks.length) :
    Started plan engine callback score s (s.scheduled plan engine callback score) := by
  let fresh : Playback := .started (score.lasts plan.scale plan.tempo)
    (engine.getD s.engines.length) callback
  let joined := (s.equipped engine).joined fresh
  let timers := plan.units score ++ [plan.last score]
  have waiting : joined.timers = s.timers := by cases engine <;> rfl
  have journal : joined.journal = s.journal := by cases engine <;> rfl
  have found : joined.playbacks[plan.owner]? = some fresh := by
    cases engine <;> simp [joined, Stage.equipped, next]
  obtain ⟨pending, kept⟩ := waitingAll_playbacks timers found
  rw [scheduled, waitingAll_eq]
  exact ⟨congrArg (· ++ timers) waiting, rfl, congrArg
    (· ++ [Happening.scheduled score.length (score.lasts plan.scale plan.tempo)]) journal,
    pending, kept⟩

end Stage

namespace Recorder

theorem trigger_pitches {names : List String}
    (pitches : ∀ name ∈ names, ∃ number, Pitch.numberOf name = .ok number) (recorder : Recorder)
    (duration start velocity : Number) :
    recorder.trigger names duration start velocity =
      ({ recorder with
        notes := recorder.notes ++ (notesFor duration start velocity names).1 }, .ok ()) := by
  have heard : (notesFor duration start velocity names).2 = .ok () := notesFor_ok.mpr pitches
  rw [← heard]
  rfl

end Recorder

namespace Act
variable {s : Stage} {p : Playback} {e : Nat} {recorder : Recorder} {scale : Binary64}
  {tempo : Number} {facility : Facility}

/-- A unit that can be played sounds at its engine's time and leaves its notes there. -/
theorem run_unit_plays {owner : Nat} {event : Event}
    (found : s.playbacks[owner]? = some p) (engine : p.engine = some e)
    (there : s.engines[e]? = some recorder)
    (pitches : ∀ name ∈ event.sound.names, ∃ number, Pitch.numberOf name = .ok number)
    (perform : Performer) (timer : Option Nat) (index : Nat) (seconds : Binary64) :
    let start := recorder.now s.clock + event.onset seconds
    run perform owner timer (.unit index event seconds) s = (.ok (), { s.forgotten owner timer with
      engines := s.engines.set e { recorder with
        notes := recorder.notes ++ (Recorder.notesFor (.real seconds) (.real start)
          (.real event.sound.velocity) event.sound.names).1 }
      journal := s.journal ++ [.ran owner (some index),
        .triggered (some owner) event.sound.names start seconds event.sound.velocity] }) := by
  have known : ((s.noted [.ran owner (some index)]).forgotten owner timer).playbacks[owner]? =
      some (p.forget timer) := by
    simp [found]
  have heard : ((s.noted [.ran owner (some index)]).forgotten owner timer).engines[e]? =
      some recorder := there
  rw [run_unit_apply]
  dsimp only
  rw [known]
  dsimp only
  rw [Playback.forget_engine, engine]
  dsimp only
  rw [heard]
  dsimp only
  rw [dispatch, trigger_real _ heard (Recorder.trigger_pitches pitches ..)]
  simp [Stage.forgotten, Stage.noted]

theorem scheduleUnits_waits (plan : Plan) {score : Music} (later : facility ≠ .immediate)
    (timed : ∀ event ∈ score, event.Timed plan.scale plan.tempo)
    (honours : plan.cancellable = decide (facility ≠ .stubborn)) (perform : Performer)
    (index : Nat) (clock : s.clock = plan.clock) (next : s.nextTimer = plan.first + index) :
    scheduleUnits perform facility plan.owner plan.scale plan.tempo index score s =
      (.ok (), s.waitingAll ((score.zipIdx index).map plan.unit)) := by
  induction score generalizing s index with
  | nil => rfl
  | cons event rest ih =>
    have first := timed event (by simp)
    have others : ∀ event ∈ rest, event.Timed plan.scale plan.tempo :=
      fun event here => timed event (by simp [here])
    rw [scheduleUnits, first.seconds_eq, ofExcept_bind_ok, first.delay_eq, ofExcept_bind_ok,
      bind_of_ok (track_waits (fun now => later now.1) ..)]
    have timer : (⟨s.nextTimer, s.clock + event.comes plan.scale, plan.owner,
        .unit index event (event.lasts plan.tempo), facility ≠ .stubborn⟩ : Timer) =
          plan.unit (event, index) := by
      rw [clock, next, ← honours]
      rfl
    have following :
        (s.waiting (plan.unit (event, index))).nextTimer = plan.first + (index + 1) := by
      rw [Stage.waiting_nextTimer, next, Nat.add_assoc]
    have still : (s.waiting (plan.unit (event, index))).clock = plan.clock := clock
    rw [timer, ih others _ still following]
    rfl

/-- Where all timers wait, playing a score makes one for each unit and one for the completion. No
callback is entered. -/
theorem schedule_waits {score : Music} (later : facility ≠ .immediate)
    (present : facility ≠ .absent) (scaled : Duration.tempoScale tempo = .ok scale)
    (timed : ∀ event ∈ score, event.Timed scale tempo) (engine : Option Nat)
    (callback : Option Callback) (s : Stage) (perform : Performer) :
    schedule perform facility engine callback score tempo s =
      (.ok s.playbacks.length, s.scheduled (s.plan facility scale tempo) engine callback score) := by
  let plan := s.plan facility scale tempo
  let joined := (s.equipped engine).joined
    (.started (score.lasts scale tempo) (engine.getD s.engines.length) callback)
  have clock : joined.clock = s.clock := by cases engine <;> rfl
  have next : joined.nextTimer = s.nextTimer := by cases engine <;> rfl
  have size : (plan.units score).length = score.length := by simp [Plan.units]
  have last : (⟨(joined.waitingAll (plan.units score)).nextTimer,
      (joined.waitingAll (plan.units score)).clock + score.lasts scale tempo, s.playbacks.length,
      .completion, facility ≠ .stubborn⟩ : Timer) = plan.last score := by
    rw [Stage.waitingAll_eq, size]
    dsimp only
    rw [clock, next]
    rfl
  have made : joined.waitingAll (plan.units score ++ [plan.last score]) =
      (joined.waitingAll (plan.units score)).waiting (plan.last score) :=
    Stage.waitingAll_append ..
  have units := scheduleUnits_waits plan later timed rfl perform 0 clock next
  have prepared : prepare perform facility engine callback score tempo s =
      (.ok (s.playbacks.length, score.lasts scale tempo),
        joined.waitingAll (plan.units score)) := by
    rw [prepare_apply, if_neg present, scaled, Music.seconds_eq scaled timed]
    exact bind_of_ok units _
  rw [schedule, bind_of_ok prepared]
  dsimp only
  rw [bind_of_ok (track_waits (fun now => later now.1) ..), last, ← made]
  rfl

theorem schedule_timed {score : Music} (later : facility ≠ .immediate)
    (present : facility ≠ .absent) (scaled : Duration.tempoScale tempo = .ok scale)
    (timed : ∀ event ∈ score, event.Timed scale tempo) (engine : Option Nat)
    (callback : Option Callback) (s : Stage) :
    ∃ t, (∀ perform, schedule perform facility engine callback score tempo s =
        (.ok s.playbacks.length, t)) ∧
      Stage.Started (s.plan facility scale tempo) engine callback score s t :=
  ⟨_, schedule_waits later present scaled timed engine callback s,
    s.scheduled_started (s.plan facility scale tempo) engine callback score rfl⟩

theorem schedule_started {score : Music} (later : facility ≠ .immediate)
    (present : facility ≠ .absent) (scaled : Duration.tempoScale tempo = .ok scale)
    (playable : ∀ event ∈ score, event.Playable scale tempo) (engine : Option Nat)
    (callback : Option Callback) (s : Stage) :
    ∃ t, (∀ perform, schedule perform facility engine callback score tempo s =
        (.ok s.playbacks.length, t)) ∧
      Stage.Started (s.plan facility scale tempo) engine callback score s t :=
  schedule_timed later present scaled (fun event here => (playable event here).timed) engine
    callback s

end Act
end Solfege
