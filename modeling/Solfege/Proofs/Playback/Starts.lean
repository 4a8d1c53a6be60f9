import Solfege.Proofs.Playback.Faces

/-! What can be seen of a playback that is started by name, its timers all waiting. -/
namespace Solfege

/-- When the tasks of a score are due, and the tasks themselves. -/
def Music.tasks (score : Music) (clock scale : Binary64) (tempo : Number) :
    List (Binary64 × Task) :=
  score.zipIdx.map (fun cue =>
    (clock + cue.1.comes scale, Task.unit cue.2 cue.1 (cue.1.lasts tempo))) ++
  [(clock + score.lasts scale tempo, .completion)]

theorem Plan.tasks_eq (plan : Plan) (score : Music) :
    (plan.units score ++ [plan.last score]).map (fun timer => (timer.due, timer.task)) =
      score.tasks plan.clock plan.scale plan.tempo := by
  rw [Music.tasks, List.map_append, Plan.units, List.map_map]
  rfl

theorem Music.Pitched.tasks {score : Music} (pitched : score.Pitched) (clock scale : Binary64)
    (tempo : Number) : ∀ cue ∈ score.tasks clock scale tempo, cue.2.Pitched := by
  intro cue here
  rcases List.mem_append.mp here with unit | last
  · obtain ⟨place, member, rfl⟩ := List.mem_map.mp unit
    obtain ⟨_, _, same⟩ := List.mem_zipIdx member
    exact pitched place.1 (same ▸ List.getElem_mem _)
  · cases List.mem_singleton.mp last
    trivial

namespace Stage

/-- When the engine that is referred to was made: nothing where there is none of that name, and
nothing within where none is asked for. -/
def referred (s : Stage) : EngineRef → Option (Option Binary64)
  | .nothing => some none
  | .named id => (s.namedOrigin id).map some
  | .ofPlayback id => (s.playbackNames.lookup id).bind fun i => (s.face i).map Face.origin

/-- Whether an engine that is referred to is rightly answered. -/
def Refers (s : Stage) (ref : EngineRef) : Except Fault (Option Nat) → Prop
  | .error _ => s.referred ref = none
  | .ok none => s.referred ref = some none
  | .ok (some e) => ∃ time, s.referred ref = some (some time) ∧ s.origin e = some time

/-- The playback that would be started, and its tasks. -/
def starting (s : Stage) (id : String) (ref : EngineRef) (source : ScoreSource) (tempo : Number)
    (onFinish : Option (List Command)) : Option (Face × List (Binary64 × Task)) :=
  match source.build.2, s.referred ref with
  | .ok score, some time =>
    match Duration.tempoScale tempo, score.seconds tempo with
    | .ok scale, .ok _ =>
      some (⟨Act.callbackOf id onFinish, false, false, some (time.getD s.clock)⟩,
        score.tasks s.clock scale tempo)
    | _, _ => none
  | _, _ => none

/-- A playback has been started, seen from outside. -/
structure Starts (id : String) (f : Face) (tasks : List (Binary64 × Task)) (s t : Stage) :
    Prop where
  clock : t.clock = s.clock
  size : t.playbacks.length = s.playbacks.length + 1
  timers : ∃ added, t.timers = s.timers ++ added ∧
    added.map (fun timer => (timer.due, timer.task)) = tasks ∧
    ∀ timer ∈ added, timer.owner = s.playbacks.length ∧ timer.cancellable = true
  playbackNames : ∀ other, t.playbackNames.lookup other =
    if other = id then some s.playbacks.length else s.playbackNames.lookup other
  face : t.face s.playbacks.length = some f
  others : ∀ k ≠ s.playbacks.length, t.face k = s.face k
  named : t.Named
  origins : t.namedOrigin = s.namedOrigin

/-- A playback has been started, where there was one to start, or else nothing that playbacks go by
has changed. -/
def Attempts (id : String) : Option (Face × List (Binary64 × Task)) → Stage → Stage → Prop
  | some (f, tasks), s, t => Starts id f tasks s t
  | none, s, t => Idles s t ∧ t.engineNames = s.engineNames

variable {s : Stage} {p : Playback}

theorem starting_eq_some {id : String} {ref : EngineRef} {source : ScoreSource} {tempo : Number}
    {onFinish : Option (List Command)} {f : Face} {tasks : List (Binary64 × Task)}
    (found : s.starting id ref source tempo onFinish = some (f, tasks)) :
    ∃ score scale time, source.build.2 = .ok score ∧ s.referred ref = some time ∧
      f = ⟨Act.callbackOf id onFinish, false, false, some (time.getD s.clock)⟩ ∧
      tasks = score.tasks s.clock scale tempo := by
  unfold starting at found
  split at found
  · rename_i score time built referred
    split at found
    · rename_i scale total _ _
      cases found
      exact ⟨score, scale, time, built, referred, rfl, rfl⟩
    · cases found
  · cases found

/-- An engine that is added leaves the others their origins. -/
theorem equipped_idles (s : Stage) (engine : Option Nat) : Idles s (s.equipped engine) := by
  cases engine with
  | some e => exact .refl s
  | none =>
    refine ⟨rfl, rfl, rfl, rfl, fun e time found => ?_⟩
    rw [← found, origin, equipped, List.getElem?_append_left (lt_of_origin found), origin]

theorem equipped_bystands (named : s.Named) (engine : Option Nat) :
    Bystands (fun _ => none) s (s.equipped engine) := by
  apply (s.equipped_idles engine).bystands _ named
  cases engine <;> rfl

theorem equipped_origin {ref : EngineRef} {engine : Option Nat}
    (refers : s.Refers ref (.ok engine)) : ∃ time, s.referred ref = some time ∧
      (s.equipped engine).origin (engine.getD s.engines.length) = some (time.getD s.clock) := by
  cases engine with
  | none =>
    refine ⟨none, refers, ?_⟩
    rw [origin, equipped, Option.getD_none, List.getElem?_concat_length]
    rfl
  | some e =>
    obtain ⟨time, found, made⟩ := refers
    exact ⟨some time, found, made⟩

theorem joined_face (s : Stage) (p : Playback) (k : Nat) : (s.joined p).face k =
    if k = s.playbacks.length then some (p.face s.origin) else s.face k := by
  by_cases last : k = s.playbacks.length
  · rw [if_pos last, last, face, joined_playbacks, List.getElem?_concat_length]
    rfl
  · rw [if_neg last, face, joined_playbacks, face]
    rcases Nat.lt_or_gt_of_ne last with old | beyond
    · rw [List.getElem?_append_left old]
      rfl
    · rw [List.getElem?_eq_none (by simp; omega), List.getElem?_eq_none (by omega)]
      rfl

/-- Which timers a playback keeps is not seen from outside. -/
theorem waitingAll_face (s : Stage) (timers : List Timer) :
    (s.waitingAll timers).face = s.face := by
  induction timers generalizing s with
  | nil => rfl
  | cons timer rest ih =>
    rw [waitingAll_cons, ih]
    funext k
    rw [face_modify (s := s) (t := s.waiting timer) (g := (·.keep timer.id)) timer.owner rfl rfl]
    split
    · rename_i here
      rw [here]
      rfl
    · rfl

theorem waitingAll_size (s : Stage) (timers : List Timer) :
    (s.waitingAll timers).playbacks.length = s.playbacks.length := by
  induction timers generalizing s with
  | nil => rfl
  | cons timer rest ih => rw [waitingAll_cons, ih, waiting_playbacks, List.length_modify]

end Stage

namespace Act
variable {s : Stage} {score : Music} {tempo : Number}

theorem engineOf_refers (ref : EngineRef) (faces : s.Faces) (named : s.Named) :
    ∃ answer, engineOf ref s = (answer, s) ∧ s.Refers ref answer := by
  cases ref with
  | nothing => exact ⟨.ok none, rfl, rfl⟩
  | named id =>
    rw [engineOf, bind_apply, engineNamed, get_bind]
    cases found : s.engineNames.lookup id with
    | none =>
      refine ⟨.error .noSuchEngine, rfl, ?_⟩
      rw [Stage.Refers, Stage.referred, Stage.namedOrigin, found]
      rfl
    | some e =>
      have origin := Stage.origin_eq_some (named id e found)
      refine ⟨.ok (some e), rfl, _, ?_, origin⟩
      rw [Stage.referred, Stage.namedOrigin, found, Option.bind_some, origin]
      rfl
  | ofPlayback id =>
    rw [engineOf, bind_apply, playbackNamed, get_bind]
    cases found : s.playbackNames.lookup id with
    | none =>
      refine ⟨.error .noSuchHandle, rfl, ?_⟩
      rw [Stage.Refers, Stage.referred, found]
      rfl
    | some i =>
      show ∃ answer, (playback i >>= fun p => pure p.engine) s = (answer, s) ∧ _
      rw [bind_apply, playback_apply]
      cases there : s.playbacks[i]? with
      | none =>
        refine ⟨.error .noSuchHandle, rfl, ?_⟩
        rw [Stage.Refers, Stage.referred, found, Option.bind_some, Stage.face, there]
        rfl
      | some p =>
        have seen := Stage.face_of_found there
        obtain ⟨time, made⟩ := (faces i _ seen).origin
        obtain ⟨e, engine, origin⟩ := Option.bind_eq_some_iff.mp made
        refine ⟨.ok (some e), by rw [← engine]; rfl, time, ?_, origin⟩
        rw [Stage.referred, found, Option.bind_some, seen, Option.map_some, made]

/-- Starting a playback on timers that wait. -/
theorem scheduled_starts (score : Music) (scale : Binary64) (tempo : Number) {ref : EngineRef}
    {engine : Option Nat} (faces : s.Faces) (named : s.Named) (refers : s.Refers ref (.ok engine))
    (id : String) (callback : Option Callback) (time : Option Binary64)
    (referred : s.referred ref = some time) :
    Stage.Starts id ⟨callback, false, false, some (time.getD s.clock)⟩
      (score.tasks s.clock scale tempo) s
      (namePlayback id s.playbacks.length
        (s.scheduled (s.plan .queueing scale tempo) engine callback score)).2 := by
  let plan := s.plan .queueing scale tempo
  let fresh : Playback := .started (score.lasts scale tempo) (engine.getD s.engines.length) callback
  let timers := plan.units score ++ [plan.last score]
  let joined := (s.equipped engine).joined fresh
  let t := (namePlayback id s.playbacks.length (s.scheduled plan engine callback score)).2
  have idles := s.equipped_idles engine
  have known := Stage.equipped_bystands named engine
  obtain ⟨_, same, origin⟩ := Stage.equipped_origin refers
  cases referred.symm.trans same
  have waiting := Stage.waitingAll_eq joined timers
  have engines : (joined.waitingAll timers).engines = joined.engines := by rw [waiting]
  have names : (joined.waitingAll timers).engineNames = joined.engineNames := by rw [waiting]
  have tail : t.face = (joined.waitingAll timers).face := Stage.face_congr rfl rfl
  have seen (k : Nat) : t.face k = if k = s.playbacks.length
      then some (fresh.face (s.equipped engine).origin) else s.face k := by
    rw [tail, Stage.waitingAll_face, Stage.joined_face, idles.playbacks, idles.face faces]
  refine ⟨?_, ?_, ⟨timers, ?_, plan.tasks_eq score, plan.owned score _⟩, ?_, ?_, ?_, ?_, ?_⟩
  · exact (congrArg Stage.clock waiting).trans idles.clock
  · have size := Stage.waitingAll_size joined timers
    have joins : joined.playbacks.length = (s.equipped engine).playbacks.length + 1 :=
      List.length_append
    rw [idles.playbacks] at joins
    exact size.trans joins
  · have old : joined.timers = s.timers := idles.timers
    have now : t.timers = joined.timers ++ timers := congrArg Stage.timers waiting
    rw [now, old]
  · intro other
    have before : (joined.waitingAll timers).playbackNames = s.playbackNames :=
      (congrArg Stage.playbackNames waiting).trans idles.playbackNames
    exact before ▸ lookup_renamed _ id other s.playbacks.length
  · rw [seen, if_pos rfl, ← origin]
    rfl
  · intro k different
    rw [seen, if_neg different]
  · exact known.named.congr names engines
  · have same : t.namedOrigin = (s.equipped engine).namedOrigin :=
      Stage.namedOrigin_congr names engines
    exact funext fun name => (congrFun same name).trans
      ((known.origins name).trans (Option.none_or ..))

theorem startedAnswer_stage (i : Nat) (draws : Option Nat) (s : Stage) :
    (startedAnswer i draws s).2 = s := by
  rw [startedAnswer, return_stage, playback_apply]
  cases s.playbacks[i]? <;> rfl

theorem schedule_untimed {fault : Fault} (untimed : score.seconds tempo = .error fault)
    (perform : Performer) (engine : Option Nat) (callback : Option Callback) :
    ∃ fault, schedule perform .queueing engine callback score tempo s = (.error fault, s) := by
  rw [schedule, bind_apply, prepare_apply, if_neg (by decide), untimed]
  cases Duration.tempoScale tempo with
  | error other => exact ⟨other, rfl⟩
  | ok scale => exact ⟨fault, rfl⟩

theorem exec_schedule (perform : Performer) (bound : Nat) (faces : s.Faces) (named : s.Named)
    (id : String) (ref : EngineRef) (source : ScoreSource) (onFinish : Option (List Command)) :
    Stage.Attempts id (s.starting id ref source tempo onFinish) s
      (exec perform bound (.schedule id ref source tempo .queueing onFinish) s).2 := by
  let u := s.noted source.build.1
  have told : Stage.Idles s u ∧ u.engineNames = s.engineNames := StandsBy.record _ s
  have same : u.referred ref = s.referred ref := by cases ref <;> rfl
  have calm : u.Faces := faces.congr (Stage.face_congr rfl rfl)
  have known : u.Named := named.congr rfl rfl
  obtain ⟨answer, asked, refers⟩ := engineOf_refers ref calm known
  have built : build source s = (source.build.2, u) := rfl
  let callback := callbackOf id onFinish
  have refuses {fault : Fault} (none : s.starting id ref source tempo onFinish = none)
      (stops : exec perform bound (.schedule id ref source tempo .queueing onFinish) s =
        (.error fault, u)) : Stage.Attempts id (s.starting id ref source tempo onFinish) s
          (exec perform bound (.schedule id ref source tempo .queueing onFinish) s).2 := by
    rw [none, stops]
    exact told
  cases music : source.build.2 with
  | error fault =>
    rw [music] at built
    apply refuses
    · rw [Stage.starting, music]
    · rw [exec, bind_apply, built]
  | ok score =>
    rw [music] at built
    cases answer with
    | error fault =>
      apply refuses
      · rw [Stage.starting, music, ← same, refers]
      · rw [exec, bind_of_ok built, bind_apply, asked]
    | ok engine =>
      have opened : exec perform bound (.schedule id ref source tempo .queueing onFinish) s =
          (schedule perform .queueing engine callback score tempo >>= fun index =>
            namePlayback id index >>= fun _ => startedAnswer index none) u := by
        rw [exec, bind_of_ok built, bind_of_ok asked]
      obtain ⟨time, referred, _⟩ := Stage.equipped_origin refers
      cases length : score.seconds tempo with
      | error fault =>
        obtain ⟨_, stops⟩ := schedule_untimed (s := u) length perform engine callback
        apply refuses
        · rw [Stage.starting, music, ← same, referred]
          dsimp only
          rw [length]
          cases Duration.tempoScale tempo <;> rfl
        · rw [opened, bind_apply, stops]
      | ok total =>
        obtain ⟨scale, scaled, timed⟩ := Music.timed_of_seconds length
        have later : Facility.queueing ≠ .immediate := by decide
        have started := schedule_waits later (by decide) scaled timed engine callback u perform
        have starts := scheduled_starts score scale tempo calm known refers id callback time
          referred
        have named' (i : Nat) (v : Stage) :
            namePlayback id i v = (.ok (), (namePlayback id i v).2) := rfl
        rw [opened, bind_of_ok started, bind_of_ok (named' ..), startedAnswer_stage,
          Stage.starting, music, ← same, referred]
        dsimp only
        rw [scaled, length]
        exact { starts with }

end Act
end Solfege
