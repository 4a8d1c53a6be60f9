import Solfege.Proofs.Playback.Units

/-! Setting up a playback is all or nothing. Where timers wait, what cannot be played leaves the
stage as it was, and what can be played makes a timer for each unit and one more, of which none has
run. -/
namespace Solfege

/-- A score that can be set up with some kind of timers: there are timers, the tempo scales times,
and every event has a time and a length. -/
structure Music.Schedulable (score : Music) (facility : Facility) (tempo : Number) : Prop where
  present : facility ≠ .absent
  timed : ∃ scale, Duration.tempoScale tempo = .ok scale ∧
    ∀ event ∈ score, event.Timed scale tempo

/-- Timers have been made and nothing else has happened: the playbacks that were there are as they
were, no engine has recorded a note, no unit has sounded and no callback has been announced. -/
structure Stage.Queued (count : Nat) (s t : Stage) : Prop where
  timers : ∃ made, t.timers = s.timers ++ made ∧ made.length = count
  engines : ∃ fresh, t.engines = s.engines ++ fresh ∧ ∀ recorder ∈ fresh, recorder.notes = []
  playbacks : ∀ i < s.playbacks.length, t.playbacks[i]? = s.playbacks[i]?
  journal : ∃ said, t.journal = s.journal ++ said ∧
    ∀ happening ∈ said, ∃ units length, happening = .scheduled units length
  announcements : t.announcements = s.announcements
  clock : t.clock = s.clock

namespace Stage
variable {s : Stage} {i : Nat}

theorem equipped_fresh (s : Stage) (engine : Option Nat) :
    ∃ fresh, (s.equipped engine).engines = s.engines ++ fresh ∧
      ∀ recorder ∈ fresh, recorder.notes = [] := by
  cases engine with
  | some index => exact ⟨[], (List.append_nil _).symm, by simp⟩
  | none => exact ⟨[.standard s.clock], rfl, by simp [Recorder.standard]⟩

/-- Timers of one playback are kept by no other. -/
theorem waitingAll_others {timers : List Timer} (others : ∀ timer ∈ timers, timer.owner ≠ i) :
    (s.waitingAll timers).playbacks[i]? = s.playbacks[i]? := by
  induction timers generalizing s with
  | nil => rfl
  | cons timer rest ih =>
    have first := others timer (by simp)
    rw [waitingAll_cons, ih fun timer here => others timer (List.mem_cons_of_mem _ here),
      waiting_playbacks, List.getElem?_modify]
    simp [first]

theorem scheduled_queued (s : Stage) (plan : Plan) (engine : Option Nat)
    (callback : Option Callback) (score : Music) (next : plan.owner = s.playbacks.length) :
    Queued (score.length + 1) s (s.scheduled plan engine callback score) := by
  have started := s.scheduled_started plan engine callback score next
  have owned : ∀ timer ∈ plan.units score ++ [plan.last score], timer.owner = plan.owner :=
    fun timer here => (plan.owned score _ timer here).1
  constructor
  · exact ⟨_, started.timers, by simp [Plan.units]⟩
  · obtain ⟨fresh, equipped, silent⟩ := s.equipped_fresh engine
    exact ⟨fresh, started.engines.trans equipped, silent⟩
  · intro i old
    have joined : ((s.equipped engine).joined (.started (score.lasts plan.scale plan.tempo)
        (engine.getD s.engines.length) callback)).playbacks[i]? = s.playbacks[i]? := by
      rw [joined_playbacks, List.getElem?_append_left]
      · cases engine <;> rfl
      · cases engine <;> exact old
    exact (waitingAll_others fun timer here => by rw [owned timer here, next]; omega).trans joined
  · exact ⟨_, started.journal, by simp⟩
  · rw [scheduled, waitingAll_eq]
    cases engine <;> rfl
  · rw [scheduled, waitingAll_eq]
    cases engine <;> rfl

theorem joined_silent (s : Stage) (callback : Option Callback) :
    Queued 0 s (s.joined (.silent callback)) :=
  ⟨⟨[], (List.append_nil _).symm, rfl⟩, ⟨[], (List.append_nil _).symm, by simp⟩,
    fun _ old => List.getElem?_append_left old, ⟨[], (List.append_nil _).symm, by simp⟩, rfl, rfl⟩

end Stage

namespace Act
variable {α : Type} {facility : Facility} {engine : Option Nat} {callback : Option Callback}
  {s : Stage}

/-- Whatever code callbacks run, an act fails and leaves the stage as it was. -/
def Fails (act : Performer → Act α) (s : Stage) (fault : Fault) : Prop :=
  ∀ perform, act perform s = (.error fault, s)

/-- Whatever code callbacks run, an act answers and has made some timers. -/
def Queues (act : Performer → Act α) (s : Stage) (answer : α) (count : Nat) : Prop :=
  ∃ t, s.Queued count t ∧ ∀ perform, act perform s = (.ok answer, t)

/-- What can be set up has a timer for each unit and one more, and what cannot fails before the
first timer is made. -/
theorem schedule_outcome (queues : facility ≠ .immediate) (engine : Option Nat)
    (callback : Option Callback) (score : Music) (tempo : Number) (s : Stage) :
    (score.Schedulable facility tempo ∧
      Queues (fun perform => schedule perform facility engine callback score tempo) s
        s.playbacks.length (score.length + 1)) ∨
    (¬ score.Schedulable facility tempo ∧
      ∃ fault, Fails (fun perform => schedule perform facility engine callback score tempo) s
        fault) := by
  by_cases ready : score.Schedulable facility tempo
  · obtain ⟨scale, scaled, timed⟩ := ready.timed
    exact .inl ⟨ready, _,
      s.scheduled_queued (s.plan facility scale tempo) engine callback score rfl,
      schedule_waits queues ready.present scaled timed engine callback s⟩
  · have failed : ∃ fault, ∀ perform,
        prepare perform facility engine callback score tempo s = (.error fault, s) := by
      simp only [prepare_apply]
      by_cases absent : facility = .absent
      · exact ⟨.noTimers, fun _ => if_pos absent⟩
      · simp only [if_neg absent]
        cases scaled : Duration.tempoScale tempo with
        | error fault => exact ⟨fault, fun _ => rfl⟩
        | ok scale =>
          cases length : score.seconds tempo with
          | error fault => exact ⟨fault, fun _ => rfl⟩
          | ok seconds => exact absurd ⟨absent, Music.timed_of_seconds length⟩ ready
    obtain ⟨fault, failed⟩ := failed
    refine .inr ⟨ready, fault, fun perform => ?_⟩
    dsimp only
    rw [schedule, bind_apply, failed]

theorem play_unresolved {request : Aural.Request} {fault : Fault}
    (unknown : request.resolve = .error fault) (options : Aural.Options) (chance : Chance) :
    Fails (fun perform => play perform facility engine callback request options chance) s
      fault := by
  intro perform
  dsimp only
  rw [play, unknown]
  rfl

/-- An object without degrees makes a silent playback. It needs no timers and takes no chance. -/
theorem play_silent {request : Aural.Request} (none : request.resolve = .ok [])
    (options : Aural.Options) (chance : Chance) (perform : Performer) :
    play perform facility engine callback request options chance s =
      (.ok (s.playbacks.length, chance.draws), s.joined (.silent callback)) := by
  rw [play, none]
  rfl

theorem play_unscored {request : Aural.Request} {degrees : List Int} {options : Aural.Options}
    {chance : Chance} {fault : Fault} (found : request.resolve = .ok degrees)
    (bad : Aural.score degrees options chance = .error fault) :
    Fails (fun perform => play perform facility engine callback request options chance) s
      fault := by
  intro perform
  cases degrees with
  | nil => cases bad
  | cons degree rest =>
    dsimp only
    rw [play, found, ofExcept_bind_ok, bad]
    rfl

/-- What has degrees and a score is scheduled. -/
theorem play_scored {request : Aural.Request} {degree : Int} {degrees : List Int}
    {options : Aural.Options} {chance later : Chance} {score : Music}
    (found : request.resolve = .ok (degree :: degrees))
    (built : Aural.score (degree :: degrees) options chance = .ok (score, later))
    (perform : Performer) :
    play perform facility engine callback request options chance s =
      (schedule perform facility engine callback score Duration.referenceTempo >>= fun index =>
        return (index, later.draws)) s := by
  rw [play, found, ofExcept_bind_ok, built]
  rfl

theorem play_outcome {request : Aural.Request} {degree : Int} {degrees : List Int}
    {options : Aural.Options} {chance later : Chance} {score : Music}
    (queues : facility ≠ .immediate) (found : request.resolve = .ok (degree :: degrees))
    (built : Aural.score (degree :: degrees) options chance = .ok (score, later)) :
    Queues (fun perform => play perform facility engine callback request options chance) s
        (s.playbacks.length, later.draws) (score.length + 1) ∨
      ∃ fault, Fails (fun perform => play perform facility engine callback request options chance)
        s fault := by
  rcases schedule_outcome queues engine callback score Duration.referenceTempo s with
    ⟨_, t, queued, started⟩ | ⟨_, fault, failed⟩
  · refine .inl ⟨t, queued, fun perform => ?_⟩
    dsimp only
    rw [play_scored found built, bind_of_ok (started perform)]
    rfl
  · refine .inr ⟨fault, fun perform => ?_⟩
    have failed := failed perform
    dsimp only at failed ⊢
    rw [play_scored found built, bind_apply, failed]

/-- Setting up a playback is all or nothing. A score is scheduled, with a timer for each unit and
one more, exactly when it can be; an aural object that is not known, whose degrees are not whole or
whose score cannot be built changes nothing, and one without degrees has no timers, no engine and
draws nothing. -/
theorem setup_whole (queues : facility ≠ .immediate) (engine : Option Nat)
    (callback : Option Callback) (s : Stage) :
    (∀ score tempo,
      (score.Schedulable facility tempo ∧
        Queues (fun perform => schedule perform facility engine callback score tempo) s
          s.playbacks.length (score.length + 1)) ∨
      (¬ score.Schedulable facility tempo ∧
        ∃ fault, Fails (fun perform => schedule perform facility engine callback score tempo) s
          fault)) ∧
    ∀ request options chance,
      let play := fun perform => play perform facility engine callback request options chance
      (∀ fault, request.resolve = .error fault → Fails play s fault) ∧
      (request.resolve = .ok [] → ∃ t, s.Queued 0 t ∧ t.engines = s.engines ∧
        t.journal = s.journal ∧ ∀ perform, play perform s =
          (.ok (s.playbacks.length, chance.draws), t)) ∧
      (∀ degrees fault, request.resolve = .ok degrees →
        Aural.score degrees options chance = .error fault → Fails play s fault) ∧
      ∀ degree degrees score later, request.resolve = .ok (degree :: degrees) →
        Aural.score (degree :: degrees) options chance = .ok (score, later) →
        Queues play s (s.playbacks.length, later.draws) (score.length + 1) ∨
          ∃ fault, Fails play s fault := by
  refine ⟨fun score tempo => schedule_outcome queues engine callback score tempo s, ?_⟩
  intro request options chance
  refine ⟨fun fault unknown => play_unresolved unknown options chance, fun none => ?_,
    fun degrees fault found bad => play_unscored found bad,
    fun degree degrees score later found built => play_outcome queues found built⟩
  exact ⟨_, s.joined_silent callback, rfl, rfl, play_silent none options chance⟩

/-- The last event of the score has a duration that is no code; cancelling has no effect. -/
theorem setup_whole_last_bad : Facility.stubborn ≠ .immediate ∧
    ∃ fault, (Act.schedule .idle .stubborn none none
      [⟨.real 0, .single "C4", .code "4n"⟩, ⟨.whole 1, .group ["E4", "G4"], .code "5q"⟩]
      (.whole 90) .initial) = (.error fault, .initial) := by
  have queues : Facility.stubborn ≠ .immediate := by decide
  refine ⟨queues, ?_⟩
  rcases (setup_whole queues none none .initial).1
    [⟨.real 0, .single "C4", .code "4n"⟩, ⟨.whole 1, .group ["E4", "G4"], .code "5q"⟩] (.whole 90)
    with ⟨ready, _⟩ | ⟨_, fault, failed⟩
  · obtain ⟨scale, _, timed⟩ := ready.timed
    obtain ⟨x, long⟩ := (timed ⟨.whole 1, .group ["E4", "G4"], .code "5q"⟩ (by simp)).seconds
    have none : ((⟨.whole 1, .group ["E4", "G4"], .code "5q"⟩ : Event).seconds
        (.whole 90)).toOption = .none := by
      decide +kernel
    rw [long] at none
    cases none
  · exact ⟨fault, failed .idle⟩

end Act
end Solfege
