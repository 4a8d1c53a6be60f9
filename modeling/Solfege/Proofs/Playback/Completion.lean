import Solfege.Proofs.Playback.Agenda

/-! Completion comes last. When the timers of a playback run by due time and then by age, its
completion finds all its units played, since no unit comes later than the end of the score and all
are older. -/
namespace Solfege

/-- What is heard of a playback. -/
inductive Heard
  | unit (index : Nat)
  | names (names : List String)
  | completion
deriving DecidableEq

/-- What a happening lets hear of a playback. -/
def Happening.heard? (i : Nat) : Happening → Option Heard
  | .ran owner (some index) => if owner = i then some (.unit index) else none
  | .ran owner none => if owner = i then some .completion else none
  | .triggered source names .. => if source = some i then some (.names names) else none
  | _ => none

theorem Happening.heard?_eq_none {i : Nat} {happening : Happening}
    (other : happening.about? ≠ some i) : happening.heard? i = none := by
  cases happening with
  | ran owner unit =>
    have different : owner ≠ i := fun same => other (congrArg some same)
    cases unit <;> exact if_neg different
  | triggered source names => exact if_neg other
  | _ => rfl

/-- What is heard of a unit of a score. -/
def Event.heard (cue : Event × Nat) : List Heard := [.unit cue.2, .names cue.1.sound.names]

namespace Stage
variable {order : Order} {n i j : Nat} {s t u : Stage} {p : Playback} {timer : Timer}

/-- What has been heard of a playback, in order. -/
def heard (s : Stage) (i : Nat) : List Heard := s.journal.filterMap (·.heard? i)

theorem completion_heard : Heard.completion ∈ s.heard i ↔ Happening.ran i none ∈ s.journal := by
  rw [heard, List.mem_filterMap]
  constructor
  · rintro ⟨happening, here, heard⟩
    cases happening with
    | ran owner unit =>
      cases unit with
      | none =>
        by_cases same : owner = i
        · exact same ▸ here
        · simp [Happening.heard?, same] at heard
      | some index => simp [Happening.heard?] at heard
    | triggered source names => simp [Happening.heard?] at heard
    | _ => cases heard
  · intro here
    exact ⟨_, here, if_pos rfl⟩

theorem heard_append {said : List Happening} (told : t.journal = s.journal ++ said) :
    t.heard i = s.heard i ++ said.filterMap (·.heard? i) := by
  rw [heard, told, List.filterMap_append, heard]

theorem noted_heard (s : Stage) (said : List Happening) :
    (s.noted said).heard i = s.heard i ++ said.filterMap (·.heard? i) := heard_append rfl

theorem Spares.heard (spares : Spares i s t) : t.heard i = s.heard i := by
  obtain ⟨said, told, about⟩ := spares.journal
  have silent : said.filterMap (·.heard? i) = [] :=
    List.filterMap_eq_nil_iff.mpr fun happening here =>
      Happening.heard?_eq_none (about happening here)
  rw [heard_append told, silent, List.append_nil]

theorem completed_heard (s : Stage) (i j : Nat) : (s.completed j).heard i = s.heard i := by
  rcases completed_cases s j with same | ⟨p, _, _, same⟩
  · rw [same]
  · simp [same, heard, Happening.heard?]

theorem stopped_heard (s : Stage) (i j : Nat) : (s.stopped j).heard i = s.heard i := by
  rcases stopped_cases s j with same | same | ⟨p, _, _, same⟩
  · rw [same]
  · simp [same, heard, Happening.heard?]
  · simp [same, heard, Happening.heard?, cancelTimers]

/-- The units that have been played and those that wait make up the score. What has been played is
in order, and so is what is still to come. -/
structure Running (plan : Plan) (score : Music) (played waiting : List (Event × Nat)) (s : Stage) :
    Prop where
  timers : s.timersOf plan.owner = waiting.map plan.unit ++ [plan.last score]
  whole : (played ++ waiting).Perm score.zipIdx
  ordered : played.Pairwise plan.Sooner
  ahead : ∀ a ∈ played, ∀ b ∈ waiting, plan.Sooner a b
  heard : s.heard plan.owner = played.flatMap Event.heard
  engine : ∃ p e, s.playbacks[plan.owner]? = some p ∧ p.engine = some e ∧ e < s.engines.length

/-- Nothing more is to come of a playback, which completed after all its units or not at all. -/
structure Ended (plan : Plan) (score : Music) (played : List (Event × Nat)) (s : Stage) : Prop where
  gone : s.Gone plan.owner
  heard : s.heard plan.owner = played.flatMap Event.heard ∨
    s.heard plan.owner = played.flatMap Event.heard ++ [.completion] ∧
      played.Perm score.zipIdx ∧ played.Pairwise plan.Sooner

namespace Running
variable {plan : Plan} {score : Music} {played waiting : List (Event × Nat)}
  {cue other : Event × Nat}

theorem agenda (running : s.Running plan score played waiting) :
    s.Agenda plan score played waiting :=
  ⟨running.timers, running.whole, running.ordered, running.ahead⟩

theorem completes (running : Running plan score played waiting s) (tracks : s.Tracks)
    (playable : ∀ event ∈ score, event.Playable plan.scale plan.tempo)
    (first : (plan.last score).First s.timers) :
    Ended plan score played (s.fired (plan.last score)) := by
  have measured : ∀ event ∈ score, event.Measured plan.scale plan.tempo :=
    fun event here => (playable event here).measured
  obtain rfl := running.agenda.last_alone tracks measured first
  obtain ⟨p, e, found, _⟩ := running.engine
  have there := (List.getElem?_eq_some_iff.mp found).1
  refine ⟨⟨?_, ?_⟩, .inr ⟨?_, ?_, running.ordered⟩⟩
  · exact Act.completed_over ((s.taken (plan.last score)).noted [.ran plan.owner none]) there
  · rw [fired_timers, running.timers]
    simp
  · have told : ((s.taken (plan.last score)).noted [.ran plan.owner none]).heard plan.owner =
        s.heard plan.owner ++ [.completion] := by
      have same : (s.taken (plan.last score)).heard plan.owner = s.heard plan.owner := rfl
      rw [noted_heard, same]
      simp [Happening.heard?]
    rw [← running.heard, ← told]
    exact completed_heard ..
  · simpa using running.whole

/-- A unit that runs is heard, and so are its names. -/
theorem unit_heard (running : Running plan score played waiting s)
    (playable : ∀ event ∈ score, event.Playable plan.scale plan.tempo) (here : cue ∈ waiting) :
    (s.fired (plan.unit cue)).heard plan.owner = s.heard plan.owner ++ Event.heard cue := by
  obtain ⟨p, e, found, engine, there⟩ := running.engine
  have plays := Act.run_unit_plays (s := s.taken (plan.unit cue)) found engine
    (List.getElem?_eq_getElem there) (playable _ (running.agenda.mem_score here).1).names .idle
    (some (plan.unit cue).id) cue.2 (cue.1.lasts plan.tempo)
  have sounds : (s.fired (plan.unit cue)).journal = s.journal ++ _ :=
    congrArg (fun result => result.2.journal) plays
  rw [heard_append sounds]
  simp [Happening.heard?, Event.heard]

/-- A unit that is due first is played, and the others stay. -/
theorem plays (running : Running plan score played waiting s) (tracks : s.Tracks)
    (playable : ∀ event ∈ score, event.Playable plan.scale plan.tempo) (here : cue ∈ waiting)
    (first : (plan.unit cue).First s.timers) :
    ∃ waiting, Running plan score (played ++ [cue]) waiting (s.fired (plan.unit cue)) := by
  obtain ⟨p, e, found, engine, there⟩ := running.engine
  obtain ⟨left, agenda⟩ := running.agenda.plays tracks
    (fun event here => (playable event here).measured) here first (fired_timers s (plan.unit cue))
  refine ⟨left, agenda.timers, agenda.whole, agenda.ordered, agenda.ahead, ?_, ?_⟩
  · rw [running.unit_heard playable here, running.heard]
    simp
  · obtain ⟨q, later, aged⟩ := fired_ages (plan.unit cue) found
    exact ⟨q, e, later, aged.engine.trans engine, (fired_engines ..).symm ▸ there⟩

/-- Whatever leaves the timers alone and is not heard leaves a playback running. -/
theorem spared (running : Running plan score played waiting s) (change : Change order n s t)
    (timers : t.timersOf plan.owner = s.timersOf plan.owner)
    (silent : t.heard plan.owner = s.heard plan.owner) : Running plan score played waiting t := by
  obtain ⟨p, e, found, engine, there⟩ := running.engine
  obtain ⟨q, later, aged⟩ := change.ages found
  exact ⟨timers.trans running.timers, running.whole, running.ordered, running.ahead,
    silent.trans running.heard, q, e, later, aged.engine.trans engine,
    Nat.lt_of_lt_of_le there change.engines_le⟩

/-- A stop ends a playback unless its timers cannot be cancelled, and then it changes nothing. -/
theorem stops (running : Running plan score played waiting s) (tracks : s.Tracks)
    (found : s.playbacks[plan.owner]? = some p) (live : p.notified = false) :
    Running plan score played waiting (s.stopped plan.owner) ∨
      Ended plan score played (s.stopped plan.owner) := by
  have silent := stopped_heard s plan.owner plan.owner
  have uniform : ∀ timer ∈ s.timers, timer.owner = plan.owner →
      timer.cancellable = plan.cancellable := by
    intro timer waits mine
    rcases running.agenda.cases waits mine with ⟨cue, _, rfl⟩ | rfl <;> rfl
  cases honoured : plan.cancellable with
  | true =>
    have gone := Gone.of_stop tracks found live fun timer waits mine =>
      (uniform timer waits mine).trans honoured
    exact .inr ⟨gone, .inl (silent.trans running.heard)⟩
  | false =>
    have change : Change .any 0 s (s.stopped plan.owner) := .stop plan.owner
    refine .inl (running.spared change ?_ silent)
    rw [timersOf, stopped_queue tracks found live, List.filter_filter, timersOf]
    apply List.filter_congr
    intro timer waits
    by_cases mine : timer.owner = plan.owner
    · simp [mine, (uniform timer waits mine).trans honoured]
    · simp [mine]

/-- A playback that runs keeps running or ends. -/
theorem change (running : Running plan score played waiting s) (tracks : s.Tracks)
    (playable : ∀ event ∈ score, event.Playable plan.scale plan.tempo) (old : plan.owner < n)
    (change : Change .due n s t) :
    (∃ played waiting, Running plan score played waiting t) ∨
      ∃ played, Ended plan score played t := by
  rcases change.spares tracks (.inl old) with
    spares | ⟨timer, first, mine, rfl⟩ | ⟨p, found, live, rfl⟩
  · exact .inl ⟨played, waiting, running.spared change spares.timers spares.heard⟩
  · rcases running.agenda.cases first.waits mine with ⟨cue, member, rfl⟩ | rfl
    · exact .inl ⟨played ++ [cue], running.plays tracks playable member first⟩
    · exact .inr ⟨played, running.completes tracks playable first⟩
  · rcases running.stops tracks found live with runs | ends
    · exact .inl ⟨played, waiting, runs⟩
    · exact .inr ⟨played, ends⟩

theorem changes (running : Running plan score played waiting s) (tracks : s.Tracks)
    (playable : ∀ event ∈ score, event.Playable plan.scale plan.tempo) (old : plan.owner < n)
    (changes : Changes .due n s t) :
    (∃ played waiting, Running plan score played waiting t) ∨
      ∃ played, Ended plan score played t := by
  induction changes with
  | refl => exact .inl ⟨played, waiting, running⟩
  | tail before change ih =>
    have tracks := tracks.changes before
    rcases ih with ⟨played, waiting, running⟩ | ⟨played, ended⟩
    · exact running.change tracks playable old change
    · obtain ⟨gone, spares⟩ := ended.gone.changes tracks old (.single change)
      refine .inr ⟨played, gone, ?_⟩
      rw [spares.heard]
      exact ended.heard

end Running

theorem not_completed (played : List (Event × Nat)) :
    Heard.completion ∉ played.flatMap Event.heard := by
  simp [Event.heard]

/-- A playback that has just been started runs, with all its units still to come. -/
theorem Started.running {plan : Plan} {engine : Option Nat} {callback : Option Callback}
    {score : Music} (started : Started plan engine callback score s t)
    (run : Reaches order .initial s) (owner : plan.owner = s.playbacks.length)
    (there : ∀ e ∈ engine, e < s.engines.length) : Running plan score [] score.zipIdx t := by
  have before := run.leads.spares .initial (Nat.le_of_eq owner.symm)
  obtain ⟨pending, found⟩ := started.playback
  have agenda := started.agenda run owner
  refine ⟨agenda.timers, .rfl, .nil, agenda.ahead, ?_, _, _, found, rfl, ?_⟩
  · have silent : s.heard plan.owner = [] := before.heard.trans (by simp [heard, initial])
    rw [heard_append started.journal, silent]
    simp [Happening.heard?]
  · rw [started.engines]
    cases engine with
    | none => simp [equipped]
    | some e => exact there e rfl

/-- Where timers run by due time and then by age, a playback that completes has played each of its
units once by then, in order of time and then of place, and plays none afterwards. -/
theorem completion_last {facility : Facility} {engine : Option Nat} {score : Music}
    {scale : Binary64} {tempo : Number} (run : Reaches order .initial s)
    (waits : facility = .queueing ∨ facility = .stubborn)
    (scaled : Duration.tempoScale tempo = .ok scale)
    (playable : ∀ event ∈ score, event.Playable scale tempo)
    (there : ∀ e ∈ engine, e < s.engines.length) (perform : Performer)
    (callback : Option Callback) :
    ∃ t, Act.schedule perform facility engine callback score tempo s =
        (.ok s.playbacks.length, t) ∧
      ∀ u, Reaches .due t u → Happening.ran s.playbacks.length none ∈ u.journal →
        ∃ played : List (Event × Nat), played.Perm score.zipIdx ∧
          played.Pairwise (s.plan facility scale tempo).Sooner ∧
          u.heard s.playbacks.length = played.flatMap Event.heard ++ [.completion] := by
  have later : facility ≠ .immediate := by rcases waits with rfl | rfl <;> decide
  have present : facility ≠ .absent := by rcases waits with rfl | rfl <;> decide
  obtain ⟨t, schedules, started⟩ :=
    Act.schedule_started later present scaled playable engine callback s
  have running := started.running run rfl there
  have tracks : t.Tracks := by
    have reached := run.schedule Performer.idle_lawful facility engine callback score tempo
    rw [schedules] at reached
    exact .of_run reached
  obtain ⟨_, found⟩ := started.playback
  have old := (List.getElem?_eq_some_iff.mp found).1
  refine ⟨t, schedules perform, fun u reached completed => ?_⟩
  have heard := completion_heard.mpr completed
  rcases running.changes tracks playable old reached.leads with
    ⟨played, waiting, running⟩ | ⟨played, ended⟩
  · exact absurd (running.heard ▸ heard) (not_completed played)
  · rcases ended.heard with silent | ⟨all, perm, ordered⟩
    · exact absurd (silent ▸ heard) (not_completed played)
    · exact ⟨played, perm, ordered, all⟩

/-- A score out of order, with two units at one time, on timers that nothing cancels. -/
theorem completion_last_unordered :
    let score : Music := [⟨.whole 1, .single "C4", .seconds (.whole 1)⟩,
      ⟨.whole 0, .group ["E4", "G4"], .seconds (.whole 2)⟩,
      ⟨.whole 1, .single "C5", .seconds (.whole 0)⟩]
    let t := (Act.schedule .idle .stubborn none none score (.whole 60) .initial).2
    let u := (Act.exec .idle 4 (.advance (.whole 5)) t).2
    ∃ played : List (Event × Nat), played.Perm score.zipIdx ∧
      u.heard 0 = played.flatMap Event.heard ++ [.completion] := by
  intro score t u
  have scaled : Duration.tempoScale (.whole 60) = .ok 2 :=
    Duration.tempoScale_eq (by decide +kernel)
  have playable : ∀ event ∈ score, event.Playable 2 (.whole 60) := by
    unfold score
    decide +kernel
  have completed : Heard.completion ∈ u.heard 0 := by
    unfold u t score
    decide +kernel
  have run : Reaches .due initial initial := .refl initial
  have there : ∀ e ∈ (none : Option Nat), e < initial.engines.length := by simp
  obtain ⟨t', schedules, last⟩ :=
    completion_last run (.inr rfl) scaled playable there .idle none
  have same : t = t' := congrArg Prod.snd schedules
  obtain ⟨played, perm, _, heard⟩ := last u
    (same ▸ .exec (.refl t) Performer.idle_lawful 4 (.advance (.whole 5)))
    (completion_heard.mp completed)
  exact ⟨played, perm, heard⟩

end Stage
end Solfege
