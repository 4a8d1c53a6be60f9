import Mathlib.Data.List.Induction
import Solfege.Proofs.Playback.Failing

/-! What survives a failing unit. Time may be let pass in any steps, each failing unit ending the
one that it is in: by the time at which no timer of the playback is left, each unit has been played
once, those without misnomers just as in the score from which the others are removed, and the
playback has completed. -/
namespace Solfege

/-! The order of what is left of a score. -/

section
variable {α : Type} (keep : α → Bool) (xs : List α)

/-- A place in a list, counted among the elements that are kept. -/
def keptPlace (cue : α × Nat) : α × Nat := (cue.1, (xs.take cue.2).countP keep)

/-- The elements that are kept have the places that they have in what is left. -/
theorem map_keptPlace : (xs.zipIdx.filter fun cue => keep cue.1).map (keptPlace keep xs) =
    (xs.filter keep).zipIdx := by
  induction xs using List.reverseRecOn with
  | nil => rfl
  | append_singleton xs x ih =>
    have before : (xs.zipIdx.filter fun cue => keep cue.1).map (keptPlace keep (xs ++ [x])) =
        (xs.zipIdx.filter fun cue => keep cue.1).map (keptPlace keep xs) := by
      apply List.map_congr_left
      intro cue here
      have inside : cue.2 < 0 + xs.length := (List.mem_zipIdx (List.mem_filter.mp here).1).2.1
      rw [keptPlace, keptPlace, List.take_append_of_le_length (by omega)]
    rw [List.zipIdx_append, List.filter_append, List.map_append, before, ih, List.filter_append,
      List.zipIdx_append]
    cases kept : keep x with
    | false => simp [kept]
    | true => simp [kept, keptPlace, List.countP_eq_length_filter]

theorem keptPlace_lt {a b : α × Nat} (here : a ∈ xs.zipIdx) (kept : keep a.1 = true)
    (less : a.2 < b.2) : (keptPlace keep xs a).2 < (keptPlace keep xs b).2 := by
  have found : xs[a.2]? = some a.1 := List.mk_mem_zipIdx_iff_getElem?.mp here
  obtain ⟨inside, there⟩ := List.getElem?_eq_some_iff.mp found
  calc (xs.take a.2).countP keep
      < (xs.take (a.2 + 1)).countP keep := by
        rw [List.take_succ_eq_append_getElem inside, List.countP_append, there]
        simp [kept]
    _ ≤ (xs.take b.2).countP keep := (List.take_sublist_take_left less).countP_le

end

/-- What is left of a score is played in the order that it has in the whole score. -/
theorem Plan.kept_order {plan : Plan} {score : Music} {keep : Event → Bool}
    {played alone : List (Event × Nat)} (whole : played.Perm score.zipIdx)
    (ordered : played.Pairwise plan.Sooner) (left : alone.Perm (score.filter keep).zipIdx)
    (also : alone.Pairwise plan.Sooner) :
    (played.filter fun cue => keep cue.1).map Prod.fst = alone.map Prod.fst := by
  have kept := whole.filter fun cue => keep cue.1
  have member {cue : Event × Nat} (here : cue ∈ played.filter fun cue => keep cue.1) :
      cue ∈ score.zipIdx ∧ keep cue.1 = true := List.mem_filter.mp (kept.mem_iff.mp here)
  have sorted : ((played.filter fun cue => keep cue.1).map (keptPlace keep score)).Pairwise
      plan.Sooner := by
    refine List.pairwise_map.mpr ((ordered.filter _).imp_of_mem fun {a b} first _ sooner => ?_)
    obtain ⟨here, kept⟩ := member first
    exact sooner.imp_right (And.imp_right (keptPlace_lt keep score here kept))
  have same : (played.filter fun cue => keep cue.1).map (keptPlace keep score) = alone := by
    refine List.Perm.eq_of_pairwise (fun a b _ _ sooner later => ?_) sorted also ?_
    · exact absurd later sooner.asymm
    · exact (map_keptPlace keep score ▸ kept.map (keptPlace keep score)).trans left.symm
  rw [← same, List.map_map]
  rfl

/-! Runs. -/

/-- The units of a playback that are played in the course of some moments. -/
structure Moment.Course (plan : Plan) (origin : Binary64) (moments : List Moment)
    (cues : List (Event × Nat)) : Prop where
  units : moments.filterMap (·.unit? plan.owner) = cues
  plays : ∀ moment ∈ moments, ∀ cue, moment.unit? plan.owner = some cue →
    moment.Plays plan origin cue

namespace Moment
variable {plan : Plan} {origin : Binary64} {moment : Moment} {moments : List Moment}
  {cue : Event × Nat} {cues : List (Event × Nat)}

theorem Course.nil : Course plan origin [] [] := ⟨rfl, by simp⟩

theorem Course.unit (unit : moment.unit? plan.owner = some cue)
    (plays : moment.Plays plan origin cue) : Course plan origin [moment] [cue] := by
  refine ⟨by simp [unit], fun other here found played => ?_⟩
  obtain rfl := List.mem_singleton.mp here
  cases unit.symm.trans played
  exact plays

theorem Course.other (none : moment.unit? plan.owner = none) : Course plan origin [moment] [] := by
  refine ⟨by simp [none], fun other here found played => ?_⟩
  obtain rfl := List.mem_singleton.mp here
  rw [none] at played
  cases played

theorem Course.append {others : List Moment} {more : List (Event × Nat)}
    (first : Course plan origin moments cues) (second : Course plan origin others more) :
    Course plan origin (moments ++ others) (cues ++ more) := by
  refine ⟨by rw [List.filterMap_append, first.units, second.units], fun moment here => ?_⟩
  rcases List.mem_append.mp here with early | late
  · exact first.plays moment early
  · exact second.plays moment late

theorem Course.takes (course : Course plan origin moments cues) :
    takes moments plan.owner = cues.map fun cue => (cue, plan.notes origin cue) := by
  rw [← course.units, List.map_filterMap]
  apply List.filterMap_congr
  intro moment here
  cases unit : moment.unit? plan.owner with
  | none => rfl
  | some cue =>
    have gained := (course.plays moment here cue unit).gained
    exact congrArg (fun notes => some (cue, notes)) gained

/-- Units that are kept in the same order leave the same notes. -/
theorem Course.kept {keep : Event → Bool} {others : List Moment} {left : List (Event × Nat)}
    (course : Course plan origin moments cues) (other : Course plan origin others left)
    (same : (cues.filter fun cue => keep cue.1).map Prod.fst = left.map Prod.fst) :
    ((Moment.takes moments plan.owner).filter fun take => keep take.1.1).map
        (fun take => (take.1.1, take.2)) =
      (Moment.takes others plan.owner).map fun take => (take.1.1, take.2) := by
  have notes (cues : List (Event × Nat)) :
      (cues.map fun cue => (cue.1, plan.notes origin cue)) =
        (cues.map Prod.fst).map fun event => (event, plan.notes origin (event, 0)) := by
    rw [List.map_map]
    rfl
  rw [course.takes, other.takes, List.filter_map, List.map_map, List.map_map]
  calc (cues.filter fun cue => keep cue.1).map (fun cue => (cue.1, plan.notes origin cue))
      = left.map fun cue => (cue.1, plan.notes origin cue) := by rw [notes, same, ← notes]

end Moment

namespace Stage
open Moment
variable {plan : Plan} {score : Music} {callback : Option Callback} {origin : Binary64}
  {played waiting : List (Event × Nat)} {moments : List Moment} {s t : Stage}

namespace Past

theorem tick (past : s.Past plan callback) (time : Binary64) :
    Past plan callback { s with clock := time } :=
  ⟨⟨past.gone.done, past.gone.timers⟩, past.callback, past.tracks,
    past.settled.quiet ⟨rfl, rfl, fun _ => .rfl⟩⟩

/-- No timer that runs afterwards is one of the playback. -/
theorem runs {moment : Moment} (past : moment.before.Past plan callback) (runs : moment.Runs) :
    moment.unit? plan.owner = none ∧ moment.closes plan.owner = false ∧
      moment.after.Past plan callback := by
  obtain @⟨before, timer, deep, first⟩ := runs
  have other : timer.owner ≠ plan.owner := by
    intro mine
    have here := mem_timersOf.mpr ⟨first.waits, mine⟩
    rw [past.gone.timers] at here
    cases here
  have leads : Leads .due before (Act.fire (Act.perform deep) timer before).2 :=
    Act.fire_leads (Performer.perform_lawful deep).walks first
  obtain ⟨p, found, called⟩ := past.callback
  obtain ⟨q, later, aged⟩ := Changes.ages leads found
  have old := (List.getElem?_eq_some_iff.mp found).1
  exact ⟨unit?_other other, closes_other other, (past.gone.changes past.tracks old leads).1,
    ⟨q, later, aged.callback.trans called⟩, past.tracks.changes leads, past.settled.changes leads⟩

theorem lives (past : s.Past plan callback) (chain : Chain s moments t)
    (runs : ∀ moment ∈ moments, moment.Runs) :
    Course plan origin moments [] ∧ moments.countP (·.closes plan.owner) = 0 ∧
      t.Past plan callback := by
  induction chain with
  | nil s time => exact ⟨.nil, rfl, past.tick time⟩
  | @cons s t moment moments time before _ ih =>
    obtain ⟨unit, closes, after⟩ := Past.runs (before ▸ past.tick time) (runs moment (by simp))
    obtain ⟨course, none, past⟩ := ih after fun other here => runs other (by simp [here])
    exact ⟨(Course.other unit).append course, by simpa [closes] using none, past⟩

theorem finished (past : s.Past plan callback) : s.finishedAt plan.owner = true := by
  obtain ⟨p, found, done⟩ := past.gone.done
  simp [finishedAt, found, past.settled.finished p found, done]

theorem calls (past : s.Past plan callback) :
    s.calls plan.owner = if callback.isSome then 1 else 0 := by
  obtain ⟨p, found, done⟩ := past.gone.done
  obtain ⟨q, again, called⟩ := past.callback
  cases found.symm.trans again
  rw [past.settled.called p found, done, called, Bool.true_and]

end Past

namespace Underway

/-- Until the playback completes a timer that runs may play one of its units and leaves fewer
timers. -/
theorem runs {moment : Moment}
    (under : moment.before.Underway plan score callback origin played waiting)
    (measured : ∀ event ∈ score, event.Measured plan.scale plan.tempo) (runs : moment.Runs) :
    (∃ cues waiting, Course plan origin [moment] cues ∧ moment.closes plan.owner = false ∧
      moment.after.Underway plan score callback origin (played ++ cues) waiting ∧
      moment.after.timers.length < moment.before.timers.length) ∨
    Course plan origin [moment] [] ∧ moment.closes plan.owner = true ∧ waiting = [] ∧
      moment.after.Past plan callback := by
  obtain @⟨before, timer, deep, first⟩ := runs
  by_cases mine : timer.owner = plan.owner
  · rcases under.agenda.cases first.waits mine with ⟨cue, here, rfl⟩ | rfl
    · obtain ⟨plays, waiting, next⟩ := under.unit measured here first
      exact .inl ⟨[cue], waiting, .unit unit?_unit plays, closes_unit, next,
        fired_fewer first.waits⟩
    · obtain ⟨none, past⟩ := under.last measured first deep
      exact .inr ⟨.other unit?_last, closes_last, none, past⟩
  · refine .inl ⟨[], waiting, .other (unit?_other mine), closes_other mine, ?_, ?_⟩
    · rw [List.append_nil]
      exact under.other first mine deep
    · dsimp only
      rw [(under.calm.fire_idles first.waits mine deep).timers]
      exact fired_fewer first.waits

/-- In whatever steps time passes, the units of a playback are played in order until it completes,
the failing ones like the others, and each timer that runs until then leaves fewer. -/
theorem lives (under : s.Underway plan score callback origin played waiting)
    (measured : ∀ event ∈ score, event.Measured plan.scale plan.tempo) (chain : Chain s moments t)
    (runs : ∀ moment ∈ moments, moment.Runs) :
    ∃ more, Course plan origin moments more ∧
      ((∃ waiting, t.Underway plan score callback origin (played ++ more) waiting ∧
          t.timers.length + moments.length ≤ s.timers.length) ∨
        (played ++ more).Perm score.zipIdx ∧ (played ++ more).Pairwise plan.Sooner ∧
          moments.countP (·.closes plan.owner) = 1 ∧ t.Past plan callback) := by
  induction chain generalizing played waiting with
  | nil s time =>
    rw [← List.append_nil played] at under
    exact ⟨[], .nil, .inl ⟨waiting, under.tick time, Nat.le_refl _⟩⟩
  | @cons s t moment moments time before chain ih =>
    have under : moment.before.Underway plan score callback origin played waiting :=
      before ▸ under.tick time
    have others : ∀ moment ∈ moments, moment.Runs := fun other here => runs other (by simp [here])
    rcases under.runs measured (runs moment (by simp)) with
      ⟨cues, waiting, first, closes, next, fewer⟩ | ⟨first, closes, rfl, past⟩
    · obtain ⟨more, course, rest⟩ := ih next others
      refine ⟨cues ++ more, first.append course, ?_⟩
      rw [List.countP_cons_of_neg (by simp [closes]), ← List.append_assoc]
      refine rest.imp_left ?_
      rintro ⟨left, still, less⟩
      have same : moment.before.timers = s.timers := by rw [before]
      exact ⟨left, still, by rw [List.length_cons, ← same]; omega⟩
    · obtain ⟨course, none, past⟩ := past.lives chain others
      refine ⟨[], first.append course, .inr ⟨under.agenda.whole, ?_, ?_, past⟩⟩
      · simpa using under.agenda.ordered
      · simp [closes, none]

end Underway

theorem performed_advances (s : Stage) (lapses : List Number) :
    s.performed (lapses.map .advance) = s.advanced lapses := List.foldl_map ..

/-- Each of the steps in which time passes reaches a time. -/
inductive Outlasts (time : Binary64) : Stage → List Number → Prop
  | nil (s : Stage) : Outlasts time s []
  | cons {s : Stage} {lapse : Number} {x : Binary64} {rest : List Number} :
      lapse.toReal = .ok x → time ≤ s.clock + x →
      Outlasts time (s.step (.advance lapse)).2 rest → Outlasts time s (lapse :: rest)

namespace Underway

/-- As many advances as there are timers are enough, if each of them reaches the end: until the
playback completes each runs a timer. -/
theorem ends (under : s.Underway plan score callback origin played waiting)
    (measured : ∀ event ∈ score, event.Measured plan.scale plan.tempo) {lapses : List Number}
    (reach : s.Outlasts (plan.last score).due lapses) (enough : s.timers.length ≤ lapses.length) :
    (s.advanced lapses).timersOf plan.owner = [] := by
  induction reach generalizing played waiting with
  | nil s =>
    have last := List.length_pos_of_mem under.agenda.last_waits
    rw [List.length_nil] at enough
    omega
  | @cons s lapse x rest real due _ ih =>
    have runs := moments_ne_nil under.agenda.last_waits real due
    have ran := List.length_pos_iff.mpr runs
    obtain ⟨more, _, ⟨left, still, fewer⟩ | ⟨_, _, _, past⟩⟩ :=
      under.lives measured (s.moments_chain (.advance lapse)) (s.moments_run lapse)
    · exact ih still (by rw [List.length_cons] at enough; omega)
    · obtain ⟨_, _, later⟩ : Course plan origin _ [] ∧ _ ∧ _ :=
        past.lives (lived_chain _ (rest.map .advance)) (lived_runs _ rest)
      rw [performed_advances] at later
      exact later.gone.timers

/-- A playback of which no timer is left has played each of its units and has completed. -/
theorem completes (under : s.Underway plan score callback origin [] score.zipIdx)
    (measured : ∀ event ∈ score, event.Measured plan.scale plan.tempo) {lapses : List Number}
    (idle : (s.advanced lapses).timersOf plan.owner = []) :
    ∃ played, Course plan origin (s.lived (lapses.map .advance)) played ∧
      played.Perm score.zipIdx ∧ played.Pairwise plan.Sooner ∧
      (s.lived (lapses.map .advance)).countP (·.closes plan.owner) = 1 ∧
      (s.advanced lapses).Past plan callback := by
  obtain ⟨played, course, ⟨waiting, still, _⟩ | ⟨whole, ordered, once, past⟩⟩ :=
    under.lives measured (lived_chain s (lapses.map .advance)) (lived_runs s lapses)
  · rw [performed_advances] at still
    have waits := still.agenda.timers
    rw [idle] at waits
    simp at waits
  · rw [performed_advances] at past
    exact ⟨played, course, whole, ordered, once, past⟩

/-- A failing unit ends the advance in which it is played with what is wrong with its misnomer, the
clock left at its time. -/
theorem fails (under : s.Underway plan score callback origin played waiting)
    (measured : ∀ event ∈ score, event.Measured plan.scale plan.tempo) (lapses : List Number)
    {lapse : Number} {moment : Moment} {cue : Event × Nat} {name : String}
    (here : moment ∈ (s.advanced lapses).moments (.advance lapse))
    (unit : moment.unit? plan.owner = some cue)
    (misnomer : cue.1.sound.misnomer? = some name) :
    ∃ fault later, Pitch.Misnames name fault ∧
      (s.advanced lapses).step (.advance lapse) = (.error fault, later) ∧
      later.clock = (plan.unit cue).due := by
  have inside : moment ∈ s.lived ((lapses ++ [lapse]).map .advance) := by
    rw [List.map_append, lived_append, performed_advances]
    refine List.mem_append_right _ ?_
    rw [List.map_singleton, lived, lived, List.append_nil]
    exact here
  obtain ⟨_, course, _⟩ := under.lives measured (lived_chain s ((lapses ++ [lapse]).map .advance))
    (lived_runs s (lapses ++ [lapse]))
  have plays := course.plays moment inside cue unit
  obtain ⟨fault, misnames, outcome⟩ := Sound.outcome_eq_error misnomer
  exact ⟨fault, moment.after, misnames, step_advance_fails here plays.timer fun perform =>
    (plays.answers perform).trans outcome, plays.clock⟩

end Underway

/-- A failing unit loses only itself. However time is let pass, by the time at which no timer of the
playback is left each of its units has been played once, in order, and recorded the names before its
first misnomer; the units without misnomers have recorded what they record in the score without the
others; and the playback has completed once, and called its callback once. That time comes: as many
advances as there are timers are enough, if each of them reaches the end of the score. -/
theorem failing_loses_itself {order : Order} {facility : Facility} {engine : Option Nat}
    {scale : Binary64} {tempo : Number} (run : Reaches order .initial s)
    (waits : facility = .queueing ∨ facility = .stubborn)
    (scaled : Duration.tempoScale tempo = .ok scale)
    (measured : ∀ event ∈ score, event.Measured scale tempo)
    (there : ∀ e ∈ engine, e < s.engines.length) (calm : s.Calm s.playbacks.length)
    (perform : Performer) (callback : Option Callback) :
    let owner := s.playbacks.length
    let plan := s.plan facility scale tempo
    ∃ t u origin, (s.equipped engine).origin (engine.getD s.engines.length) = some origin ∧
      Act.schedule perform facility engine callback score tempo s = (.ok owner, t) ∧
      Act.schedule perform facility engine callback (score.filter Event.pitched) tempo s =
        (.ok owner, u) ∧
      (∀ lapses, (t.advanced lapses).timersOf owner = [] →
        let moments := t.lived (lapses.map .advance)
        (∃ played : List (Event × Nat), played.Perm score.zipIdx ∧ played.Pairwise plan.Sooner ∧
          takes moments owner = played.map fun cue => (cue, plan.notes origin cue)) ∧
        (∀ others, (u.advanced others).timersOf owner = [] →
          ((takes moments owner).filter fun take => take.1.1.pitched).map
              (fun take => (take.1.1, take.2)) =
            (takes (u.lived (others.map .advance)) owner).map fun take => (take.1.1, take.2)) ∧
        moments.countP (·.closes owner) = 1 ∧ (t.advanced lapses).finishedAt owner = true ∧
        (t.advanced lapses).calls owner = if callback.isSome then 1 else 0) ∧
      (∀ lapses lapse, ∀ moment ∈ (t.advanced lapses).moments (.advance lapse), ∀ cue name,
        moment.unit? owner = some cue → cue.1.sound.misnomer? = some name →
        ∃ fault later, Pitch.Misnames name fault ∧
          (t.advanced lapses).step (.advance lapse) = (.error fault, later) ∧
          later.clock = (plan.unit cue).due) ∧
      ∀ lapses, t.Outlasts (plan.last score).due lapses → t.timers.length ≤ lapses.length →
        (t.advanced lapses).timersOf owner = [] := by
  intro owner plan
  have later : facility ≠ .immediate := by rcases waits with rfl | rfl <;> decide
  have present : facility ≠ .absent := by rcases waits with rfl | rfl <;> decide
  obtain ⟨origin, made⟩ : ∃ origin,
      (s.equipped engine).origin (engine.getD s.engines.length) = some origin := by
    refine ⟨_, origin_eq_some ?_⟩
    cases engine with
    | none => simp [equipped]
    | some e => exact there e rfl
  have starts {music : Music} (measured : ∀ event ∈ music, event.Measured scale tempo) :
      ∃ t, Act.schedule perform facility engine callback music tempo s = (.ok owner, t) ∧
        t.Underway plan music callback origin [] music.zipIdx := by
    obtain ⟨t, schedules, started⟩ := Act.schedule_timed later present scaled
      (fun event here => (measured event here).timed) engine callback s
    have here : Reaches order s s := .refl s
    have reached := here.schedule Performer.idle_lawful facility engine callback music tempo
    rw [schedules] at reached
    exact ⟨t, schedules perform, started.underway run reached rfl made calm⟩
  have fewer : ∀ event ∈ score.filter Event.pitched, event.Measured scale tempo :=
    fun event here => measured event (List.mem_filter.mp here).1
  obtain ⟨t, schedules, under⟩ := starts measured
  obtain ⟨u, also, alone⟩ := starts fewer
  refine ⟨t, u, origin, made, schedules, also, fun lapses idle => ?_,
    fun lapses lapse moment here cue name unit misnomer =>
      under.fails measured lapses here unit misnomer,
    fun lapses reach enough => under.ends measured reach enough⟩
  obtain ⟨played, course, whole, ordered, once, past⟩ := under.completes measured idle
  refine ⟨⟨played, whole, ordered, course.takes⟩, fun others silent => ?_, once, past.finished,
    past.calls⟩
  obtain ⟨left, other, rest, sorted, _⟩ := alone.completes fewer silent
  exact course.kept other (Plan.kept_order whole ordered rest sorted)

/-- Two failing units out of order, one of them at the time of a unit that does not fail. -/
theorem failing_loses_itself_twice :
    let score : Music := [⟨.whole 0, .group ["C4", "H9", "E4"], .seconds (.whole 1)⟩,
      ⟨.whole 1, .single "nope", .seconds (.whole 1)⟩,
      ⟨.whole 0, .single "C5", .seconds (.whole 2)⟩,
      ⟨.real 0.5, .single "D4", .seconds (.whole 1)⟩]
    let callback : Callback := ⟨"done", [.raise "again"]⟩
    let started (score : Music) :=
      (Act.schedule .idle .queueing none (some callback) score (.whole 60) .initial).2
    let lapses : List Number := [.whole 10, .whole 10, .whole 10]
    let moments := (started score).lived (lapses.map .advance)
    let others := (started (score.filter Event.pitched)).lived ([.whole 10].map .advance)
    ((takes moments 0).filter fun take => take.1.1.pitched).map (fun take => (take.1.1, take.2)) =
        (takes others 0).map (fun take => (take.1.1, take.2)) ∧
      moments.countP (·.closes 0) = 1 ∧ ((started score).advanced lapses).calls 0 = 1 := by
  intro score callback started lapses moments others
  have run : Reaches .due initial initial := .refl initial
  have scaled : Duration.tempoScale (.whole 60) = .ok 2 :=
    Duration.tempoScale_eq (by decide +kernel)
  have measured : ∀ event ∈ score, event.Measured 2 (.whole 60) := by
    unfold score
    decide +kernel
  have there : ∀ e ∈ (none : Option Nat), e < initial.engines.length := by simp
  have calm : Calm initial.playbacks.length initial := by simp [Calm, initial]
  obtain ⟨t, u, _, _, schedules, also, ended, _⟩ :=
    failing_loses_itself run (.inl rfl) scaled measured there calm .idle (some callback)
  obtain rfl : started score = t := congrArg Prod.snd schedules
  obtain rfl : started (score.filter Event.pitched) = u := congrArg Prod.snd also
  have idle : ((started score).advanced lapses).timersOf 0 = [] := by
    unfold started score lapses
    decide +kernel
  have silent : ((started (score.filter Event.pitched)).advanced [.whole 10]).timersOf 0 = [] := by
    unfold started score
    decide +kernel
  obtain ⟨_, same, once, _, calls⟩ := ended lapses idle
  exact ⟨same [.whole 10] silent, once, calls⟩

end Stage
end Solfege
