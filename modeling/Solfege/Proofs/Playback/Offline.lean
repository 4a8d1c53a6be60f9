import Solfege.Proofs.Playback.Queue
import Solfege.Proofs.Playback.Sending

/-! Playing in time agrees with rendering at once. A score in order of time that starts with the
clock is played unit by unit as the clock comes by, whatever the steps of the clock, and leaves the
notes that rendering it from zero leaves. -/
namespace Solfege

/-- The notes of an event that sounds from its own time on. -/
def Event.notes (event : Event) (scale : Binary64) (tempo : Number) : List RecordedNote :=
  (Recorder.notesFor (.real (event.lasts tempo))
    (.real (0 + event.comes scale + event.onset (event.lasts tempo)))
    (.real event.sound.velocity) event.sound.names).1

/-- The notes of a score that starts at zero. -/
def Music.notes (music : Music) (scale : Binary64) (tempo : Number) : List RecordedNote :=
  music.flatMap (·.notes scale tempo)

theorem Music.zipIdx_notes (music : Music) (scale : Binary64) (tempo : Number) :
    (music.zipIdx.flatMap fun cue => cue.1.notes scale tempo) = music.notes scale tempo := by
  have events : music.zipIdx.map Prod.fst = music := List.zipIdx_map_fst 0 music
  calc (music.zipIdx.flatMap fun cue => cue.1.notes scale tempo)
      = (music.zipIdx.map Prod.fst).flatMap (·.notes scale tempo) := by rw [List.flatMap_map]
    _ = music.notes scale tempo := by rw [events, notes]

namespace Act
variable {s : Stage} {e : Nat} {recorder : Recorder} {score : Music} {scale : Binary64}
  {tempo : Number}

/-- Rendering a score from zero answers with its length and leaves its notes. -/
theorem render_notes (found : s.engines[e]? = some recorder)
    (scaled : Duration.tempoScale tempo = .ok scale)
    (playable : ∀ event ∈ score, event.Playable scale tempo) :
    ∃ t, render (some e) score (.real 0) tempo s = (.ok (score.lasts scale tempo), t) ∧
      t.engines[e]? =
        some { recorder with notes := recorder.notes ++ score.notes scale tempo } := by
  obtain ⟨told, renders⟩ :=
    render_sends found scaled fun event here => (playable event here).sendable
  exact ⟨_, renders, Stage.replaced_engine found _ told⟩

end Act

/-- A unit of a plan that starts with the clock of its engine leaves the notes that it has in the
score as a whole. -/
theorem Act.fire_unit {s : Stage} {e : Nat} {plan : Plan} {cue : Event × Nat} {p : Playback}
    {recorder : Recorder} (clock : plan.clock = 0) (found : s.playbacks[plan.owner]? = some p)
    (engine : p.engine = some e) (there : s.engines[e]? = some recorder)
    (origin : recorder.origin = 0)
    (pitches : ∀ name ∈ cue.1.sound.names, ∃ number, Pitch.numberOf name = .ok number)
    (perform : Performer) :
    ∃ t, fire perform (plan.unit cue) s = (.ok (), t) ∧
      t.timers = (s.taken (plan.unit cue)).timers ∧
      t.playbacks[plan.owner]? = some (p.forget (some (plan.unit cue).id)) ∧
      t.engines[e]? = some { recorder with
        notes := recorder.notes ++ cue.1.notes plan.scale plan.tempo } := by
  have sounds := run_unit_plays (s := s.taken (plan.unit cue)) found engine there pitches perform
    (some (plan.unit cue).id) cue.2 (cue.1.lasts plan.tempo)
  have now : recorder.now (s.taken (plan.unit cue)).clock = 0 + cue.1.comes plan.scale := by
    rw [Recorder.now, origin, Binary64.sub_zero, Stage.taken_clock, Plan.unit_due, clock]
  rw [now] at sounds
  refine ⟨_, sounds, rfl, by simp [found], ?_⟩
  exact List.getElem?_set_self (List.getElem?_eq_some_iff.mp there).1

/-- In a score in order of time the timers are due in the order in which they are made. -/
theorem Plan.sorted {plan : Plan} {score : Music} (clock : plan.clock = 0)
    (playable : ∀ event ∈ score, event.Playable plan.scale plan.tempo)
    (ordered : score.Pairwise fun a b => a.comes plan.scale ≤ b.comes plan.scale) :
    (plan.units score ++ [plan.last score]).Pairwise fun a b => a.due ≤ b.due := by
  have zero : plan.clock.isFinite := by rw [clock, Binary64.zero_eq]; rfl
  have cues : score.zipIdx.Pairwise fun a b => a.1.comes plan.scale ≤ b.1.comes plan.scale := by
    have events : (score.zipIdx.map Prod.fst).Pairwise
        fun a b => a.comes plan.scale ≤ b.comes plan.scale := by
      rw [List.zipIdx_map_fst]
      exact ordered
    exact (List.pairwise_map (f := Prod.fst)).mp events
  refine List.pairwise_append.mpr ⟨?_, List.pairwise_singleton _ _, ?_⟩
  · refine List.pairwise_map.mpr (cues.imp_of_mem fun {a b} hereA hereB le => ?_)
    have finite := (playable _ (List.fst_mem_of_mem_zipIdx hereA)).comes_finite
    exact Binary64.add_le_add_left finite le
      (Binary64.number_add zero (Binary64.le_self_right le))
  · intro timer unit last here
    obtain ⟨cue, member, rfl⟩ := List.mem_map.mp unit
    rw [List.mem_singleton.mp here]
    have inside := List.fst_mem_of_mem_zipIdx member
    have le := Music.comes_le_lasts (fun event here => (playable event here).measured) inside
    exact Binary64.add_le_add_left (playable _ inside).comes_finite le
      (Binary64.number_add zero (Binary64.le_self_right le))

namespace Stage
variable {plan : Plan} {score : Music} {e : Nat} {played waiting : List (Event × Nat)}
  {s t : Stage} {timer : Timer} {rest : List Timer} {time : Binary64}

/-- A timer that is taken off the queue leaves the others. -/
theorem taken_head (aged : s.timers.Pairwise fun a b => a.id < b.id)
    (head : s.timers = timer :: rest) : (s.taken timer).timers = rest := by
  have aged : ([] ++ timer :: rest).Pairwise fun a b : Timer => a.id < b.id := head ▸ aged
  rw [taken_timers, head]
  exact filter_ids aged

/-- A session in which time advances step by step. -/
def advanced (s : Stage) (lapses : List Number) : Stage :=
  lapses.foldl (fun s lapse => (s.step (.advance lapse)).2) s

/-- A playback alone on its timers: the units that are not played yet wait, the engine has the notes
of the others, and the completion waits with them or is done. -/
structure Alone (plan : Plan) (score : Music) (e : Nat) (played waiting : List (Event × Nat))
    (s : Stage) : Prop where
  whole : played ++ waiting = score.zipIdx
  timers : s.timers = waiting.map plan.unit ++ [plan.last score] ∨ waiting = [] ∧ s.timers = []
  playback : ∃ p, s.playbacks[plan.owner]? = some p ∧ p.engine = some e ∧ p.callback = none
  engine : ∃ recorder, s.engines[e]? = some recorder ∧ recorder.origin = 0 ∧
    recorder.notes = played.flatMap fun cue => cue.1.notes plan.scale plan.tempo

namespace Alone

theorem sublist (alone : Alone plan score e played waiting s) :
    s.timers.Sublist (plan.units score ++ [plan.last score]) := by
  rcases alone.timers with same | ⟨_, idle⟩
  · rw [same, Plan.units, ← alone.whole, List.map_append, List.append_assoc]
    exact List.sublist_append_right _ _
  · rw [idle]
    exact List.nil_sublist _

theorem taken_timers (alone : Alone plan score e played waiting s)
    (head : s.timers = timer :: rest) : (s.taken timer).timers = rest :=
  taken_head ((plan.aged score).sublist alone.sublist) head

/-- A unit leaves the notes that it has in the score as a whole. -/
theorem plays {cue : Event × Nat} (alone : Alone plan score e played (cue :: waiting) s)
    (clock : plan.clock = 0) (playable : ∀ event ∈ score, event.Playable plan.scale plan.tempo)
    (left : (s.taken (plan.unit cue)).timers = waiting.map plan.unit ++ [plan.last score])
    (perform : Performer) :
    ∃ t, Act.fire perform (plan.unit cue) s = (.ok (), t) ∧
      t.timers = (s.taken (plan.unit cue)).timers ∧
      Alone plan score e (played ++ [cue]) waiting t := by
  obtain ⟨p, found, engine, silent⟩ := alone.playback
  obtain ⟨recorder, there, origin, notes⟩ := alone.engine
  have member : cue ∈ score.zipIdx := alone.whole ▸ List.mem_append_right _ (by simp)
  obtain ⟨t, fired, timers, playback, heard⟩ := Act.fire_unit clock found engine there origin
    (playable _ (List.fst_mem_of_mem_zipIdx member)).names perform
  refine ⟨t, fired, timers, ?_, .inl (timers.trans left), ⟨_, playback, engine, silent⟩,
    _, heard, origin, ?_⟩
  · rw [← alone.whole, List.append_assoc]
    rfl
  · rw [notes, List.flatMap_append, List.flatMap_singleton]

/-- The completion of a playback without a callback leaves the engine alone. -/
theorem completes (alone : Alone plan score e played [] s)
    (left : (s.taken (plan.last score)).timers = []) (perform : Performer) :
    ∃ t, Act.fire perform (plan.last score) s = (.ok (), t) ∧ t.timers = [] ∧
      Alone plan score e played [] t := by
  obtain ⟨p, found, engine, silent⟩ := alone.playback
  let u := (s.taken (plan.last score)).noted [.ran plan.owner none]
  have complete := Act.complete_apply perform plan.owner u
  have here : u.playbacks[plan.owner]? = some p := found
  rw [here] at complete
  dsimp only at complete
  have fired : Act.fire perform (plan.last score) s = Act.complete perform plan.owner u := rfl
  rw [fired, complete]
  split
  · exact ⟨_, rfl, left, alone.whole, .inr ⟨rfl, left⟩, ⟨p, found, engine, silent⟩, alone.engine⟩
  · rw [silent]
    refine ⟨_, rfl, left, alone.whole, .inr ⟨rfl, left⟩, ⟨p.closed, ?_, engine, silent⟩,
      alone.engine⟩
    simp [here]

/-- The first timer is run, and the others stay. -/
theorem fires (alone : Alone plan score e played waiting s) (clock : plan.clock = 0)
    (playable : ∀ event ∈ score, event.Playable plan.scale plan.tempo)
    (head : s.timers = timer :: rest) (perform : Performer) :
    ∃ t played waiting, Act.fire perform timer s = (.ok (), t) ∧ t.timers = rest ∧
      Alone plan score e played waiting t := by
  have left := alone.taken_timers head
  rcases alone.timers with same | ⟨_, idle⟩
  · cases waiting with
    | nil =>
      obtain ⟨rfl, rfl⟩ : plan.last score = timer ∧ [] = rest := by
        simpa [same] using head
      obtain ⟨t, fired, last, after⟩ := alone.completes left perform
      exact ⟨t, played, [], fired, last, after⟩
    | cons cue waiting =>
      obtain ⟨rfl, rfl⟩ :
          plan.unit cue = timer ∧ waiting.map plan.unit ++ [plan.last score] = rest := by
        simpa [same] using head
      obtain ⟨t, fired, others, after⟩ := alone.plays clock playable left perform
      exact ⟨t, played ++ [cue], waiting, fired, others.trans left, after⟩
  · rw [idle] at head
    cases head

/-- An advance runs the timers in order, all that are due by its time. -/
theorem drains (alone : Alone plan score e played waiting s) (clock : plan.clock = 0)
    (playable : ∀ event ∈ score, event.Playable plan.scale plan.tempo)
    (ordered : score.Pairwise fun a b => a.comes plan.scale ≤ b.comes plan.scale)
    (perform : Performer) (time : Binary64) {bound : Nat} (enough : s.timers.length ≤ bound) :
    ∃ t played waiting, Act.drain perform time bound s = (.ok (), t) ∧
      Alone plan score e played waiting t ∧ ∀ timer ∈ t.timers, ¬ timer.due ≤ time := by
  induction bound generalizing s played waiting with
  | zero =>
    have idle : s.timers = [] := List.eq_nil_of_length_eq_zero (Nat.le_zero.mp enough)
    exact ⟨s, played, waiting, rfl, alone, by simp [idle]⟩
  | succ bound ih =>
    rw [Act.drain, Act.get_bind]
    cases next : nextDue? time s.timers with
    | none => exact ⟨s, played, waiting, rfl, alone, nextDue?_eq_none next⟩
    | some timer =>
      -- The queue is in order of time, so what is due first is its head.
      have sorted := (Plan.sorted clock playable ordered).sublist alone.sublist
      obtain ⟨rest, head⟩ := (nextDue?_first next).head_of_sorted sorted
      obtain ⟨t, played, waiting, fired, left, after⟩ := alone.fires clock playable head perform
      have fewer : t.timers.length ≤ bound := by
        rw [left]
        rw [head, List.length_cons] at enough
        omega
      dsimp only
      rw [Act.bind_of_ok fired]
      exact ih after fewer

/-- An advance of a session has room for all timers. -/
theorem advances (alone : Alone plan score e played waiting s) (clock : plan.clock = 0)
    (playable : ∀ event ∈ score, event.Playable plan.scale plan.tempo)
    (ordered : score.Pairwise fun a b => a.comes plan.scale ≤ b.comes plan.scale)
    {lapse : Number} {x : Binary64} (real : lapse.toReal = .ok x) :
    ∃ t played waiting, (s.step (.advance lapse)).2 = t ∧ Alone plan score e played waiting t ∧
      ∀ timer ∈ t.timers, ¬ timer.due ≤ t.clock := by
  let bound := s.load + (Command.advance lapse).weight
  have enough : s.timers.length ≤ bound := by
    unfold bound load
    omega
  obtain ⟨t, played, waiting, drained, after, done⟩ :=
    alone.drains clock playable ordered (Act.perform bound) (s.clock + x) enough
  refine ⟨{ t with clock := s.clock + x }, played, waiting, ?_,
    ⟨after.whole, after.timers, after.playback, after.engine⟩, done⟩
  show (Act.exec (Act.perform bound) bound (.advance lapse) s).2 = _
  rw [Act.exec, Act.return_stage, Act.advance, Act.get_bind, real, Act.ofExcept_bind_ok,
    Act.bind_of_ok drained]
  rfl

/-- However time is split, after the last advance nothing that is due by then waits. -/
theorem advanced (alone : Alone plan score e played waiting s) (clock : plan.clock = 0)
    (playable : ∀ event ∈ score, event.Playable plan.scale plan.tempo)
    (ordered : score.Pairwise fun a b => a.comes plan.scale ≤ b.comes plan.scale)
    {lapses : List Number} (reals : ∀ lapse ∈ lapses, ∃ x, lapse.toReal = .ok x)
    (nonempty : lapses ≠ []) :
    ∃ played waiting, Alone plan score e played waiting (s.advanced lapses) ∧
      ∀ timer ∈ (s.advanced lapses).timers, ¬ timer.due ≤ (s.advanced lapses).clock := by
  induction lapses generalizing s played waiting with
  | nil => exact absurd rfl nonempty
  | cons lapse rest ih =>
    obtain ⟨x, real⟩ := reals lapse (by simp)
    obtain ⟨t, played, waiting, stepped, after, done⟩ :=
      alone.advances clock playable ordered real
    rw [Stage.advanced, List.foldl_cons, stepped]
    cases rest with
    | nil => exact ⟨played, waiting, after, done⟩
    | cons next rest =>
      have others : ∀ lapse ∈ next :: rest, ∃ x, lapse.toReal = .ok x :=
        fun lapse here => reals lapse (List.mem_cons_of_mem _ here)
      exact ih after others (by simp)

/-- When the clock has reached the length of the score no unit waits any more. -/
theorem all_played (alone : Alone plan score e played waiting s) (clock : plan.clock = 0)
    (playable : ∀ event ∈ score, event.Playable plan.scale plan.tempo)
    (done : ∀ timer ∈ s.timers, ¬ timer.due ≤ s.clock)
    (reached : score.lasts plan.scale plan.tempo ≤ s.clock) : played = score.zipIdx := by
  have idle : waiting = [] := by
    apply List.eq_nil_iff_forall_not_mem.mpr
    intro cue here
    have inside : cue.1 ∈ score := by
      have member : cue ∈ score.zipIdx := alone.whole ▸ List.mem_append_right _ here
      exact List.fst_mem_of_mem_zipIdx member
    have waits : plan.unit cue ∈ s.timers := by
      rcases alone.timers with same | ⟨rfl, _⟩
      · rw [same]
        exact List.mem_append_left _ (List.mem_map_of_mem here)
      · cases here
    have within :=
      Music.comes_le_lasts (fun event here => (playable event here).measured) inside
    have early : (plan.unit cue).due ≤ cue.1.comes plan.scale := by
      rw [Plan.unit_due, clock]
      exact Binary64.zero_add_le (Binary64.le_self_left within)
    exact done _ waits (Binary64.le_trans early (Binary64.le_trans within reached))
  simpa [idle] using alone.whole

end Alone

/-- A playback that starts with the clock on an engine without notes, alone on its timers. -/
theorem Started.alone {recorder : Recorder}
    (started : Started plan (some e) none score s t) (idle : s.timers = [])
    (engine : s.engines[e]? = some recorder) (origin : recorder.origin = 0)
    (fresh : recorder.notes = []) : Alone plan score e [] score.zipIdx t := by
  obtain ⟨pending, found⟩ := started.playback
  refine ⟨rfl, .inl ?_, ⟨_, found, rfl, rfl⟩, recorder, ?_, origin, fresh⟩
  · rw [started.timers, idle]
    rfl
  · rw [started.engines]
    exact engine

/-- The notes that an engine has recorded. -/
def notes (s : Stage) (e : Nat) : Option (List RecordedNote) :=
  s.engines[e]?.map Recorder.notes

/-- A score in order of time, played from the time zero of its engine, leaves the same notes as when
it is rendered from zero, however time advances to its end; and rendering answers with the length
of the playback. -/
theorem advanced_render {facility : Facility} {score : Music} {scale : Binary64} {tempo : Number}
    {recorder : Recorder} (waits : facility = .queueing ∨ facility = .stubborn)
    (scaled : Duration.tempoScale tempo = .ok scale)
    (playable : ∀ event ∈ score, event.Playable scale tempo)
    (ordered : score.Pairwise fun a b => a.comes scale ≤ b.comes scale)
    (clock : s.clock = 0) (idle : s.timers = []) (engine : s.engines[e]? = some recorder)
    (origin : recorder.origin = 0) (fresh : recorder.notes = [])
    {other : Stage} {e' : Nat} (fresh' : other.notes e' = some [])
    {lapses : List Number} (reals : ∀ lapse ∈ lapses, ∃ x, lapse.toReal = .ok x)
    (nonempty : lapses ≠ []) (perform : Performer) :
    ∃ t p rendered,
      Act.schedule perform facility (some e) none score tempo s =
        (.ok s.playbacks.length, t) ∧
      t.playbacks[s.playbacks.length]? = some p ∧
      Act.render (some e') score (.real 0) tempo other = (.ok p.length, rendered) ∧
      (p.length ≤ (t.advanced lapses).clock →
        (t.advanced lapses).notes e = rendered.notes e') := by
  have later : facility ≠ .immediate := by rcases waits with rfl | rfl <;> decide
  have there : facility ≠ .absent := by rcases waits with rfl | rfl <;> decide
  obtain ⟨t, schedules, started⟩ :=
    Act.schedule_started later there scaled playable (some e) none s
  obtain ⟨blank, found, empty⟩ := Option.map_eq_some_iff.mp fresh'
  obtain ⟨rendered, renders, all⟩ := Act.render_notes found scaled playable
  obtain ⟨pending, playback⟩ := started.playback
  refine ⟨t, _, rendered, schedules perform, playback, renders, fun reached => ?_⟩
  have alone := started.alone idle engine origin fresh
  obtain ⟨played, waiting, after, done⟩ := alone.advanced clock playable ordered reals nonempty
  obtain ⟨_, heard, _, notes⟩ := after.engine
  obtain rfl := after.all_played clock playable done reached
  have same := score.zipIdx_notes scale tempo
  rw [Stage.notes, Stage.notes, heard, all, Option.map_some, Option.map_some, notes, empty]
  exact congrArg some same

/-- Two units at one time and a later one, the time advanced in three steps. -/
theorem advanced_render_thirds :
    let score : Music := [⟨.whole 0, .single "C4", .seconds (.whole 1)⟩,
      ⟨.whole 0, .group ["E4", "G4"], .seconds (.whole 1)⟩,
      ⟨.whole 1, .single "C5", .seconds (.whole 0)⟩]
    let s := initial.equipped none
    let t := (Act.schedule .idle .queueing (some 0) none score (.whole 60) s).2
    let rendered := (Act.render (some 0) score (.real 0) (.whole 60) s).2
    (t.advanced [.real 1, .real 0.5, .real 3]).notes 0 = rendered.notes 0 := by
  intro score s t rendered
  have scaled : Duration.tempoScale (.whole 60) = .ok 2 :=
    Duration.tempoScale_eq (by decide +kernel)
  have playable : ∀ event ∈ score, event.Playable 2 (.whole 60) := by
    unfold score
    decide +kernel
  have ordered : score.Pairwise fun a b => a.comes 2 ≤ b.comes 2 := by
    unfold score
    decide +kernel
  have reals : ∀ lapse ∈ ([.real 1, .real 0.5, .real 3] : List Number),
      ∃ x, lapse.toReal = .ok x := by
    simp [Number.toReal, pure, Except.pure]
  have clock : s.clock = 0 := by simp [s, equipped, initial]
  have idle : s.timers = [] := rfl
  have engine : s.engines[0]? = some (.standard 0) := by simp [s, equipped, initial]
  have origin : (Recorder.standard 0).origin = 0 := rfl
  have empty : (Recorder.standard 0).notes = [] := rfl
  have fresh : s.notes 0 = some [] := rfl
  obtain ⟨t', p, rendered', schedules, playback, renders, same⟩ :=
    advanced_render (.inl rfl) scaled playable ordered clock idle engine origin empty fresh reals
      (by simp) .idle
  have started : t = t' := congrArg Prod.snd schedules
  have done : rendered = rendered' := congrArg Prod.snd renders
  have reached : t.playbacks[0]?.any (fun p =>
      decide (p.length ≤ (t.advanced [.real 1, .real 0.5, .real 3]).clock)) = true := by
    unfold t s score
    decide +kernel
  have known : t.playbacks[0]? = some p := started ▸ playback
  rw [known, Option.any_some, decide_eq_true_eq] at reached
  rw [done, started]
  exact same (started ▸ reached)

end Stage
end Solfege
