import Solfege.Proofs.Aural.Performance
import Solfege.Proofs.Playback.Orderly
import Solfege.Proofs.Playback.Setup

/-! Playing an aural object in time. Its notes are recorded one unit after the other as the clock
comes by, whatever the steps of the clock, and then its callback is called, once. -/
namespace Solfege

/-- The moment at which a playback completes: all its notes are recorded and its callback has not
been called before, and it is finished and its callback has been called after. -/
structure Moment.Completes (moment : Moment) (owner e : Nat) (callback : Option Callback)
    (notes : List RecordedNote) : Prop where
  recorded : moment.before.notes e = some notes
  uncalled : moment.before.calls owner = 0
  unfinished : moment.before.finishedAt owner = false
  finished : moment.after.finishedAt owner = true
  called : moment.after.calls owner = if callback.isSome then 1 else 0

/-- A callback whose program makes no timers, where none wait, and records nothing on an engine. -/
def Callback.Rests (callback : Callback) (e : Nat) : Prop :=
  ∀ bound place s, s.timers = [] →
    let t := (Act.perform bound place callback.program s).2
    t.timers = [] ∧ t.notes e = s.notes e

namespace Stage
variable {plan : Plan} {score : Music} {e owner : Nat} {callback : Option Callback}
  {played waiting : List (Event × Nat)} {notes : List RecordedNote} {moments more : List Moment}
  {s t : Stage} {timer : Timer} {rest : List Timer} {time : Binary64} {bound deep : Nat}

/-! What holds once a playback has completed. -/

/-- A playback has completed in the course of some moments. -/
structure Over (owner e : Nat) (callback : Option Callback) (notes : List RecordedNote)
    (moments : List Moment) (s : Stage) : Prop where
  completes : ∃ moment ∈ moments, moment.Completes owner e callback notes
  settled : s.Settled owner
  ended : ∃ p, s.playbacks[owner]? = some p ∧ p.callback = callback ∧ p.notified = true
  rests : (∀ c ∈ callback, c.Rests e) → s.timers = [] ∧ s.notes e = some notes

namespace Over

theorem calls (past : Over owner e callback notes moments s) :
    s.calls owner = if callback.isSome then 1 else 0 := by
  obtain ⟨p, found, called, notified⟩ := past.ended
  rw [past.settled.called p found, notified, called, Bool.true_and]

theorem tick (past : Over owner e callback notes moments s) (time : Binary64) :
    Over owner e callback notes moments { s with clock := time } :=
  ⟨past.completes, past.settled.quiet ⟨rfl, rfl, fun _ => .rfl⟩, past.ended, past.rests⟩

theorem later (past : Over owner e callback notes moments s) (before : List Moment) :
    Over owner e callback notes (before ++ moments) s := by
  obtain ⟨moment, here, completes⟩ := past.completes
  exact ⟨⟨moment, List.mem_append_right _ here, completes⟩, past.settled, past.ended, past.rests⟩

theorem drain (past : Over owner e callback notes moments s) (deep : Nat) (time : Binary64)
    (bound : Nat) :
    Over owner e callback notes (moments ++ Act.drained (Act.perform deep) time bound s)
      (Act.drain (Act.perform deep) time bound s).2 := by
  have leads : Leads .due s (Act.drain (Act.perform deep) time bound s).2 :=
    Act.drain_walks (Performer.perform_lawful deep).walks time bound s
  obtain ⟨moment, here, completes⟩ := past.completes
  obtain ⟨p, found, called, notified⟩ := past.ended
  obtain ⟨q, later, aged⟩ := Changes.ages leads found
  refine ⟨⟨moment, List.mem_append_left _ here, completes⟩, past.settled.changes leads,
    ⟨q, later, aged.callback.trans called, aged.notified notified⟩, fun rests => ?_⟩
  obtain ⟨idle, recorded⟩ := past.rests rests
  have none : nextDue? time s.timers = none := by
    rw [idle]
    rfl
  rw [(Act.drain_idle (Act.perform deep) none bound).1]
  exact ⟨idle, recorded⟩

theorem advance (past : Over owner e callback notes moments s) (lapse : Number) :
    Over owner e callback notes (moments ++ s.moments (.advance lapse))
      (s.step (.advance lapse)).2 := by
  cases given : lapse.toReal with
  | error fault =>
    obtain ⟨idle, still⟩ := step_advance_error given
    rw [idle, still, List.append_nil]
    exact past
  | ok x =>
    obtain ⟨deep, _, moments, after⟩ := step_advance given
    rw [moments, after]
    exact (past.drain ..).tick _

theorem advanced (past : Over owner e callback notes moments s) (lapses : List Number) :
    Over owner e callback notes (moments ++ s.lived (lapses.map .advance)) (s.advanced lapses) := by
  induction lapses generalizing s moments with
  | nil => exact (List.append_nil moments).symm ▸ past
  | cons lapse rest ih =>
    rw [List.map_cons, lived, ← List.append_assoc]
    exact ih (past.advance lapse)

end Over

/-! What holds until then. -/

/-- A playback with the timers and its engine to itself: the units that are not played yet wait in
order, the completion waits behind them, and the engine has the notes of the others. -/
structure Poised (plan : Plan) (score : Music) (e : Nat) (callback : Option Callback)
    (played waiting : List (Event × Nat)) (s : Stage) : Prop where
  whole : played ++ waiting = score.zipIdx
  timers : s.timers = waiting.map plan.unit ++ [plan.last score]
  playback : ∃ p, s.playbacks[plan.owner]? = some p ∧ p.engine = some e ∧ p.callback = callback ∧
    p.notified = false
  engine : ∃ recorder, s.engines[e]? = some recorder ∧ recorder.origin = 0 ∧
    recorder.notes = played.flatMap fun cue => cue.1.notes plan.scale plan.tempo
  settled : s.Settled plan.owner

theorem Started.poised {engine : Option Nat} {recorder : Recorder}
    (started : Started plan engine callback score s t) (settled : t.Settled plan.owner)
    (idle : s.timers = []) (given : engine.getD s.engines.length = e)
    (there : (s.equipped engine).engines[e]? = some recorder) (origin : recorder.origin = 0)
    (fresh : recorder.notes = []) : Poised plan score e callback [] score.zipIdx t := by
  obtain ⟨pending, found⟩ := started.playback
  refine ⟨rfl, ?_, ⟨_, found, congrArg some given, rfl, rfl⟩, ⟨recorder, ?_, origin, fresh⟩,
    settled⟩
  · rw [started.timers, idle]
    rfl
  · rw [started.engines, there]

namespace Poised

theorem sublist (poised : Poised plan score e callback played waiting s) :
    s.timers.Sublist (plan.units score ++ [plan.last score]) := by
  rw [poised.timers, Plan.units, ← poised.whole, List.map_append, List.append_assoc]
  exact List.sublist_append_right _ _

theorem tick (poised : Poised plan score e callback played waiting s) (time : Binary64) :
    Poised plan score e callback played waiting { s with clock := time } :=
  ⟨poised.whole, poised.timers, poised.playback, poised.engine,
    poised.settled.quiet ⟨rfl, rfl, fun _ => .rfl⟩⟩

/-- A unit leaves the notes that it has in the score as a whole. -/
theorem plays {cue : Event × Nat} (poised : Poised plan score e callback played (cue :: waiting) s)
    (clock : plan.clock = 0) (playable : ∀ event ∈ score, event.Playable plan.scale plan.tempo)
    (perform : Performer) :
    ∃ t, Act.fire perform (plan.unit cue) s = (.ok (), t) ∧
      Poised plan score e callback (played ++ [cue]) waiting t := by
  obtain ⟨p, found, engine, called, live⟩ := poised.playback
  obtain ⟨recorder, there, origin, notes⟩ := poised.engine
  have member : cue ∈ score.zipIdx := poised.whole ▸ List.mem_append_right _ (by simp)
  have aged := (plan.aged score).sublist poised.sublist
  obtain ⟨t, fired, timers, playback, heard⟩ := Act.fire_unit clock found engine there origin
    (playable _ (List.fst_mem_of_mem_zipIdx member)).names perform
  have same : s.fired (plan.unit cue) = t := congrArg Prod.snd fired
  refine ⟨t, fired, ?_, timers.trans (taken_head aged poised.timers),
    ⟨_, playback, engine, called, live⟩, ⟨_, heard, origin, ?_⟩,
    same ▸ poised.settled.fires (plan.unit cue)⟩
  · rw [← poised.whole, List.append_assoc]
    rfl
  · rw [notes, List.flatMap_append, List.flatMap_singleton]

/-- The completion enters the callback on a stage on which the playback has ended. -/
theorem fire_last (poised : Poised plan score e callback played [] s) (perform : Performer) :
    ∃ entered, Act.fire perform (plan.last score) s =
        Act.enter perform s.announcements.length callback entered ∧
      entered.Settled plan.owner ∧ entered.timers = [] ∧ entered.engines = s.engines ∧
      ∃ p, entered.playbacks[plan.owner]? = some p ∧ p.callback = callback ∧
        p.notified = true := by
  obtain ⟨p, found, _, called, live⟩ := poised.playback
  let u := (s.taken (plan.last score)).noted [.ran plan.owner none]
  have here : u.playbacks[plan.owner]? = some p := found
  have done : u.completed plan.owner = u.ended plan.owner p := by
    rw [completed, here]
    exact if_neg (by simp [live])
  have fires : Act.fire perform (plan.last score) s =
      Act.enter perform s.announcements.length callback (u.ended plan.owner p) := by
    have fired : Act.fire perform (plan.last score) s = Act.complete perform plan.owner u := rfl
    rw [fired, Act.complete_apply, here, ← called]
    exact if_neg (by simp [live])
  have settled : (s.fired (plan.last score)).Settled plan.owner := poised.settled.fires _
  have same : s.fired (plan.last score) = u.ended plan.owner p := done
  refine ⟨_, fires, same ▸ settled, ?_, rfl, p.closed, by simp [here], called, rfl⟩
  exact taken_head ((plan.aged score).sublist poised.sublist) poised.timers

/-- The completion comes when all units are played. -/
theorem completes (poised : Poised plan score e callback played [] s) (deep : Nat) :
    let after := (Act.fire (Act.perform deep) (plan.last score) s).2
    Over plan.owner e callback (score.notes plan.scale plan.tempo)
      [⟨some (plan.last score), s, after⟩] after := by
  intro after
  obtain ⟨p, found, engine, _, live⟩ := poised.playback
  obtain ⟨recorder, there, _, notes⟩ := poised.engine
  obtain ⟨entered, fires, settled, idle, engines, q, ended, called, notified⟩ :=
    poised.fire_last (Act.perform deep)
  have left : after = (Act.enter (Act.perform deep) s.announcements.length callback entered).2 :=
    congrArg Prod.snd fires
  have recorded : s.notes e = some (score.notes plan.scale plan.tempo) := by
    have whole : played = score.zipIdx := by simpa using poised.whole
    rw [Stage.notes, there, Option.map_some, notes, whole, score.zipIdx_notes]
  have leads : Leads .any entered after := by
    rw [left]
    exact Act.enters_leads (Performer.perform_lawful deep).walks (Act.enter_enters ..)
  obtain ⟨r, later, aged⟩ := Changes.ages leads ended
  have after_settled : after.Settled plan.owner := settled.changes leads
  have past : r.notified = true := aged.notified notified
  have same : r.callback = callback := aged.callback.trans called
  refine ⟨⟨_, List.mem_singleton_self _, recorded, ?_, ?_, ?_, ?_⟩, after_settled,
    ⟨r, later, same, past⟩, fun rests => ?_⟩
  · simp [poised.settled.called p found, live]
  · simp [finishedAt, found, poised.settled.finished p found, live, engine]
  · simp [finishedAt, later, after_settled.finished r later, past]
  · simp [after_settled.called r later, past, same]
  · have heard : entered.notes e = some (score.notes plan.scale plan.tempo) := by
      rw [Stage.notes, engines]
      exact recorded
    rw [left]
    cases callback with
    | none => exact ⟨idle, heard⟩
    | some c =>
      obtain ⟨still, silent⟩ := rests c rfl deep s.announcements.length entered idle
      exact ⟨still, silent.trans heard⟩

/-- An advance plays what is due; the completion comes last. -/
theorem drains (poised : Poised plan score e callback played waiting s) (clock : plan.clock = 0)
    (playable : ∀ event ∈ score, event.Playable plan.scale plan.tempo)
    (ordered : score.Pairwise fun a b => a.comes plan.scale ≤ b.comes plan.scale) (deep : Nat)
    (time : Binary64) (enough : s.timers.length ≤ bound) :
    (∃ t played waiting, Act.drain (Act.perform deep) time bound s = (.ok (), t) ∧
      Poised plan score e callback played waiting t ∧ ∀ timer ∈ t.timers, ¬ timer.due ≤ time) ∨
    Over plan.owner e callback (score.notes plan.scale plan.tempo)
      (Act.drained (Act.perform deep) time bound s)
      (Act.drain (Act.perform deep) time bound s).2 := by
  induction bound generalizing s played waiting with
  | zero =>
    rw [poised.timers, List.length_append, List.length_singleton] at enough
    omega
  | succ bound ih =>
    cases next : nextDue? time s.timers with
    | none =>
      rw [(Act.drain_idle (Act.perform deep) next _).1]
      exact .inl ⟨s, played, waiting, rfl, poised, nextDue?_eq_none next⟩
    | some timer =>
      -- The queue is in order of time, so what is due first is its head.
      have sorted := (Plan.sorted clock playable ordered).sublist poised.sublist
      obtain ⟨rest, head⟩ := (nextDue?_first next).head_of_sorted sorted
      cases waiting with
      | nil =>
        obtain rfl : plan.last score = timer := by
          rw [poised.timers] at head
          exact (List.cons.inj head).1
        have past := poised.completes deep
        cases fires : (Act.fire (Act.perform deep) (plan.last score) s).1 with
        | error fault =>
          obtain ⟨drain, drained⟩ := Act.drain_error next fires bound
          rw [drain, drained]
          exact .inr past
        | ok =>
          obtain ⟨drain, drained⟩ := Act.drain_ok next fires bound
          rw [drain, drained]
          exact .inr (past.drain deep time bound)
      | cons cue waiting =>
        obtain rfl : plan.unit cue = timer := by
          rw [poised.timers] at head
          exact (List.cons.inj head).1
        obtain ⟨t, fired, after⟩ := poised.plays clock playable (Act.perform deep)
        obtain ⟨drain, drained⟩ := Act.drain_ok next (congrArg Prod.fst fired) bound
        have left : (Act.fire (Act.perform deep) (plan.unit cue) s).2 = t := congrArg Prod.snd fired
        have fewer : t.timers.length ≤ bound := by
          rw [poised.timers] at enough
          rw [after.timers]
          simpa using enough
        rw [drain, drained, left]
        rcases ih after fewer with waits | past
        · exact .inl waits
        · exact .inr (past.later [_])

theorem advances (poised : Poised plan score e callback played waiting s) (clock : plan.clock = 0)
    (playable : ∀ event ∈ score, event.Playable plan.scale plan.tempo)
    (ordered : score.Pairwise fun a b => a.comes plan.scale ≤ b.comes plan.scale)
    {lapse : Number} {x : Binary64} (real : lapse.toReal = .ok x) :
    let t := (s.step (.advance lapse)).2
    (∃ played waiting, Poised plan score e callback played waiting t ∧
      ∀ timer ∈ t.timers, ¬ timer.due ≤ t.clock) ∨
    Over plan.owner e callback (score.notes plan.scale plan.tempo) (s.moments (.advance lapse))
      t := by
  intro t
  obtain ⟨deep, enough, moments, after⟩ := step_advance (s := s) real
  have same : t = _ := after
  rw [moments, same]
  rcases poised.drains clock playable ordered (deep + 1) (s.clock + x) enough with
    ⟨u, played, waiting, drained, waits, done⟩ | past
  · rw [drained]
    exact .inl ⟨played, waiting, waits.tick _, done⟩
  · exact .inr (past.tick _)

/-- However time is split, nothing that is due waits after the last advance. -/
theorem advanced (poised : Poised plan score e callback played waiting s) (clock : plan.clock = 0)
    (playable : ∀ event ∈ score, event.Playable plan.scale plan.tempo)
    (ordered : score.Pairwise fun a b => a.comes plan.scale ≤ b.comes plan.scale)
    {lapses : List Number} (reals : ∀ lapse ∈ lapses, ∃ x, lapse.toReal = .ok x)
    (nonempty : lapses ≠ []) :
    (∃ played waiting, Poised plan score e callback played waiting (s.advanced lapses) ∧
      ∀ timer ∈ (s.advanced lapses).timers, ¬ timer.due ≤ (s.advanced lapses).clock) ∨
    Over plan.owner e callback (score.notes plan.scale plan.tempo)
      (s.lived (lapses.map .advance)) (s.advanced lapses) := by
  induction lapses generalizing s played waiting with
  | nil => exact absurd rfl nonempty
  | cons lapse rest ih =>
    obtain ⟨⟨x, real⟩, others⟩ := List.forall_mem_cons.mp reals
    have first := poised.advances clock playable ordered real
    rw [List.map_cons, lived, Stage.advanced, List.foldl_cons]
    generalize (s.step (.advance lapse)).2 = t at first ⊢
    rcases first with ⟨played, waiting, waits, done⟩ | past
    · cases rest with
      | nil => exact .inl ⟨played, waiting, waits, done⟩
      | cons next rest =>
        rcases ih waits others (by simp) with waits | past
        · exact .inl waits
        · exact .inr (past.later _)
    · exact .inr (past.advanced rest)

/-- When the clock has reached the length of the score the playback has completed. -/
theorem reaches_end (poised : Poised plan score e callback played waiting s)
    (clock : plan.clock = 0) (reached : score.lasts plan.scale plan.tempo ≤ s.clock) :
    ∃ timer ∈ s.timers, timer.due ≤ s.clock := by
  refine ⟨plan.last score, poised.timers ▸ List.mem_append_right _ (List.mem_singleton_self _), ?_⟩
  rw [Plan.last_due, clock]
  exact Binary64.le_trans (Binary64.zero_add_le (Binary64.le_self_left reached)) reached

end Poised

/-- An aural object whose pitches have names and that is played from the time zero of an engine
without notes, however time advances to its end, leaves its pitches there one after the other and
then all together, all moved by one number of semitones. By then its callback has been called, once
and after all of them, and if the callback leaves the engine alone no more notes follow. -/
theorem play_performs {facility : Facility} {engine : Option Nat} {recorder : Recorder}
    {request : Aural.Request} {values : Aural.Options.Values} {options : Aural.Options}
    {degrees : List Int} {seconds : Binary64}
    (waits : facility = .queueing ∨ facility = .stubborn) (run : Reaches .any .initial s)
    (clock : s.clock = 0) (idle : s.timers = [])
    (there : (s.equipped engine).engines[engine.getD s.engines.length]? = some recorder)
    (origin : recorder.origin = 0) (fresh : recorder.notes = [])
    (checked : values.check = .ok options) (found : request.resolve = .ok degrees)
    (nonempty : degrees ≠ [])
    (lasts : options.unitLength.toSeconds degrees.length = .ok seconds)
    (finite : ∀ i ≤ degrees.length, (Binary64.ofInt i * seconds).isFinite) {chance : Chance}
    (within : options.Within degrees (options.transposition.resolve chance).1)
    (callback : Option Callback) (perform : Performer) :
    ∃ root t p, Pitch.numberOf options.root = .ok root ∧
      Act.play perform facility engine callback request options chance s =
        (.ok (s.playbacks.length, (options.transposition.resolve chance).2.draws), t) ∧
      t.playbacks[s.playbacks.length]? = some p ∧
      ∀ lapses : List Number, (∀ lapse ∈ lapses, ∃ x, lapse.toReal = .ok x) → lapses ≠ [] →
        p.length ≤ (t.advanced lapses).clock →
        let e := engine.getD s.engines.length
        let shift := (options.transposition.resolve chance).1
        let notes := Aural.performance options (degrees.map (root + shift + ·)) seconds
        (∃ moment ∈ t.lived (lapses.map .advance),
          moment.Completes s.playbacks.length e callback notes) ∧
        (t.advanced lapses).calls s.playbacks.length = (if callback.isSome then 1 else 0) ∧
        ((∀ c ∈ callback, c.Rests e) → (t.advanced lapses).notes e = some notes) := by
  have later : facility ≠ .immediate := by rcases waits with rfl | rfl <;> decide
  have present : facility ≠ .absent := by rcases waits with rfl | rfl <;> decide
  obtain ⟨root, named⟩ := (Aural.Options.checked_of_check checked).root
  have unsigned := Aural.unsigned_seconds (Aural.Options.checked_of_check checked) lasts
  let pitches := degrees.map (root + (options.transposition.resolve chance).1 + ·)
  let score := Aural.units seconds (Aural.sounds options pitches)
  have built : Aural.score degrees options chance =
      .ok (score, (options.transposition.resolve chance).2) :=
    (Aural.score_eq nonempty options chance).trans (Aural.shifted_eq named within lasts _)
  have nameable : ∀ n ∈ pitches, Pitch.Nameable n := List.forall_mem_map.mpr (within root named)
  have size : pitches.length = degrees.length := List.length_map ..
  have times : ∀ i ≤ pitches.length, (Binary64.ofInt i * seconds).isFinite := size ▸ finite
  have long : seconds.isFinite :=
    (Binary64.isFinite_of_mul (finite 1 (List.length_pos_iff.mpr nonempty))).2
  have playable : ∀ event ∈ score, event.Playable 1 Duration.referenceTempo :=
    Aural.units_playable unsigned long nameable times
  have ordered : score.Pairwise fun a b => a.comes 1 ≤ b.comes 1 :=
    Aural.units_ordered unsigned fun i inside => times i <| by
      have most := Aural.sounds_length options pitches
      omega
  have notes := Aural.notes_units unsigned options nameable
  obtain ⟨t, schedules, started⟩ := Act.schedule_started later present
    Duration.tempoScale_reference playable engine callback s
  have reached : Reaches .any .initial t := by
    have ran := run.schedule Performer.idle_lawful facility engine callback score
      Duration.referenceTempo
    rwa [schedules] at ran
  obtain ⟨pending, playback⟩ := started.playback
  refine ⟨root, t, _, named, ?_, playback, fun lapses reals some reaches => ?_⟩
  · obtain ⟨degree, rest, rfl⟩ := List.exists_cons_of_ne_nil nonempty
    rw [Act.play_scored found built, Act.bind_of_ok (schedules perform)]
    rfl
  · have poised := started.poised (.of_run reached _) idle rfl there origin fresh
    rcases poised.advanced clock playable ordered reals some with
      ⟨played, waiting, waits, done⟩ | past
    · obtain ⟨timer, here, due⟩ := waits.reaches_end clock reaches
      exact absurd due (done timer here)
    · have recorded : score.notes (s.plan facility 1 Duration.referenceTempo).scale
          (s.plan facility 1 Duration.referenceTempo).tempo =
          Aural.performance options pitches seconds := notes
      rw [recorded] at past
      exact ⟨past.completes, past.calls, fun rests => (past.rests rests).2⟩

/-- Two pitches a third apart, moved by chance, on an engine of their own; the callback fails. -/
theorem play_performs_third :
    let options : Aural.Options := ⟨"Bb3", .random, true, true, .seconds (.real 0.5)⟩
    let request : Aural.Request := .degrees [.number (.whole 0), .number (.whole (-4))]
    let t := (Act.play .idle .queueing none (some ⟨"p", [.raise "over"]⟩) request options
      (.ofList [14]) initial).2.advanced [.real 0.75, .whole 1]
    t.calls 0 = 1 ∧ t.notes 0 = some (Aural.performance options [55, 51] 0.5) := by
  intro options request t
  let values : Aural.Options.Values :=
    ⟨"Bb3", .text "random", true, true, .number (.real 0.5)⟩
  have named : Pitch.numberOf "Bb3" = .ok 58 := eq_ok_of_toOption (by decide +kernel)
  have positive : Number.isPositiveOrNaN (.real 0.5) = true := by decide +kernel
  have checked : values.check = .ok options :=
    Aural.Options.Values.check_eq named rfl (Aural.Options.unitLengthOf_number positive)
  have found : request.resolve = .ok [0, -4] := rfl
  have lasts : options.unitLength.toSeconds [0, -4].length = .ok 0.5 := rfl
  have finite : ∀ i ≤ [0, -4].length, (Binary64.ofInt i * 0.5).isFinite := by decide +kernel
  have within : options.Within [0, -4] (options.transposition.resolve (.ofList [14])).1 :=
    Aural.Options.within_of_named named (by decide)
  have rests : ∀ c ∈ some (⟨"p", [.raise "over"]⟩ : Callback), c.Rests 0 := by
    rintro c ⟨⟩ bound place u idle
    cases bound <;> exact ⟨idle, rfl⟩
  have one : ∃ x, (.whole 1 : Number).toReal = .ok x := by
    have real : (Number.toReal (.whole 1)).toOption.isSome = true := by decide +kernel
    obtain ⟨x, real⟩ := Option.isSome_iff_exists.mp real
    exact ⟨x, eq_ok_of_toOption real⟩
  have reals : ∀ lapse ∈ ([.real 0.75, .whole 1] : List Number), ∃ x, lapse.toReal = .ok x :=
    List.forall_mem_cons.mpr ⟨⟨_, rfl⟩, List.forall_mem_singleton.mpr one⟩
  have made : (initial.equipped none).engines[0]? = some (.standard 0) := by
    simp [equipped, initial]
  obtain ⟨root, u, p, known, plays, playback, performs⟩ :=
    play_performs (.inl rfl) (.refl initial) rfl rfl made rfl rfl checked found (by simp) lasts
      finite within (some ⟨"p", [.raise "over"]⟩) .idle
  obtain rfl : 58 = root := Except.ok.inj (named.symm.trans known)
  have played : u = (Act.play .idle .queueing none (some ⟨"p", [.raise "over"]⟩) request options
    (.ofList [14]) initial).2 := (congrArg Prod.snd plays).symm
  have same : u.advanced [.real 0.75, .whole 1] = t := by rw [played]
  have reached : u.playbacks[0]?.any (fun p => decide (p.length ≤ t.clock)) = true := by
    rw [played]
    unfold t request options
    decide +kernel
  have known : u.playbacks[0]? = some p := playback
  rw [known, Option.any_some, decide_eq_true_eq] at reached
  obtain ⟨_, calls, notes⟩ := performs _ reals (by simp) (same.symm ▸ reached)
  rw [same] at calls notes
  exact ⟨calls, notes rests⟩

/-- An octave above the highest C that has a name is not played, although its root and all its times
are in order. -/
theorem play_unspelled :
    let values : Aural.Options.Values :=
      ⟨Pitch.highestC, .number (.whole 0), true, true, .number (.real 0.5)⟩
    let options : Aural.Options :=
      ⟨Pitch.highestC, .semitones 0, true, true, .seconds (.real 0.5)⟩
    values.check = .ok options ∧ (∀ i ≤ [12].length, (Binary64.ofInt i * 0.5).isFinite) ∧
      Act.play .idle .queueing none none (.degrees [.number (.whole 12)]) options (.ofList [])
        initial = (.error (.tooManyDigits none), initial) := by
  intro values options
  have named : Pitch.numberOf options.root = .ok (12 * 10 ^ Numeral.digitLimit) :=
    Pitch.numberOf_highestC
  have positive : Number.isPositiveOrNaN (.real 0.5) = true := by decide +kernel
  have checked : values.check = .ok options :=
    Aural.Options.Values.check_eq named rfl (Aural.Options.unitLengthOf_number positive)
  have beyond : ¬ options.Within [12] 0 := Aural.Options.not_within_highestC rfl
  have unscored : Aural.score [12] options (.ofList []) = .error (.tooManyDigits none) :=
    (Aural.score_eq (by decide) ..).trans (Aural.shifted_beyond beyond _)
  have found : (Aural.Request.degrees [.number (.whole 12)]).resolve = .ok [12] := rfl
  refine ⟨checked, by decide +kernel, ?_⟩
  rw [Act.play, found, Act.ofExcept_bind_ok, unscored]
  rfl

end Stage
end Solfege
