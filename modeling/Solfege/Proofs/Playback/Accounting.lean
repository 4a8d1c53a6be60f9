import Solfege.Proofs.Playback.Making

/-! What a stop accounts for. A playback that is not over keeps the numbers of its timers that have
not run. It also keeps those of the units that ran inside the calls that made their timers: a unit
that runs gives up its number, but one that runs at once has none yet, and is given it afterwards.
So a stop counts these along with the timers that it finds waiting. -/
namespace Solfege

namespace Plan
variable {plan : Plan} {score : Music} {cues : List (Event × Nat)} {cue : Event × Nat}

/-- The timers of some units of a score and of its completion. -/
def timers (plan : Plan) (score : Music) (cues : List (Event × Nat)) : List Timer :=
  cues.map plan.unit ++ [plan.last score]

/-- The timer of a unit has its number alone. -/
theorem timers_others (inside : cue.2 < score.length) :
    (plan.timers score cues).filter (·.id ≠ (plan.unit cue).id) =
      plan.timers score (cues.filter (·.2 ≠ cue.2)) := by
  have last : score.length ≠ cue.2 := by omega
  rw [timers, List.filter_append, List.filter_map, timers]
  congr 1
  · congr 1
    apply List.filter_congr
    intro other _
    simp
  · simp [last]

theorem ids_others (inside : cue.2 < score.length) :
    ((plan.timers score cues).map Timer.id).filter (fun id => some id ≠ some (plan.unit cue).id) =
      (plan.timers score (cues.filter (·.2 ≠ cue.2))).map Timer.id := by
  rw [← timers_others inside, List.filter_map]
  congr 1
  apply List.filter_congr
  intro timer _
  simp

end Plan

namespace Stage
variable {order : Order} {plan : Plan} {facility : Facility} {score : Music} {n i : Nat}
  {s t u : Stage} {p : Playback} {timer : Timer} {cue : Event × Nat}

/-- The units of a playback that have not run. -/
def unheard (s : Stage) (i : Nat) (score : Music) : List (Event × Nat) :=
  score.zipIdx.filter fun cue => Heard.unit cue.2 ∉ s.heard i

/-- The units of a playback whose numbers are kept. -/
def pendingUnits (s : Stage) (plan : Plan) (facility : Facility) (score : Music) :
    List (Event × Nat) :=
  score.zipIdx.filter fun cue => plan.Hasty facility cue ∨ Heard.unit cue.2 ∉ s.heard plan.owner

/-- A playback that has been announced to be over. -/
def Closed (s : Stage) (i : Nat) : Prop := ∃ p, s.playbacks[i]? = some p ∧ p.notified = true

/-- What is still to come of a playback that is not over, and what it keeps. -/
structure Awaits (plan : Plan) (facility : Facility) (score : Music) (s : Stage) : Prop where
  timers : s.timersOf plan.owner = plan.timers score (s.unheard plan.owner score)
  hasty : ∀ cue ∈ score.zipIdx, plan.Hasty facility cue → Heard.unit cue.2 ∈ s.heard plan.owner
  completion : Heard.completion ∉ s.heard plan.owner
  playback : ∃ p, s.playbacks[plan.owner]? = some p ∧ p.notified = false ∧
    p.pending = (plan.timers score (s.pendingUnits plan facility score)).map Timer.id

/-- A playback that is not over and was there before is left as it is, unless a timer of its own
runs or it is stopped. -/
theorem Change.keeps (old : i < n) (found : s.playbacks[i]? = some p) (live : p.notified = false)
    (change : Change order n s t) :
    t.playbacks[i]? = some p ∨
    (∃ timer, order.Allows s.timers timer ∧ timer.owner = i ∧ t = s.fired timer) ∨
    t = s.stopped i := by
  have other {j : Nat} {alter : Playback → Playback} (different : j ≠ i) :
      (s.playbacks.modify j alter)[i]? = some p := by
    simp [different, found]
  have completed {u : Stage} {j : Nat} (different : j ≠ i) (same : u.playbacks = s.playbacks) :
      (u.completed j).playbacks[i]? = some p := by
    rcases completed_cases u j with none | ⟨q, _, _, ends⟩
    · rw [none, same, found]
    · rw [ends, ended_playbacks, same, other different]
  cases change with
  | aside aside => exact .inl (by rw [aside.playbacks, found])
  | join q =>
    have bound := (List.getElem?_eq_some_iff.mp found).1
    exact .inl (by simpa [List.getElem?_append_left bound] using found)
  | wait timer new => exact .inl (other (by omega))
  | sound owner index event seconds =>
    exact .inl (by rw [Tracks.sounded_none]; exact found)
  | soundKept owner index event seconds new =>
    refine .inl ?_
    rw [kept_playbacks, Tracks.sounded_none]
    exact other (by omega)
  | complete owner new => exact .inl (completed (by omega) rfl)
  | keep owner id there done =>
    refine .inl (other ?_)
    rintro rfl
    cases found.symm.trans there
    rw [done] at live
    cases live
  | fire timer allowed =>
    by_cases mine : timer.owner = i
    · exact .inr (.inl ⟨timer, allowed, mine, rfl⟩)
    · refine .inl ?_
      rcases fired_cases s timer with ⟨index, event, seconds, same⟩ | same
      · rw [same, sounded_playbacks]
        exact other mine
      · rw [same]
        exact completed mine rfl
  | stop j =>
    by_cases mine : j = i
    · exact .inr (.inr (by rw [mine]))
    · refine .inl ?_
      rcases stopped_cases s j with same | same | ⟨q, _, _, same⟩
      · rw [same, found]
      · rw [same]
        exact found
      · rw [same, ended_playbacks]
        exact other mine

namespace Awaits

/-- Whatever leaves a playback and its timers alone and is not about it changes nothing. -/
theorem spared (awaits : s.Awaits plan facility score) (spares : Spares plan.owner s t)
    (same : t.playbacks[plan.owner]? = s.playbacks[plan.owner]?) :
    t.Awaits plan facility score := by
  have unheard : t.unheard plan.owner score = s.unheard plan.owner score := by
    rw [Stage.unheard, spares.heard, Stage.unheard]
  have pending : t.pendingUnits plan facility score = s.pendingUnits plan facility score := by
    rw [pendingUnits, spares.heard, pendingUnits]
  refine ⟨?_, ?_, ?_, ?_⟩
  · rw [spares.timers, unheard, awaits.timers]
  · rw [spares.heard]
    exact awaits.hasty
  · rw [spares.heard]
    exact awaits.completion
  · rw [same, pending]
    exact awaits.playback

theorem cases (awaits : s.Awaits plan facility score) (waits : timer ∈ s.timers)
    (mine : timer.owner = plan.owner) :
    (∃ cue ∈ s.unheard plan.owner score, timer = plan.unit cue) ∨ timer = plan.last score := by
  have here := mem_timersOf.mpr ⟨waits, mine⟩
  rw [awaits.timers] at here
  exact Plan.cases here

/-- A unit that has waited gives up its number when it runs. -/
theorem plays (awaits : s.Awaits plan facility score) (here : cue ∈ s.unheard plan.owner score) :
    (s.fired (plan.unit cue)).Awaits plan facility score := by
  obtain ⟨inside, silent⟩ := List.mem_filter.mp here
  have silent : Heard.unit cue.2 ∉ s.heard plan.owner := of_decide_eq_true silent
  have place : cue.2 < score.length := by simpa using (List.mem_zipIdx inside).2.1
  obtain ⟨units, completion⟩ := sounded_heard (s.taken (plan.unit cue)) plan.owner cue.2
    (some (plan.unit cue).id) cue.1 (cue.1.lasts plan.tempo)
  have heard (k : Nat) : Heard.unit k ∈ (s.fired (plan.unit cue)).heard plan.owner ↔
      Heard.unit k ∈ s.heard plan.owner ∨ k = cue.2 := units k
  have unheard : (s.fired (plan.unit cue)).unheard plan.owner score =
      (s.unheard plan.owner score).filter (·.2 ≠ cue.2) := by
    rw [Stage.unheard, Stage.unheard, List.filter_filter]
    apply List.filter_congr
    intro other _
    simp [heard, and_comm]
  have pending : (s.fired (plan.unit cue)).pendingUnits plan facility score =
      (s.pendingUnits plan facility score).filter (·.2 ≠ cue.2) := by
    rw [pendingUnits, pendingUnits, List.filter_filter]
    apply List.filter_congr
    intro other there
    -- A unit that ran inside its own call is another one, since that has been heard.
    have apart : plan.Hasty facility other → other.2 ≠ cue.2 := fun hasty same =>
      silent (same ▸ awaits.hasty other there hasty)
    by_cases hasty : plan.Hasty facility other
    · simp [hasty, apart hasty]
    · simp [hasty, heard, and_comm]
  obtain ⟨p, found, live, keeps⟩ := awaits.playback
  refine ⟨?_, fun other there hasty => (heard other.2).mpr (.inl (awaits.hasty other there hasty)),
    fun ended => awaits.completion (completion.mp ended),
    p.forget (some (plan.unit cue).id), ?_, live, ?_⟩
  · rw [fired_timers, awaits.timers, Plan.timers_others place, unheard]
  · have playbacks : (s.fired (plan.unit cue)).playbacks =
        s.playbacks.modify plan.owner (·.forget (some (plan.unit cue).id)) := sounded_playbacks
    rw [playbacks, List.getElem?_modify_eq, found]
    rfl
  · rw [Playback.forget_pending, keeps, Plan.ids_others place, pending]

/-- A timer of the playback that runs plays a unit or ends the playback. -/
theorem fires (awaits : s.Awaits plan facility score) (waits : timer ∈ s.timers)
    (mine : timer.owner = plan.owner) :
    (s.fired timer).Awaits plan facility score ∨ (s.fired timer).Closed plan.owner := by
  rcases awaits.cases waits mine with ⟨cue, here, rfl⟩ | rfl
  · exact .inl (awaits.plays here)
  · obtain ⟨p, found, _⟩ := awaits.playback
    have there := (List.getElem?_eq_some_iff.mp found).1
    exact .inr (Act.completed_over ((s.taken (plan.last score)).noted [.ran plan.owner none]) there)

theorem change (awaits : s.Awaits plan facility score) (tracks : s.Tracks) (old : plan.owner < n)
    (change : Change order n s t) : t.Awaits plan facility score ∨ t.Closed plan.owner := by
  obtain ⟨p, found, live, _⟩ := awaits.playback
  rcases change.keeps old found live with same | ⟨timer, allowed, mine, rfl⟩ | rfl
  · rcases change.spares tracks (.inl old) with
      spares | ⟨timer, allowed, mine, rfl⟩ | ⟨_, _, _, rfl⟩
    · exact .inl (awaits.spared spares (same.trans found.symm))
    · exact awaits.fires allowed.waits mine
    · exact .inr (stopped_over found)
  · exact awaits.fires allowed.waits mine
  · exact .inr (stopped_over found)

theorem changes (awaits : s.Awaits plan facility score) (tracks : s.Tracks) (old : plan.owner < n)
    (changes : Changes order n s t) : t.Awaits plan facility score ∨ t.Closed plan.owner := by
  induction changes with
  | refl => exact .inl awaits
  | tail before change ih =>
    rcases ih with awaits | ⟨p, found, done⟩
    · exact awaits.change (tracks.changes before) old change
    · obtain ⟨q, later, aged⟩ := change.ages found
      exact .inr ⟨q, later, aged.notified done⟩

/-- The units whose numbers are kept have not run, or ran at once. -/
theorem pendingUnits_perm (awaits : s.Awaits plan facility score) :
    (s.pendingUnits plan facility score).Perm
      (s.unheard plan.owner score ++ plan.hasty facility score) := by
  let silent (cue : Event × Nat) : Bool := Heard.unit cue.2 ∉ s.heard plan.owner
  have unheard : (s.pendingUnits plan facility score).filter silent =
      s.unheard plan.owner score := by
    rw [pendingUnits, List.filter_filter, Stage.unheard]
    apply List.filter_congr
    intro cue _
    by_cases heard : Heard.unit cue.2 ∈ s.heard plan.owner <;> simp [silent, heard]
  have hasty : (s.pendingUnits plan facility score).filter (fun cue => !silent cue) =
      plan.hasty facility score := by
    rw [pendingUnits, List.filter_filter, Plan.hasty]
    apply List.filter_congr
    intro cue inside
    by_cases hasty : plan.Hasty facility cue
    · simp [silent, hasty, awaits.hasty cue inside hasty]
    · simp [silent, hasty]
  have parts := List.filter_append_perm silent (s.pendingUnits plan facility score)
  rw [unheard, hasty] at parts
  exact parts.symm

end Awaits

/-- Where the completion waits too, all of a playback is awaited but the units that ran at once. -/
theorem Made.awaits (made : Made plan facility score.zipIdx s t)
    (idle : s.timersOf plan.owner = []) (silent : s.heard plan.owner = [])
    (found : s.playbacks[plan.owner]? = some p) (fresh : p.Fresh) :
    (t.waiting (plan.last score)).Awaits plan facility score := by
  have heard : (t.waiting (plan.last score)).heard plan.owner = t.heard plan.owner := rfl
  have ran : ∀ cue ∈ score.zipIdx,
      (Heard.unit cue.2 ∈ t.heard plan.owner ↔ plan.Hasty facility cue) := by
    intro cue inside
    rw [made.units, silent]
    constructor
    · rintro (none | ⟨other, there, hasty, same⟩)
      · cases none
      · have here := List.mem_zipIdx_iff_getElem?.mp inside
        have there := List.mem_zipIdx_iff_getElem?.mp there
        rw [same, there] at here
        have equal : other = cue := Prod.ext (Option.some.inj here) same.symm
        exact equal ▸ hasty
    · exact fun hasty => .inr ⟨cue, inside, hasty, rfl⟩
  have unheard : (t.waiting (plan.last score)).unheard plan.owner score =
      score.zipIdx.filter fun cue => ¬ plan.Hasty facility cue := by
    rw [Stage.unheard, heard]
    apply List.filter_congr
    intro cue inside
    simp [ran cue inside]
  have pending : (t.waiting (plan.last score)).pendingUnits plan facility score =
      score.zipIdx := by
    rw [pendingUnits, heard]
    apply List.filter_eq_self.mpr
    intro cue inside
    simp [ran cue inside, Decidable.em]
  have mine (cues : List (Event × Nat)) : (plan.timers score cues).filter
      (·.owner = plan.owner) = plan.timers score cues := by
    apply List.filter_eq_self.mpr
    intro timer here
    exact decide_eq_true (plan.owned score cues timer here).1
  refine ⟨?_, fun cue inside hasty => heard ▸ (ran cue inside).mpr hasty, ?_,
    { p with pending := p.pending ++ (score.zipIdx.map plan.unit).map Timer.id ++
      [(plan.last score).id] }, ?_, fresh.notified, ?_⟩
  · rw [timersOf, waiting_timers, made.timers, List.append_assoc, ← Plan.timers,
      List.filter_append, mine, ← timersOf, idle, unheard, List.nil_append]
  · rw [heard, made.completion, silent]
    exact List.not_mem_nil
  · rw [waiting_playbacks, Plan.last_owner, List.getElem?_modify_eq, made.playback p found]
    rfl
  · rw [pending, fresh.pending]
    simp [Plan.timers]

/-- Nothing is there yet of the next playback. -/
theorem next_silent (run : Reaches order .initial s) :
    s.timersOf s.playbacks.length = [] ∧ s.heard s.playbacks.length = [] := by
  have before := run.leads.spares .initial (Nat.le_refl s.playbacks.length)
  exact ⟨before.timers.trans (by simp [timersOf, initial]),
    before.heard.trans (by simp [heard, initial])⟩

end Stage

namespace Act
variable {order : Order} {perform : Performer} {facility : Facility} {engine : Option Nat}
  {callback : Option Callback} {score : Music} {tempo : Number} {delay : Binary64} {i : Nat}
  {s t u : Stage}

/-- A completion that runs at once ends its playback before its number is kept. -/
theorem track_closes (lawful : perform.Lawful order) (there : i < s.playbacks.length)
    (now : facility = .immediate ∧ delay ≤ 0)
    (tracked : track perform facility i delay .completion s = (.ok (), t)) : t.Closed i := by
  rw [track_runs now] at tracked
  obtain ⟨_, u, ran, kept⟩ := of_bind_ok tracked
  obtain ⟨_, p, found, done⟩ :=
    completion_changes lawful.walks (Nat.le_refl i) there (congrArg Prod.snd ran)
  have last : u.kept i s.nextTimer = t := congrArg Prod.snd kept
  have found : u.playbacks[i]? = some p := found
  refine ⟨p.keep s.nextTimer, ?_, done⟩
  rw [← last]
  simp [found]

/-- A playback that has been started is still to be played, apart from the units that ran at once,
or it is over already. -/
theorem schedule_awaits (run : Stage.Reaches order .initial s) (lawful : perform.Lawful order)
    (started : schedule perform facility engine callback score tempo s = (.ok i, t)) :
    i = s.playbacks.length ∧ ∃ scale, Duration.tempoScale tempo = .ok scale ∧
      (t.Awaits (s.plan facility scale tempo) facility score ∨ t.Closed i) := by
  obtain ⟨⟨owner, length⟩, u, prepared, started⟩ := of_bind_ok started
  obtain ⟨_, v, tracked, recorded⟩ := of_bind_ok started
  obtain ⟨rfl, scale, scaled, rfl, made⟩ := prepare_made prepared
  obtain ⟨owner, last⟩ := Prod.mk.inj recorded
  cases owner
  let plan := s.plan facility scale tempo
  let fresh : Playback := .started (score.lasts scale tempo) (engine.getD s.engines.length) callback
  let joined := (s.equipped engine).joined fresh
  have found : joined.playbacks[plan.owner]? = some fresh := by
    cases engine <;> simp [joined, Stage.equipped, plan, Stage.plan]
  have told : v.noted [.scheduled score.length (score.lasts scale tempo)] = t := last
  refine ⟨rfl, scale, scaled, ?_⟩
  rw [← told]
  by_cases now : facility = .immediate ∧ score.lasts scale tempo ≤ 0
  · have there := (List.getElem?_eq_some_iff.mp (made.playback fresh found)).1
    have closed : v.Closed s.playbacks.length := track_closes lawful there now tracked
    exact .inr closed
  · have clock : joined.clock = s.clock := by cases engine <;> rfl
    have next : joined.nextTimer = s.nextTimer := by cases engine <;> rfl
    have same : joined.timersOf plan.owner = s.timersOf plan.owner ∧
        joined.heard plan.owner = s.heard plan.owner := by
      cases engine <;> exact ⟨rfl, rfl⟩
    obtain ⟨idle, silent⟩ := Stage.next_silent run
    rw [track_waits now, made.clock, made.nextTimer, clock, next, List.length_zipIdx] at tracked
    have waits : u.waiting (plan.last score) = v := congrArg Prod.snd tracked
    have awaits :=
      made.awaits (same.1.trans idle) (same.2.trans silent) found ⟨rfl, rfl, rfl⟩
    rw [waits] at awaits
    exact .inl (awaits.spared (.noted v (by simp [Happening.about?])) rfl)

/-- As long as a playback that has been started is not over it is still to be played, apart from the
units that have run. -/
theorem schedule_awaits_later (run : Stage.Reaches order .initial s)
    (lawful : perform.Lawful order)
    (started : schedule perform facility engine callback score tempo s = (.ok i, t))
    (later : Stage.Reaches order t u) :
    i = s.playbacks.length ∧ ∃ scale, Duration.tempoScale tempo = .ok scale ∧
      (u.Awaits (s.plan facility scale tempo) facility score ∨ u.Closed i) := by
  have reached := run.schedule lawful facility engine callback score tempo
  rw [started] at reached
  obtain ⟨rfl, scale, scaled, awaits | ⟨p, found, done⟩⟩ := schedule_awaits run lawful started
  · obtain ⟨p, found, _⟩ := awaits.playback
    have old := (List.getElem?_eq_some_iff.mp found).1
    exact ⟨rfl, scale, scaled, awaits.changes (.of_run reached) old later.leads⟩
  · obtain ⟨q, found, aged⟩ := Stage.Changes.ages later.leads found
    exact ⟨rfl, scale, scaled, .inr ⟨q, found, aged.notified done⟩⟩

end Act

namespace Stage
variable {perform code : Performer} {facility : Facility} {engine : Option Nat}
  {callback : Option Callback} {plan : Plan} {score : Music} {tempo : Number} {i : Nat}
  {s t u : Stage} {p : Playback}

namespace Awaits

theorem pending_eq (awaits : s.Awaits plan facility score)
    (found : s.playbacks[plan.owner]? = some p) :
    p.pending = (plan.timers score (s.pendingUnits plan facility score)).map Timer.id := by
  obtain ⟨q, again, _, keeps⟩ := awaits.playback
  cases found.symm.trans again
  exact keeps

/-- What is kept are the numbers of the timers that wait, and of those that ran at once. -/
theorem pending_perm (awaits : s.Awaits plan facility score)
    (found : s.playbacks[plan.owner]? = some p) :
    p.pending.Perm ((plan.timers score (s.unheard plan.owner score ++
      plan.hasty facility score)).map Timer.id) := by
  rw [awaits.pending_eq found]
  exact ((awaits.pendingUnits_perm.map plan.unit).append_right [plan.last score]).map Timer.id

theorem pending_aged (awaits : s.Awaits plan facility score)
    (found : s.playbacks[plan.owner]? = some p) : p.pending.Pairwise (· < ·) := by
  have fewer : (plan.timers score (s.pendingUnits plan facility score)).Sublist
      (plan.units score ++ [plan.last score]) :=
    (List.filter_sublist.map plan.unit).append_right [plan.last score]
  rw [awaits.pending_eq found]
  exact List.pairwise_map.mpr ((plan.aged score).sublist fewer)

theorem pending_length (awaits : s.Awaits plan facility score)
    (found : s.playbacks[plan.owner]? = some p) :
    p.pending.length =
      (s.unheard plan.owner score).length + (plan.hasty facility score).length + 1 := by
  rw [(awaits.pending_perm found).length_eq]
  simp [Plan.timers, Nat.add_assoc]

/-- The numbers that are kept are those of the timers that wait just when no unit ran at once. -/
theorem pending_eq_iff (awaits : s.Awaits plan facility score)
    (found : s.playbacks[plan.owner]? = some p) :
    p.pending = (s.timersOf plan.owner).map Timer.id ↔ plan.hasty facility score = [] := by
  constructor
  · intro same
    have kept := awaits.pending_length found
    rw [same, awaits.timers] at kept
    simp only [Plan.timers, List.length_map, List.length_append, List.length_singleton] at kept
    exact List.eq_nil_of_length_eq_zero (by omega)
  · intro none
    have pending : s.pendingUnits plan facility score = s.unheard plan.owner score := by
      rw [pendingUnits, Stage.unheard]
      apply List.filter_congr
      intro cue inside
      have patient := List.filter_eq_nil_iff.mp none cue inside
      simp only [decide_eq_true_eq] at patient
      simp [patient]
    rw [awaits.pending_eq found, awaits.timers, pending]

end Awaits

/-- What a playback that is not over keeps, in order, are the numbers of its timers that wait and of
those that ran at once. So it keeps just its waiting timers where none did. A stop cancels all its
waiting timers and no others, but tells of those that ran at once along with them. -/
theorem stop_accounts (run : Reaches .any .initial s) (lawful : perform.Lawful .any)
    (started : Act.schedule perform facility engine callback score tempo s = (.ok i, t))
    (later : Reaches .any t u) (found : u.playbacks[i]? = some p)
    (unfinished : p.finished = false) :
    ∃ scale, Duration.tempoScale tempo = .ok scale ∧
      let plan := s.plan facility scale tempo
      let unheard := u.unheard i score
      let hasty := plan.hasty facility score
      u.timersOf i = plan.timers score unheard ∧ Happening.ran i none ∉ u.journal ∧
      (∀ cue ∈ hasty, cue ∉ unheard) ∧
      p.pending.Perm ((plan.timers score (unheard ++ hasty)).map Timer.id) ∧
      p.pending.Pairwise (· < ·) ∧
      (p.pending = (u.timersOf i).map Timer.id ↔ hasty = []) ∧
      ∀ code, ∃ entered,
        Act.stop code i u = Act.enter code u.announcements.length p.callback entered ∧
        entered.timers = u.timers.filter (fun timer => ¬ (timer.cancellable ∧ timer.owner = i)) ∧
        entered.journal =
          u.journal ++ [.stopped (unheard.length + hasty.length + 1), .ended i] := by
  have reached : Reaches .any .initial u := by
    have here := run.schedule lawful facility engine callback score tempo
    rw [started] at here
    exact here.trans later
  have tracks := Tracks.of_run reached
  have live : p.notified = false := by
    have finished := (Settled.of_run reached i).finished p found
    rw [unfinished] at finished
    exact (Bool.or_eq_false_iff.mp finished.symm).1
  obtain ⟨rfl, scale, scaled, either⟩ := Act.schedule_awaits_later run lawful started later
  have awaits := either.resolve_right fun ⟨q, again, done⟩ => by
    cases found.symm.trans again
    rw [live] at done
    cases done
  refine ⟨scale, scaled, awaits.timers, fun ended => awaits.completion (completion_heard.mpr ended),
    ?_, awaits.pending_perm found, awaits.pending_aged found, awaits.pending_eq_iff found,
    fun code => ⟨u.stopped s.playbacks.length, ?_, stopped_queue tracks found live, ?_⟩⟩
  · intro cue hasty silent
    obtain ⟨inside, hasty⟩ := List.mem_filter.mp hasty
    have silent := of_decide_eq_true (List.mem_filter.mp silent).2
    exact silent (awaits.hasty cue inside (of_decide_eq_true hasty))
  · rw [Act.stop_apply, found]
    exact if_neg (by simp [live])
  · have number := awaits.pending_length found
    have told : (u.stopped s.playbacks.length).journal =
        u.journal ++ [.stopped p.pending.length, .ended s.playbacks.length] := by
      simp [stopped, found, live, cancelTimers]
    rw [told, number]
    rfl

/-- Of three units one ran at once, one when it was due, and one still waits. -/
theorem stop_accounts_halfway :
    let event (time : Int) : Event := ⟨.whole time, .single "C4", .seconds (.whole 1)⟩
    let score : Music := [event 0, event 1, event 2]
    let t := (Act.schedule .idle .immediate none none score (.whole 120) .initial).2
    let u := (Act.exec .idle 4 (.advance (.whole 1)) t).2
    ∃ p entered, u.playbacks[0]? = some p ∧ p.pending.length = (u.unheard 0 score).length + 2 ∧
      Act.stop .idle 0 u = Act.enter .idle u.announcements.length p.callback entered ∧
      (∀ timer ∈ entered.timers, timer.owner ≠ 0) ∧
      entered.journal = u.journal ++ [.stopped 3, .ended 0] := by
  intro event score t u
  have answered : (Act.schedule .idle .immediate none none score (.whole 120) initial).1 = .ok 0 :=
    eq_ok_of_toOption (by decide +kernel)
  have started : Act.schedule .idle .immediate none none score (.whole 120) initial = (.ok 0, t) :=
    (Prod.eta _).symm.trans (by rw [answered])
  have later : Reaches .any t u :=
    .exec (.refl t) Performer.idle_lawful 4 (.advance (.whole 1))
  have unfinished : u.playbacks[0]?.any (fun p => !p.finished) = true := by
    unfold u t score event
    decide +kernel
  obtain ⟨p, found, unfinished⟩ := (Option.any_eq_true _ _).mp unfinished
  obtain ⟨scale, scaled, _, _, _, kept, _, _, stops⟩ := stop_accounts (.refl initial)
    Performer.idle_lawful started later found (by simpa using unfinished)
  have unit : Duration.tempoScale (.whole 120) = .ok 1 := Duration.tempoScale_eq (by decide +kernel)
  have same : scale = 1 := Except.ok.inj (scaled.symm.trans unit)
  have silent : (u.unheard 0 score).length = 1 := by
    unfold u t score event
    decide +kernel
  have ran : ((initial.plan .immediate scale (.whole 120)).hasty .immediate score).length = 1 := by
    rw [same]
    decide +kernel
  obtain ⟨entered, stops, left, told⟩ := stops .idle
  refine ⟨p, entered, found, ?_, stops, ?_, ?_⟩
  · rw [kept.length_eq]
    simp [Plan.timers, ran]
  · rw [left]
    have all : ∀ timer ∈ u.timers, timer.cancellable = true := by
      unfold u t score event
      decide +kernel
    intro timer here
    obtain ⟨waits, spared⟩ := List.mem_filter.mp here
    simpa [all timer waits] using spared
  · rw [told, silent, ran]

/-- A stop tells of a timer that has run, when that ran inside the call that made it. -/
theorem stop_accounts_overcounts :
    let event (time : Int) : Event := ⟨.whole time, .single "C4", .seconds (.whole 1)⟩
    let score : Music := [event 0, event 1]
    let t := (Act.schedule .idle .immediate none none score (.whole 120) .initial).2
    t.playbacks[0]?.map Playback.pending = some [0, 1, 2] ∧ (t.timersOf 0).map Timer.id = [1, 2] ∧
      Heard.unit 0 ∈ t.heard 0 ∧ (t.unheard 0 score).length + 1 = 2 ∧
      ⟨.debug, "intuitune.scheduler", "Playback stopped, 3 pending timer(s) cancelled"⟩ ∈
        (Act.stop .idle 0 t).2.journal.filterMap Happening.line? := by
  decide +kernel

end Stage
end Solfege
