import Solfege.Proofs.Playback.Simulation

/-! A playback ends once. Its callback is announced by the act that ends it and by no other, however
often it is stopped, and whatever its timers and its callback do. -/
namespace Solfege

/-- A playback without regard to its timers. -/
def Playback.bare (p : Playback) : Playback := { p with pending := [] }

namespace Stage
variable {order : Order} {n i : Nat} {s t u : Stage} {p : Playback}

/-- How often the callback of a playback has been called. -/
def calls (s : Stage) (i : Nat) : Nat := (s.announcements.map Announcement.playback).count i

/-- What has been told of the end of a playback: a single call once it is over, if it has a
callback. -/
structure Settled (s : Stage) (i : Nat) : Prop where
  finished : ∀ p, s.playbacks[i]? = some p → p.finished = (p.notified || p.engine.isNone)
  ended : ∀ p, s.playbacks[i]? = some p → (Happening.ended i ∈ s.journal ↔ p.notified = true)
  called : ∀ p, s.playbacks[i]? = some p →
    s.calls i = if p.notified && p.callback.isSome then 1 else 0
  absent : s.playbacks[i]? = none → Happening.ended i ∉ s.journal ∧ s.calls i = 0

/-- A change by which no playback ends. -/
structure Quiet (s t : Stage) : Prop where
  playbacks : t.playbacks.map Playback.bare = s.playbacks.map Playback.bare
  announced :
    t.announcements.map Announcement.playback = s.announcements.map Announcement.playback
  journal : ∀ i, Happening.ended i ∈ t.journal ↔ Happening.ended i ∈ s.journal

namespace Quiet

theorem trans (first : Quiet s t) (second : Quiet t u) : Quiet s u :=
  ⟨second.playbacks.trans first.playbacks, second.announced.trans first.announced,
    fun i => (second.journal i).trans (first.journal i)⟩

/-- What becomes of the timers of a playback does not end it. -/
theorem modify_bare (playbacks : List Playback) (j : Nat) {change : Playback → Playback}
    (bare : ∀ p, (change p).bare = p.bare) :
    (playbacks.modify j change).map Playback.bare = playbacks.map Playback.bare := by
  apply List.ext_getElem?
  intro i
  rw [List.getElem?_map, List.getElem?_map, List.getElem?_modify]
  cases playbacks[i]? with
  | none => rfl
  | some p => by_cases same : j = i <;> simp [same, bare]

theorem of_aside (aside : Aside s t) : Quiet s t := by
  refine ⟨by rw [aside.playbacks], aside.announced, fun i => ?_⟩
  obtain ⟨said, told, about⟩ := aside.journal
  rw [told, List.mem_append]
  apply or_iff_left
  intro ended
  simpa [Happening.about?] using about _ ended

theorem noted (s : Stage) (said : List Happening) (silent : ∀ i, Happening.ended i ∉ said) :
    Quiet s (s.noted said) := ⟨rfl, rfl, fun i => by simp [silent]⟩

theorem numbered (s : Stage) : Quiet s s.numbered := ⟨rfl, rfl, fun _ => .rfl⟩

theorem taken (s : Stage) (timer : Timer) : Quiet s (s.taken timer) := ⟨rfl, rfl, fun _ => .rfl⟩

theorem kept (s : Stage) (owner id : Nat) : Quiet s (s.kept owner id) :=
  ⟨modify_bare _ _ fun _ => rfl, rfl, fun _ => .rfl⟩

theorem waiting (s : Stage) (timer : Timer) : Quiet s (s.waiting timer) :=
  ⟨modify_bare _ _ fun _ => rfl, rfl, fun _ => .rfl⟩

theorem cancelTimers (s : Stage) (ids : List Nat) : Quiet s (s.cancelTimers ids) :=
  ⟨rfl, rfl, fun _ => .rfl⟩

theorem sounded (s : Stage) (owner : Nat) (timer : Option Nat) (index : Nat) (event : Event)
    (seconds : Binary64) : Quiet s (s.sounded owner timer index event seconds) := by
  refine ⟨?_, by rw [sounded_announcements], fun i => ?_⟩
  · rw [sounded_playbacks]
    exact modify_bare _ _ fun _ => rfl
  · obtain ⟨heard, told, rfl | ⟨start, duration, velocity, rfl⟩⟩ :=
      sounded_journal s owner timer index event seconds <;> simp [told]

end Quiet

namespace Settled

theorem initial (i : Nat) : Settled .initial i :=
  ⟨by simp [Stage.initial], by simp [Stage.initial], by simp [Stage.initial],
    by simp [Stage.initial, calls]⟩

theorem quiet (settled : s.Settled i) (quiet : Quiet s t) : t.Settled i := by
  have calls : t.calls i = s.calls i := by rw [Stage.calls, quiet.announced, Stage.calls]
  have same : t.playbacks[i]?.map Playback.bare = s.playbacks[i]?.map Playback.bare := by
    rw [← List.getElem?_map, ← List.getElem?_map, quiet.playbacks]
  have before {p : Playback} (found : t.playbacks[i]? = some p) :
      ∃ q, s.playbacks[i]? = some q ∧ q.bare = p.bare := by
    rw [found] at same
    exact Option.map_eq_some_iff.mp same.symm
  constructor
  · intro p found
    obtain ⟨q, old, face⟩ := before found
    injection face with _ engine _ _ finished notified
    rw [← finished, ← notified, ← engine, settled.finished q old]
  · intro p found
    obtain ⟨q, old, face⟩ := before found
    injection face with _ _ _ _ _ notified
    rw [quiet.journal, ← notified, settled.ended q old]
  · intro p found
    obtain ⟨q, old, face⟩ := before found
    injection face with _ _ callback _ _ notified
    rw [calls, ← callback, ← notified, settled.called q old]
  · intro gone
    rw [gone] at same
    rw [quiet.journal, calls]
    exact settled.absent (Option.map_eq_none_iff.mp same.symm)

theorem join (settled : s.Settled i) (fresh : p.Fresh) :
    Settled { s with playbacks := s.playbacks ++ [p] } i := by
  have joined {q : Playback} (found : (s.playbacks ++ [p])[i]? = some q) :
      s.playbacks[i]? = some q ∨ s.playbacks[i]? = none ∧ q = p := by
    grind
  constructor
  · intro q found
    rcases joined found with old | ⟨_, rfl⟩
    · exact settled.finished q old
    · rw [fresh.finished, fresh.notified, Bool.false_or]
  · intro q found
    rcases joined found with old | ⟨new, rfl⟩
    · exact settled.ended q old
    · simpa [fresh.notified] using (settled.absent new).1
  · intro q found
    rcases joined found with old | ⟨new, rfl⟩
    · exact settled.called q old
    · simp only [fresh.notified, Bool.false_and]
      exact (settled.absent new).2
  · intro gone
    exact settled.absent (by grind)

/-- The end of a playback that is not over yet is told, and its callback is called. -/
theorem ends {j : Nat} (settled : s.Settled i) (found : s.playbacks[j]? = some p)
    (live : p.notified = false) : (s.ended j p).Settled i := by
  by_cases same : j = i
  · subst same
    have done : (s.ended j p).playbacks[j]? = some p.closed := by simp [found]
    have calls : (s.ended j p).calls j = if p.callback.isSome then 1 else 0 := by
      have before := settled.called p found
      cases callback : p.callback <;> simp_all [Stage.calls]
    constructor
    · intro q here
      cases done.symm.trans here
      rfl
    · intro q here
      cases done.symm.trans here
      simp
    · intro q here
      cases done.symm.trans here
      simp [calls]
    · intro gone
      cases done.symm.trans gone
  · have other : (s.ended j p).playbacks[i]? = s.playbacks[i]? := by
      simp [same]
    have calls : (s.ended j p).calls i = s.calls i := by
      cases callback : p.callback <;> simp [Stage.calls, callback, same]
    have journal : Happening.ended i ∈ (s.ended j p).journal ↔ Happening.ended i ∈ s.journal := by
      simp [Ne.symm same]
    constructor
    · intro q here
      exact settled.finished q (other ▸ here)
    · intro q here
      rw [journal]
      exact settled.ended q (other ▸ here)
    · intro q here
      rw [calls]
      exact settled.called q (other ▸ here)
    · intro gone
      rw [journal, calls]
      exact settled.absent (other ▸ gone)

theorem completes (settled : s.Settled i) (j : Nat) : (s.completed j).Settled i := by
  rcases completed_cases s j with same | ⟨p, found, live, same⟩
  · rw [same]
    exact settled
  · rw [same]
    exact settled.ends found live

theorem stops (settled : s.Settled i) (j : Nat) : (s.stopped j).Settled i := by
  rcases stopped_cases s j with same | same | ⟨p, found, live, same⟩
  · rw [same]
    exact settled
  · rw [same]
    exact settled.quiet (.noted s _ (by simp))
  · have cancelled : Quiet s ((s.cancelTimers p.pending).noted [.stopped p.pending.length]) :=
      (Quiet.cancelTimers s p.pending).trans (.noted _ _ (by simp))
    rw [same]
    exact (settled.quiet cancelled).ends found live

theorem fires (settled : s.Settled i) (timer : Timer) : (s.fired timer).Settled i := by
  have taken := settled.quiet (.taken s timer)
  rcases fired_cases s timer with ⟨index, event, seconds, same⟩ | same
  · rw [same]
    exact taken.quiet (.sounded ..)
  · rw [same]
    exact (taken.quiet (.noted _ _ (by simp))).completes timer.owner

/-- Every change tells of the ends that it brings about. -/
theorem change (settled : s.Settled i) (change : Change order n s t) : t.Settled i := by
  cases change with
  | aside aside => exact settled.quiet (.of_aside aside)
  | join p fresh => exact settled.join fresh
  | wait timer => exact settled.quiet (.waiting s timer)
  | sound owner index event seconds => exact settled.quiet ((Quiet.numbered s).trans (.sounded ..))
  | soundKept owner index event seconds =>
    exact settled.quiet (((Quiet.numbered s).trans (.sounded ..)).trans (.kept ..))
  | complete owner =>
    have noted := (Quiet.numbered s).trans (.noted _ [.ran owner none] (by simp))
    exact (settled.quiet noted).completes owner
  | keep owner id => exact settled.quiet (.kept s owner id)
  | fire timer => exact settled.fires timer
  | stop j => exact settled.stops j

theorem changes (settled : s.Settled i) (changes : Changes order n s t) : t.Settled i := by
  induction changes with
  | refl => exact settled
  | tail _ change ih => exact ih.change change

theorem of_run (run : Reaches order .initial s) (i : Nat) : s.Settled i :=
  (Settled.initial i).changes run.leads

end Settled

/-- A stop leaves the playback over, whether it was before or not. -/
theorem stopped_over (found : s.playbacks[i]? = some p) :
    ∃ q, (s.stopped i).playbacks[i]? = some q ∧ q.notified = true := by
  unfold stopped
  rw [found]
  dsimp only
  split
  · exact ⟨p, found, ‹_›⟩
  · exact ⟨p.closed, by simp [cancelTimers, found], rfl⟩

theorem stop_calls {perform : Performer} (run : Reaches order .initial s)
    (found : s.playbacks[i]? = some p) (lawful : perform.Lawful order)
    (later : Reaches order (Act.stop perform i s).2 t) :
    t.calls i = if p.callback.isSome then 1 else 0 := by
  -- The stop counts before its callback is entered, so the code of the callback is a later run.
  have reached := (run.stop lawful i).trans later
  have lead : Leads order (s.stopped i) t :=
    (Act.enters_leads lawful.walks (Act.stop_enters perform i s)).trans later.leads
  obtain ⟨q, now, done⟩ := stopped_over found
  obtain ⟨r, here, aged⟩ := Changes.ages lead now
  obtain ⟨q', now', stopped⟩ := stopped_ages i found
  cases now.symm.trans now'
  rw [(Settled.of_run reached i).called r here, aged.notified done, aged.callback,
    stopped.callback, Bool.true_and]

/-- A callback is called once at most. After any stop it has been called; until the playback
completes or is stopped it has not, and only then is the playback finished, for good. A silent
playback is finished from the start. -/
theorem callback_called_once (run : Reaches .any .initial s) (found : s.playbacks[i]? = some p) :
    s.calls i ≤ 1 ∧
    (∀ perform : Performer, perform.Lawful .any → ∀ t, Reaches .any (Act.stop perform i s).2 t →
      t.calls i = if p.callback.isSome then 1 else 0) ∧
    (p.engine.isSome → (p.finished = true ↔ Happening.ended i ∈ s.journal) ∧
      (p.callback.isSome → (p.finished = true ↔ s.calls i = 1))) ∧
    (p.engine = none → p.finished = true) ∧
    ∀ t, Reaches .any s t → ∃ q, t.playbacks[i]? = some q ∧
      (p.finished = true → q.finished = true) ∧ s.calls i ≤ t.calls i := by
  have settled := Settled.of_run run i
  have finished := settled.finished p found
  have ended := settled.ended p found
  have called := settled.called p found
  refine ⟨?_, ?_, ?_, ?_, ?_⟩
  · rw [called]
    split <;> omega
  · intro perform lawful t later
    exact stop_calls run found lawful later
  · intro audible
    have done : p.finished = p.notified := by
      rw [finished, Option.isNone_eq_false_iff.mpr audible, Bool.or_false]
    refine ⟨by rw [done, ended], fun heard => ?_⟩
    rw [done, called, heard, Bool.and_true]
    cases p.notified <;> simp
  · intro silent
    rw [finished, silent, Option.isNone_none, Bool.or_true]
  · intro t later
    obtain ⟨q, here, aged⟩ := Changes.ages later.leads found
    refine ⟨q, here, aged.finished, ?_⟩
    rw [called, (Settled.of_run (run.trans later) i).called q here, aged.callback]
    cases done : p.notified with
    | false => simp
    | true => simp [aged.notified done]

/-- A playback that stops itself from its callback, stopped twice. -/
theorem callback_called_once_restopped :
    let s := (initial.step (.schedule "a" .nothing
      (.music [⟨.whole 0, .single "C4", .seconds (.whole 1)⟩]) (.whole 120) .stubborn
      (some [.stop "a", .raise "again"]))).2
    let t := (Act.stop (Act.perform 2) 0 s).2
    (Act.stop (Act.perform 2) 0 t).2.calls 0 = 1 := by
  intro s t
  have heard : s.playbacks[0]?.any (·.callback.isSome) = true := by
    unfold s
    decide +kernel
  obtain ⟨p, found, heard⟩ := (Option.any_eq_true _ _).mp heard
  have stopped := (callback_called_once (step_reaches initial _) found).2.1
  have once := stopped (Act.perform 2) (Performer.perform_lawful 2) (Act.stop (Act.perform 2) 0 t).2
    (.stop (.refl t) (Performer.perform_lawful 2) 0)
  rwa [if_pos heard] at once

end Stage
end Solfege
