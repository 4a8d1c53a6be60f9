import Solfege.Proofs.Playback.Ending
import Solfege.Proofs.Playback.Tracking

/-! A stop really stops. Once a playback has no timer left, nothing that happens later is about it,
and the timers of other playbacks are none of its business. -/
namespace Solfege.Stage
variable {order : Order} {n i j : Nat} {s t u : Stage} {p : Playback} {timer : Timer}

/-- The timers of a playback that wait. -/
def timersOf (s : Stage) (i : Nat) : List Timer := s.timers.filter (·.owner = i)

theorem mem_timersOf : timer ∈ s.timersOf i ↔ timer ∈ s.timers ∧ timer.owner = i := by
  simp [timersOf]

/-- Nothing happens to a playback: the timers of it that wait stay, and nothing is told of it. -/
structure Spares (i : Nat) (s t : Stage) : Prop where
  timers : t.timersOf i = s.timersOf i
  journal : ∃ said, t.journal = s.journal ++ said ∧
    ∀ happening ∈ said, happening.about? ≠ some i

namespace Spares

theorem refl (i : Nat) (s : Stage) : Spares i s s := ⟨rfl, [], by simp, by simp⟩

theorem trans (first : Spares i s t) (second : Spares i t u) : Spares i s u := by
  obtain ⟨said, told, about⟩ := first.journal
  obtain ⟨more, told', about'⟩ := second.journal
  refine ⟨second.timers.trans first.timers, said ++ more, ?_, ?_⟩
  · rw [told', told, List.append_assoc]
  · intro happening here
    exact (List.mem_append.mp here).elim (about happening) (about' happening)

theorem of_timers (same : t.timersOf i = s.timersOf i) (quiet : t.journal = s.journal) :
    Spares i s t := ⟨same, [], by simpa using quiet, by simp⟩

theorem of_aside (aside : Aside s t) : Spares i s t := by
  obtain ⟨said, told, about⟩ := aside.journal
  refine ⟨by rw [timersOf, aside.timers, timersOf], said, told, fun happening here => ?_⟩
  rw [about happening here]
  exact nofun

theorem noted (s : Stage) {said : List Happening}
    (about : ∀ happening ∈ said, happening.about? ≠ some i) : Spares i s (s.noted said) :=
  ⟨rfl, said, rfl, about⟩

theorem numbered (i : Nat) (s : Stage) : Spares i s s.numbered := of_timers rfl rfl

theorem waiting (other : timer.owner ≠ i) : Spares i s (s.waiting timer) :=
  of_timers (by simp [timersOf, other]) rfl

/-- A timer that is taken off is the only one. -/
theorem taken (tracks : s.Tracks) (waits : timer ∈ s.timers) (other : timer.owner ≠ i) :
    Spares i s (s.taken timer) := by
  refine of_timers ?_ rfl
  rw [timersOf, taken_timers, List.filter_filter, timersOf]
  apply List.filter_congr
  intro mine here
  by_cases owner : mine.owner = i
  · have different : mine.id ≠ timer.id := fun same =>
      other (Tracked.eq_of_id tracks here waits same ▸ owner)
    simp [owner, different]
  · simp [owner]

/-- What a playback that is not over keeps as pending are no timers of another. -/
theorem cancelTimers (tracks : s.Tracks) (found : s.playbacks[j]? = some p)
    (live : p.notified = false) (other : j ≠ i) : Spares i s (s.cancelTimers p.pending) := by
  refine of_timers ?_ rfl
  rw [timersOf, Stage.cancelTimers, List.filter_filter, timersOf]
  apply List.filter_congr
  intro mine here
  by_cases owner : mine.owner = i
  · have outside : mine.id ∉ p.pending := fun pending =>
      other ((Tracked.own tracks j p found live mine here pending).symm.trans owner)
    simp [owner, outside]
  · simp [owner]

theorem sounded (other : j ≠ i) (timer : Option Nat) (index : Nat) (event : Event)
    (seconds : Binary64) : Spares i s (s.sounded j timer index event seconds) := by
  obtain ⟨heard, told, rfl | ⟨start, duration, velocity, rfl⟩⟩ :=
    sounded_journal s j timer index event seconds
  · exact ⟨by rw [timersOf, sounded_timers, timersOf], _, told, by simp [Happening.about?, other]⟩
  · exact ⟨by rw [timersOf, sounded_timers, timersOf], _, told, by simp [Happening.about?, other]⟩

theorem ended (other : j ≠ i) (p : Playback) : Spares i s (s.ended j p) :=
  ⟨rfl, [.ended j], rfl, by simp [Happening.about?, other]⟩

theorem completed (other : j ≠ i) : Spares i s (s.completed j) := by
  rcases completed_cases s j with same | ⟨p, _, _, same⟩
  · rw [same]
    exact .refl i s
  · rw [same]
    exact .ended other p

theorem stopped (tracks : s.Tracks) (other : j ≠ i) : Spares i s (s.stopped j) := by
  rcases stopped_cases s j with same | same | ⟨p, found, live, same⟩
  · rw [same]
    exact .refl i s
  · rw [same]
    exact .noted s (by simp [Happening.about?])
  · have cancelled : Spares i s (s.cancelTimers p.pending) :=
      .cancelTimers tracks found live other
    rw [same]
    exact (cancelled.trans (.noted _ (by simp [Happening.about?]))).trans (.ended other p)

theorem fired (tracks : s.Tracks) (waits : timer ∈ s.timers) (other : timer.owner ≠ i) :
    Spares i s (s.fired timer) := by
  have taken := taken tracks waits other
  rcases fired_cases s timer with ⟨index, event, seconds, same⟩ | same
  · rw [same]
    exact taken.trans (.sounded other ..)
  · rw [same]
    exact (taken.trans (.noted _ (by simp [Happening.about?, other]))).trans (.completed other)

end Spares

/-- A playback that has been started, or is still to come, is spared by every change but the run of
a timer of its own and the stop that ends it. -/
theorem Change.spares (tracks : s.Tracks) (apart : i < n ∨ s.playbacks.length ≤ i)
    (change : Change order n s t) :
    Spares i s t ∨
    (∃ timer, order.Allows s.timers timer ∧ timer.owner = i ∧ t = s.fired timer) ∨
    ∃ p, s.playbacks[i]? = some p ∧ p.notified = false ∧ t = s.stopped i := by
  -- What is being started has a number that is neither an old one nor still to come.
  have another {owner : Nat} (new : n ≤ owner) (there : owner < s.playbacks.length) :
      owner ≠ i := by omega
  cases change with
  | aside aside => exact .inl (.of_aside aside)
  | join p => exact .inl (.of_timers rfl rfl)
  | wait timer new there => exact .inl (.waiting (another new there))
  | sound owner index event seconds new there =>
    exact .inl ((Spares.numbered i s).trans (.sounded (another new there) none index event seconds))
  | soundKept owner index event seconds new there =>
    have sounded := (Spares.numbered i s).trans
      (.sounded (another new there) none index event seconds)
    exact .inl (sounded.trans (.of_timers rfl rfl))
  | complete owner new there =>
    have other := another new there
    have noted : Spares i s.numbered (s.numbered.noted [.ran owner none]) :=
      .noted s.numbered (by simp [Happening.about?, other])
    exact .inl (((Spares.numbered i s).trans noted).trans (.completed other))
  | keep owner id => exact .inl (.of_timers rfl rfl)
  | fire timer allowed =>
    by_cases mine : timer.owner = i
    · exact .inr (.inl ⟨timer, allowed, mine, rfl⟩)
    · exact .inl (.fired tracks allowed.waits mine)
  | stop j =>
    by_cases mine : j = i
    · subst mine
      rcases stopped_cases s j with same | same | ⟨p, found, live, _⟩
      · rw [same]
        exact .inl (.refl j s)
      · rw [same]
        exact .inl (.noted s (by simp [Happening.about?]))
      · exact .inr (.inr ⟨p, found, live, rfl⟩)
    · exact .inl (.stopped tracks mine)

/-- Nothing happens to a playback before it is started. -/
theorem Changes.spares (tracks : s.Tracks) (changes : Changes order n s t)
    (new : t.playbacks.length ≤ i) : Spares i s t := by
  induction changes with
  | refl => exact .refl i s
  | @tail t u before change ih =>
    have tracks := tracks.changes before
    have new : t.playbacks.length ≤ i := Nat.le_trans change.length_le new
    rcases change.spares tracks (.inr new) with spares | ⟨timer, allowed, mine, _⟩ | ⟨p, found, _⟩
    · exact (ih new).trans spares
    · have owned := Tracked.owned tracks timer allowed.waits
      omega
    · have there := (List.getElem?_eq_some_iff.mp found).1
      omega

/-- The stop of a playback that is not over removes those of its timers that can be cancelled and
no others. -/
theorem stopped_queue (tracks : s.Tracks) (found : s.playbacks[i]? = some p)
    (live : p.notified = false) :
    (s.stopped i).timers =
      s.timers.filter fun timer => ¬ (timer.cancellable ∧ timer.owner = i) := by
  have left : (s.stopped i).timers = (s.cancelTimers p.pending).timers := by
    simp [stopped, found, live]
  rw [left, cancelTimers]
  apply List.filter_congr
  intro timer waits
  have mine : timer.id ∈ p.pending ↔ timer.owner = i := by
    constructor
    · exact Tracked.own tracks i p found live timer waits
    · exact fun same => Tracked.covered tracks timer waits p (same ▸ found) live
  simp [mine]

/-- A playback that is over and has no timer left. -/
structure Gone (s : Stage) (i : Nat) : Prop where
  done : ∃ p, s.playbacks[i]? = some p ∧ p.notified = true
  timers : s.timersOf i = []

namespace Gone

/-- Nothing brings a playback back, and nothing more is told of it. -/
theorem changes (gone : s.Gone i) (tracks : s.Tracks) (old : i < n)
    (changes : Changes order n s t) : t.Gone i ∧ Spares i s t := by
  induction changes with
  | refl => exact ⟨gone, .refl i s⟩
  | @tail t u before change ih =>
    obtain ⟨gone, spared⟩ := ih
    obtain ⟨p, found, done⟩ := gone.done
    rcases change.spares (tracks.changes before) (.inl old) with
      spares | ⟨timer, allowed, mine, _⟩ | ⟨q, again, live, _⟩
    · obtain ⟨q, found, aged⟩ := change.ages found
      exact ⟨⟨⟨q, found, aged.notified done⟩, spares.timers.trans gone.timers⟩, spared.trans spares⟩
    · have waits := mem_timersOf.mpr ⟨allowed.waits, mine⟩
      rw [gone.timers] at waits
      cases waits
    · cases found.symm.trans again
      rw [done] at live
      cases live

/-- The stop of a playback cancels every timer that it has. -/
theorem of_stop (tracks : s.Tracks) (found : s.playbacks[i]? = some p) (live : p.notified = false)
    (honoured : ∀ timer ∈ s.timers, timer.owner = i → timer.cancellable = true) :
    (s.stopped i).Gone i := by
  refine ⟨?_, ?_⟩
  · obtain ⟨q, found, done⟩ := stopped_over found
    exact ⟨q, found, done⟩
  · apply List.eq_nil_iff_forall_not_mem.mpr
    intro timer here
    obtain ⟨waits, mine⟩ := mem_timersOf.mp here
    rw [stopped_queue tracks found live] at waits
    obtain ⟨waited, spared⟩ := List.mem_filter.mp waits
    simp [honoured timer waited mine, mine] at spared

end Gone

theorem stopped_timers (tracks : s.Tracks) (found : s.playbacks[i]? = some p)
    (live : p.notified = false) (waits : timer ∈ s.timers) (other : timer.owner ≠ i) :
    timer ∈ (s.stopped i).timers := by
  rw [stopped_queue tracks found live]
  exact List.mem_filter.mpr ⟨waits, by simp [other]⟩

/-- Where cancelling removes timers, the stop of a playback that is not finished removes all its
timers and no others, all before its callback is entered; and nothing that happens from then on is
about it. -/
theorem stop_stops {perform : Performer} (run : Reaches .any .initial s)
    (found : s.playbacks[i]? = some p) (unfinished : p.finished = false)
    (honoured : ∀ timer ∈ s.timers, timer.owner = i → timer.cancellable = true)
    (lawful : perform.Lawful .any) :
    ∃ entered,
      Act.stop perform i s =
        Act.enter perform s.announcements.length p.callback entered ∧
      (∀ timer ∈ s.timers, timer.owner ≠ i → timer ∈ entered.timers) ∧
      Reaches .any s entered ∧ Reaches .any entered (Act.stop perform i s).2 ∧
      ∀ t, Reaches .any entered t → (∀ timer ∈ t.timers, timer.owner ≠ i) ∧
        ∃ since, t.journal = entered.journal ++ since ∧
          ∀ happening ∈ since, happening.about? ≠ some i := by
  have tracks := Tracks.of_run run
  have live : p.notified = false := by
    have finished := (Settled.of_run run i).finished p found
    rw [unfinished] at finished
    exact (Bool.or_eq_false_iff.mp finished.symm).1
  have stops : Act.stop perform i s =
      Act.enter perform s.announcements.length p.callback (s.stopped i) := by
    rw [Act.stop_apply, found]
    exact if_neg (by simp [live])
  refine ⟨s.stopped i, stops, fun timer => stopped_timers tracks found live, ?_, ?_,
    fun t later => ?_⟩
  · rw [← Act.stop_idle]
    exact .stop (.refl s) Performer.idle_lawful i
  · rw [stops]
    rcases Act.enter_enters perform s.announcements.length p.callback (s.stopped i) with
      same | ⟨place, program, left⟩
    · rw [same]
      exact .refl _
    · rw [left]
      exact lawful place program _
  · have gone := Gone.of_stop tracks found live honoured
    obtain ⟨q, there, _⟩ := gone.done
    have old := (List.getElem?_eq_some_iff.mp there).1
    obtain ⟨gone, spares⟩ := gone.changes (tracks.stops i) old later.leads
    refine ⟨fun timer waits mine => ?_, spares.journal⟩
    have here := mem_timersOf.mpr ⟨waits, mine⟩
    rw [gone.timers] at here
    cases here

/-- One of two playbacks that wait on the same timers is stopped. -/
theorem stop_stops_first :
    let event : Event := ⟨.whole 0, .single "C4", .seconds (.whole 1)⟩
    let started := (initial.step (.schedule "a" .nothing (.music [event]) (.whole 120) .queueing
      (some [.stop "b"]))).2
    let s := (started.step (.schedule "b" .nothing (.music [event]) (.whole 60) .immediate none)).2
    ∀ timer ∈ (Act.stop (Act.perform 2) 0 s).2.timers, timer.owner ≠ 0 := by
  intro event started s
  have run : Reaches .any initial s := (step_reaches initial _).trans (step_reaches started _)
  have unfinished : s.playbacks[0]?.any (fun p => !p.finished) = true := by
    unfold s started
    decide +kernel
  have honoured : ∀ timer ∈ s.timers, timer.owner = 0 → timer.cancellable = true := by
    unfold s started
    decide +kernel
  obtain ⟨p, found, unfinished⟩ := (Option.any_eq_true _ _).mp unfinished
  obtain ⟨entered, _, _, _, left, gone⟩ := stop_stops run found (by simpa using unfinished) honoured
    (Performer.perform_lawful 2)
  exact (gone _ left).1

end Solfege.Stage
