import Solfege.Proofs.Playback.Completion

/-! The timers that are made for a score on timers of any kind. A unit whose timer runs inside the
call that makes it sounds at once and waits no more, but the number of its timer is kept all the
same. -/
namespace Solfege

namespace Plan
variable {plan : Plan} {facility : Facility}

/-- Whether a unit runs inside the call that makes its timer. -/
def Hasty (plan : Plan) (facility : Facility) (cue : Event × Nat) : Prop :=
  facility = .immediate ∧ cue.1.comes plan.scale ≤ 0

instance (plan : Plan) (facility : Facility) (cue : Event × Nat) :
    Decidable (plan.Hasty facility cue) :=
  inferInstanceAs (Decidable (_ ∧ _))

/-- The units of a score that run inside the calls that make their timers. -/
def hasty (plan : Plan) (facility : Facility) (score : Music) : List (Event × Nat) :=
  score.zipIdx.filter fun cue => plan.Hasty facility cue

end Plan

namespace Stage
variable {s t u : Stage} {owner index k : Nat} {timer : Option Nat} {event : Event}
  {seconds : Binary64}

/-- A unit that runs is heard, whether or not it fails, and no completion is. -/
theorem sounded_heard (s : Stage) (owner index : Nat) (timer : Option Nat) (event : Event)
    (seconds : Binary64) :
    (∀ k, Heard.unit k ∈ (s.sounded owner timer index event seconds).heard owner ↔
      Heard.unit k ∈ s.heard owner ∨ k = index) ∧
    (Heard.completion ∈ (s.sounded owner timer index event seconds).heard owner ↔
      Heard.completion ∈ s.heard owner) := by
  obtain ⟨said, told, rfl | ⟨start, duration, velocity, rfl⟩⟩ :=
    sounded_journal s owner timer index event seconds
  · simp [heard_append told, Happening.heard?]
  · simp [heard_append told, Happening.heard?]

/-- Timers have been made for some units of a playback. Those that run at once have run, the others
wait, and the numbers of all are kept. -/
structure Made (plan : Plan) (facility : Facility) (cues : List (Event × Nat)) (s t : Stage) :
    Prop where
  clock : t.clock = s.clock
  nextTimer : t.nextTimer = s.nextTimer + cues.length
  timers : t.timers = s.timers ++ (cues.filter fun cue => ¬ plan.Hasty facility cue).map plan.unit
  playback : ∀ p, s.playbacks[plan.owner]? = some p → t.playbacks[plan.owner]? =
    some { p with pending := p.pending ++ (cues.map plan.unit).map Timer.id }
  units : ∀ k, Heard.unit k ∈ t.heard plan.owner ↔
    Heard.unit k ∈ s.heard plan.owner ∨ ∃ cue ∈ cues, plan.Hasty facility cue ∧ k = cue.2
  completion : Heard.completion ∈ t.heard plan.owner ↔ Heard.completion ∈ s.heard plan.owner

namespace Made
variable {plan : Plan} {facility : Facility} {cues more : List (Event × Nat)} {cue : Event × Nat}

theorem nil : Made plan facility [] s s := by
  refine ⟨rfl, rfl, by simp, fun p found => ?_, by simp, .rfl⟩
  simpa using found

theorem append (first : Made plan facility cues s t) (second : Made plan facility more t u) :
    Made plan facility (cues ++ more) s u := by
  refine ⟨second.clock.trans first.clock, ?_, ?_, fun p found => ?_, fun k => ?_,
    second.completion.trans first.completion⟩
  · rw [second.nextTimer, first.nextTimer, List.length_append, Nat.add_assoc]
  · rw [second.timers, first.timers, List.filter_append, List.map_append, List.append_assoc]
  · rw [second.playback _ (first.playback p found)]
    simp
  · rw [second.units, first.units]
    simp only [List.mem_append, or_and_right, exists_or, or_assoc]

/-- A unit that does not run at once begins to wait. -/
theorem waiting (patient : ¬ plan.Hasty facility cue) :
    Made plan facility [cue] s (s.waiting (plan.unit cue)) := by
  refine ⟨rfl, rfl, ?_, fun p found => ?_, fun k => ?_, .rfl⟩
  · simp [patient]
  · simp [found, Playback.keep]
  · have same : (s.waiting (plan.unit cue)).heard plan.owner = s.heard plan.owner := rfl
    simp [same, patient]

/-- A unit that runs at once is heard, and then its number is kept. -/
theorem running (hasty : plan.Hasty facility cue) (next : s.nextTimer = plan.first + cue.2)
    (seconds : Binary64) :
    Made plan facility [cue] s
      ((s.numbered.sounded plan.owner none cue.2 cue.1 seconds).kept plan.owner s.nextTimer) := by
  obtain ⟨units, completion⟩ := sounded_heard s.numbered plan.owner cue.2 none cue.1 seconds
  have sounding := sounded_sounding s.numbered plan.owner none cue.2 cue.1 seconds
  have heard : ((s.numbered.sounded plan.owner none cue.2 cue.1 seconds).kept plan.owner
      s.nextTimer).heard plan.owner =
        (s.numbered.sounded plan.owner none cue.2 cue.1 seconds).heard plan.owner := rfl
  have before : s.numbered.heard plan.owner = s.heard plan.owner := rfl
  refine ⟨sounding.clock, ?_, ?_, fun p found => ?_, fun k => ?_, completion⟩
  · simp
  · simp [hasty]
  · rw [kept_playbacks, Tracks.sounded_none]
    simp [found, Playback.keep, next]
  · rw [heard, units, before]
    simp [hasty]

end Made
end Stage

namespace Act
variable {perform : Performer} {facility : Facility} {plan : Plan} {engine : Option Nat}
  {callback : Option Callback} {score : Music} {tempo : Number} {length : Binary64} {i : Nat}
  {s t : Stage}

theorem track_made (cue : Event × Nat) (honours : plan.cancellable = decide (facility ≠ .stubborn))
    (clock : s.clock = plan.clock)
    (next : s.nextTimer = plan.first + cue.2)
    (made : track perform facility plan.owner (cue.1.comes plan.scale)
      (.unit cue.2 cue.1 (cue.1.lasts plan.tempo)) s = (.ok (), t)) :
    Stage.Made plan facility [cue] s t := by
  by_cases hasty : plan.Hasty facility cue
  · rw [track_runs hasty] at made
    obtain ⟨_, u, ran, kept⟩ := of_bind_ok made
    have sounded : s.numbered.sounded plan.owner none cue.2 cue.1 (cue.1.lasts plan.tempo) = u := by
      rw [← run_unit_sounded perform, ran]
    have last : u.kept plan.owner s.nextTimer = t := congrArg Prod.snd kept
    rw [← last, ← sounded]
    exact .running hasty next _
  · rw [track_waits hasty, clock, next, ← honours] at made
    have last : s.waiting (plan.unit cue) = t := congrArg Prod.snd made
    rw [← last]
    exact .waiting hasty

theorem scheduleUnits_made (plan : Plan)
    (honours : plan.cancellable = decide (facility ≠ .stubborn))
    (timed : ∀ event ∈ score, event.Timed plan.scale plan.tempo) (index : Nat)
    (clock : s.clock = plan.clock) (next : s.nextTimer = plan.first + index)
    (made : scheduleUnits perform facility plan.owner plan.scale plan.tempo index score s =
      (.ok (), t)) :
    Stage.Made plan facility (score.zipIdx index) s t := by
  induction score generalizing s index with
  | nil =>
    have same : s = t := congrArg Prod.snd made
    rw [← same]
    exact .nil
  | cons event rest ih =>
    have first := timed event List.mem_cons_self
    rw [scheduleUnits, first.seconds_eq, ofExcept_bind_ok, first.delay_eq, ofExcept_bind_ok] at made
    obtain ⟨_, u, tracked, made⟩ := of_bind_ok made
    have one := track_made (event, index) honours clock next tracked
    have later := ih (fun event here => timed event (List.mem_cons_of_mem _ here)) (index + 1)
      (one.clock.trans clock) (by rw [one.nextTimer, next]; rfl) made
    exact one.append later

/-- What has been prepared is a playback with the timers of its units. -/
theorem prepare_made
    (made : prepare perform facility engine callback score tempo s = (.ok (i, length), t)) :
    i = s.playbacks.length ∧ ∃ scale, Duration.tempoScale tempo = .ok scale ∧
      length = score.lasts scale tempo ∧
      Stage.Made (s.plan facility scale tempo) facility score.zipIdx
        ((s.equipped engine).joined
          (.started length (engine.getD s.engines.length) callback)) t := by
  rw [prepare_apply] at made
  split at made
  · cases made
  · split at made
    · rename_i scale seconds scaled lasts
      obtain ⟨_, u, made, same⟩ := of_bind_ok made
      cases same
      obtain ⟨_, again, timed⟩ := Music.timed_of_seconds lasts
      cases scaled.symm.trans again
      have whole : length = score.lasts scale tempo :=
        Except.ok.inj (lasts.symm.trans (Music.seconds_eq scaled timed))
      have clock : (s.equipped engine).clock = s.clock := by cases engine <;> rfl
      have next : (s.equipped engine).nextTimer = s.nextTimer := by cases engine <;> rfl
      exact ⟨rfl, scale, scaled, whole,
        scheduleUnits_made (s.plan facility scale tempo) rfl timed 0 clock next made⟩
    · cases made
    · cases made

end Act
end Solfege
