import Solfege.Proofs.Playback.Stopping
import Solfege.Proofs.Playback.Units

/-! What is still to come of a playback. Its timers run by due time and then by age, so its units
are played in that order, and its completion finds none of them waiting, since no unit comes later
than the end of the score and all are older. Nothing here depends on the names of the units. -/
namespace Solfege

namespace Plan
variable {plan : Plan} {a b : Event × Nat}

/-- Whether a unit is to be played before another: by time and then by place. -/
def Sooner (plan : Plan) (a b : Event × Nat) : Prop :=
  (plan.unit a).due < (plan.unit b).due ∨ (plan.unit a).due ≤ (plan.unit b).due ∧ a.2 < b.2

theorem Sooner.asymm (sooner : plan.Sooner a b) : ¬ plan.Sooner b a := by
  rintro (less | ⟨le, older⟩)
  · rcases sooner with before | ⟨le, _⟩
    · exact Binary64.not_lt_of_le (Binary64.le_of_lt less) before
    · exact Binary64.not_lt_of_le le less
  · rcases sooner with before | ⟨_, younger⟩
    · exact Binary64.not_lt_of_le le before
    · omega

end Plan

namespace Stage
variable {order : Order} {i : Nat} {s t : Stage}

theorem completed_timers (s : Stage) (j : Nat) : (s.completed j).timers = s.timers := by
  rcases completed_cases s j with same | ⟨p, _, _, same⟩
  · rw [same]
  · rw [same]
    rfl

theorem fired_queue (s : Stage) (timer : Timer) :
    (s.fired timer).timers = s.timers.filter (·.id ≠ timer.id) := by
  rcases fired_cases s timer with ⟨index, event, seconds, same⟩ | same
  · rw [same]
    exact sounded_timers
  · rw [same]
    exact completed_timers ..

theorem fired_fewer {timer : Timer} (waits : timer ∈ s.timers) :
    (s.fired timer).timers.length < s.timers.length := by
  rw [fired_queue]
  exact List.length_filter_lt_length_iff_exists.mpr ⟨timer, waits, by simp⟩

theorem fired_timers (s : Stage) (timer : Timer) :
    (s.fired timer).timersOf i = (s.timersOf i).filter (·.id ≠ timer.id) := by
  rw [timersOf, fired_queue, timersOf, List.filter_filter, List.filter_filter]
  simp [Bool.and_comm]

/-- The units that have been played and those that wait make up the score. What has been played is
in order, and so is what is still to come. -/
structure Agenda (plan : Plan) (score : Music) (played waiting : List (Event × Nat)) (s : Stage) :
    Prop where
  timers : s.timersOf plan.owner = waiting.map plan.unit ++ [plan.last score]
  whole : (played ++ waiting).Perm score.zipIdx
  ordered : played.Pairwise plan.Sooner
  ahead : ∀ a ∈ played, ∀ b ∈ waiting, plan.Sooner a b

namespace Agenda
variable {plan : Plan} {score : Music} {played waiting : List (Event × Nat)}
  {cue other : Event × Nat}

theorem aged (agenda : s.Agenda plan score played waiting) (tracks : s.Tracks) :
    (waiting.map plan.unit ++ [plan.last score]).Pairwise fun a b => a.id < b.id :=
  agenda.timers ▸ tracks.aged.filter _

theorem unit_waits (agenda : s.Agenda plan score played waiting) (here : cue ∈ waiting) :
    plan.unit cue ∈ s.timers :=
  (mem_timersOf.mp (agenda.timers ▸ List.mem_append_left _ (List.mem_map_of_mem here))).1

theorem last_waits (agenda : s.Agenda plan score played waiting) : plan.last score ∈ s.timers :=
  (mem_timersOf.mp (agenda.timers ▸ List.mem_append_right _ (List.mem_singleton.mpr rfl))).1

theorem mem_score (agenda : s.Agenda plan score played waiting) (here : cue ∈ waiting) :
    cue.1 ∈ score ∧ cue.2 < score.length := by
  have inside := agenda.whole.mem_iff.mp (List.mem_append_right _ here)
  exact ⟨List.fst_mem_of_mem_zipIdx inside, by simpa using (List.mem_zipIdx inside).2.1⟩

/-- A timer of the playback is that of a unit or the completion. -/
theorem cases (agenda : s.Agenda plan score played waiting) {timer : Timer}
    (waits : timer ∈ s.timers) (mine : timer.owner = plan.owner) :
    (∃ cue ∈ waiting, timer = plan.unit cue) ∨ timer = plan.last score := by
  have here := mem_timersOf.mpr ⟨waits, mine⟩
  rw [agenda.timers] at here
  exact Plan.cases here

/-- The completion finds no unit waiting. -/
theorem last_alone (agenda : s.Agenda plan score played waiting) (tracks : s.Tracks)
    (measured : ∀ event ∈ score, event.Measured plan.scale plan.tempo)
    (first : (plan.last score).First s.timers) : waiting = [] := by
  apply List.eq_nil_iff_forall_not_mem.mpr
  intro cue here
  -- A unit that still waits comes no later and is older, so it would have been first.
  obtain ⟨member, place⟩ := agenda.mem_score here
  have early : (plan.unit cue).due ≤ (plan.last score).due :=
    Binary64.add_le_add_left (measured _ member).comes_finite
      (Music.comes_le_lasts measured member) first.comes
  have older : (plan.unit cue).id < (plan.last score).id := Nat.add_lt_add_left place plan.first
  exact first.older tracks.aged (agenda.unit_waits here) older early

theorem waiting_aged (agenda : s.Agenda plan score played waiting) (tracks : s.Tracks) :
    waiting.Pairwise fun a b => a.2 < b.2 := by
  obtain ⟨units, _, _⟩ := List.pairwise_append.mp (agenda.aged tracks)
  exact (List.pairwise_map.mp units).imp fun less => Nat.lt_of_add_lt_add_left less

/-- A unit that is due first is to be played before all others that wait. -/
theorem sooner (agenda : s.Agenda plan score played waiting) (tracks : s.Tracks)
    (measured : ∀ event ∈ score, event.Measured plan.scale plan.tempo)
    (first : (plan.unit cue).First s.timers) (there : other ∈ waiting)
    (different : other.2 ≠ cue.2) : plan.Sooner cue other := by
  have waits := agenda.unit_waits there
  have number : (plan.unit other).due ≤ (plan.unit other).due :=
    Binary64.add_number (Binary64.number_of_add first.comes)
      (measured _ (agenda.mem_score there).1).comes_finite
  rcases Nat.lt_or_gt_of_ne different with older | younger
  · have late := first.older tracks.aged waits (Nat.add_lt_add_left older plan.first)
    exact .inl (Binary64.lt_of_not_le first.comes number late)
  · exact .inr ⟨Binary64.le_of_not_lt first.comes number (first.least waits), younger⟩

/-- When the unit that is due first is taken off the others stay. -/
theorem plays (agenda : s.Agenda plan score played waiting) (tracks : s.Tracks)
    (measured : ∀ event ∈ score, event.Measured plan.scale plan.tempo) (here : cue ∈ waiting)
    (first : (plan.unit cue).First s.timers)
    (left : t.timersOf plan.owner =
      (s.timersOf plan.owner).filter (·.id ≠ (plan.unit cue).id)) :
    ∃ waiting, t.Agenda plan score (played ++ [cue]) waiting := by
  have aged := agenda.aged tracks
  obtain ⟨before, after, rfl⟩ := List.append_of_mem here
  -- Its place in the queue tells which of the others are older and which are younger.
  refine ⟨before ++ after, ?_, ?_, ?_, ?_⟩
  · rw [left, agenda.timers]
    simp only [List.map_append, List.map_cons, List.append_assoc, List.cons_append] at aged ⊢
    exact filter_ids aged
  · refine .trans ?_ agenda.whole
    simpa using List.Perm.append_left played List.perm_middle.symm
  · refine List.pairwise_append.mpr ⟨agenda.ordered, List.pairwise_singleton _ _, ?_⟩
    intro a old b new
    rw [List.mem_singleton.mp new]
    exact agenda.ahead a old cue here
  · intro a old b new
    have waits : b ∈ before ++ cue :: after := by
      rcases List.mem_append.mp new with here | here
      · exact List.mem_append_left _ here
      · exact List.mem_append_right _ (List.mem_cons_of_mem _ here)
    rcases List.mem_append.mp old with old | last
    · exact agenda.ahead a old b waits
    · rw [List.mem_singleton.mp last]
      refine agenda.sooner tracks measured first waits ?_
      obtain ⟨_, young, across⟩ := List.pairwise_append.mp (agenda.waiting_aged tracks)
      rcases List.mem_append.mp new with older | younger
      · exact Nat.ne_of_lt (across b older cue (by simp))
      · exact Nat.ne_of_gt ((List.pairwise_cons.mp young).1 b younger)

theorem congr (agenda : s.Agenda plan score played waiting)
    (timers : t.timersOf plan.owner = s.timersOf plan.owner) :
    t.Agenda plan score played waiting :=
  ⟨timers.trans agenda.timers, agenda.whole, agenda.ordered, agenda.ahead⟩

end Agenda

/-- All units of a playback that has just been started are still to come. -/
theorem Started.agenda {plan : Plan} {engine : Option Nat} {callback : Option Callback}
    {score : Music} (started : Started plan engine callback score s t)
    (run : Reaches order .initial s) (owner : plan.owner = s.playbacks.length) :
    t.Agenda plan score [] score.zipIdx := by
  have before := run.leads.spares .initial (Nat.le_of_eq owner.symm)
  have idle : s.timersOf plan.owner = [] := before.timers.trans (by simp [timersOf, initial])
  have mine : (plan.units score ++ [plan.last score]).filter (·.owner = plan.owner) =
      plan.units score ++ [plan.last score] := by
    apply List.filter_eq_self.mpr
    intro timer here
    exact decide_eq_true (plan.owned score _ timer here).1
  refine ⟨?_, .rfl, .nil, by simp⟩
  rw [timersOf, started.timers, List.filter_append, mine, ← timersOf, idle]
  rfl

end Stage
end Solfege
