import Mathlib.Data.List.Nodup
import Solfege.Proofs.Playback.Simulation

/-! A playback that is not over knows its timers. What it keeps as pending covers its timers that
wait, and of the timers that wait it holds no other. -/
namespace Solfege

theorem Playback.forget_none (p : Playback) : p.forget none = p := by
  have all : p.pending.filter (fun id => some id ≠ none) = p.pending :=
    List.filter_eq_self.mpr (by simp)
  rw [forget, all]

theorem Order.Allows.waits {order : Order} {timers : List Timer} {timer : Timer}
    (allowed : order.Allows timers timer) : timer ∈ timers := by
  cases order with
  | any => exact allowed
  | due => exact Timer.First.waits allowed

/-- The timers that wait are numbered and owned, and a playback that is not over tracks its own. The
numbers that it keeps may include those of timers that ran at once. -/
structure Tracked (playbacks : List Playback) (next : Nat) (timers : List Timer) : Prop where
  aged : timers.Pairwise fun older newer => older.id < newer.id
  numbered : ∀ timer ∈ timers, timer.id < next
  owned : ∀ timer ∈ timers, timer.owner < playbacks.length
  covered : ∀ timer ∈ timers, ∀ p : Playback, playbacks[timer.owner]? = some p →
    p.notified = false → timer.id ∈ p.pending
  known : ∀ (i : Nat) (p : Playback), playbacks[i]? = some p → p.notified = false →
    ∀ id ∈ p.pending, id < next
  own : ∀ (i : Nat) (p : Playback), playbacks[i]? = some p → p.notified = false →
    ∀ timer ∈ timers, timer.id ∈ p.pending → timer.owner = i

namespace Tracked
variable {playbacks : List Playback} {next i : Nat} {timers fewer : List Timer} {timer : Timer}
  {p : Playback} {change : Playback → Playback}

theorem nil : Tracked [] 0 [] := by constructor <;> simp

/-- Numbers are unique. -/
theorem eq_of_id {other : Timer} (tracked : Tracked playbacks next timers) (here : timer ∈ timers)
    (there : other ∈ timers) (same : timer.id = other.id) : timer = other := by
  have unique : (timers.map Timer.id).Nodup := List.pairwise_map.mpr (tracked.aged.imp Nat.ne_of_lt)
  exact List.inj_on_of_nodup_map unique here there same

theorem number (tracked : Tracked playbacks next timers) : Tracked playbacks (next + 1) timers :=
  { tracked with
    numbered := fun timer here => Nat.lt_succ_of_lt (tracked.numbered timer here)
    known := fun i p found live id kept =>
      Nat.lt_succ_of_lt (tracked.known i p found live id kept) }

/-- Timers may be taken off or cancelled. -/
theorem sublist (tracked : Tracked playbacks next timers) (left : fewer.Sublist timers) :
    Tracked playbacks next fewer where
  aged := tracked.aged.sublist left
  numbered timer here := tracked.numbered timer (left.subset here)
  owned timer here := tracked.owned timer (left.subset here)
  covered timer here := tracked.covered timer (left.subset here)
  known := tracked.known
  own i p found live timer here := tracked.own i p found live timer (left.subset here)

theorem join (tracked : Tracked playbacks next timers) (fresh : p.pending = []) :
    Tracked (playbacks ++ [p]) next timers := by
  have joined {j : Nat} {q : Playback} (found : (playbacks ++ [p])[j]? = some q) :
      playbacks[j]? = some q ∨ q.pending = [] := by
    grind
  refine ⟨tracked.aged, tracked.numbered, fun timer here => ?_, fun timer here q found live => ?_,
    fun j q found live id kept => ?_, fun j q found live timer here kept => ?_⟩
  · rw [List.length_append]
    exact Nat.lt_add_right _ (tracked.owned timer here)
  · rw [List.getElem?_append_left (tracked.owned timer here)] at found
    exact tracked.covered timer here q found live
  · rcases joined found with old | none
    · exact tracked.known j q old live id kept
    · simp [none] at kept
  · rcases joined found with old | none
    · exact tracked.own j q old live timer here kept
    · simp [none] at kept

theorem modified {j : Nat} {q : Playback} (found : (playbacks.modify i change)[j]? = some q) :
    j ≠ i ∧ playbacks[j]? = some q ∨ j = i ∧ ∃ p, playbacks[j]? = some p ∧ q = change p := by
  grind

/-- A playback that is over keeps nothing in order any more. -/
theorem close (tracked : Tracked playbacks next timers)
    (done : ∀ p, playbacks[i]? = some p → (change p).notified = true) :
    Tracked (playbacks.modify i change) next timers := by
  have live {j : Nat} {q : Playback} (found : (playbacks.modify i change)[j]? = some q)
      (live : q.notified = false) : playbacks[j]? = some q := by
    rcases modified found with ⟨_, same⟩ | ⟨rfl, p, here, rfl⟩
    · exact same
    · simp [done p here] at live
  exact {
    tracked with
    owned := by simpa using tracked.owned
    covered := fun timer here q found open_ => tracked.covered timer here q (live found open_) open_
    known := fun j q found open_ => tracked.known j q (live found open_) open_
    own := fun j q found open_ => tracked.own j q (live found open_) open_ }

/-- The number of a timer that ran at once is kept, and no timer has it. -/
theorem keep (tracked : Tracked playbacks next timers) :
    Tracked (playbacks.modify i (·.keep next)) (next + 1) timers := by
  have kept {j : Nat} {q : Playback} (found : (playbacks.modify i (·.keep next))[j]? = some q)
      (live : q.notified = false) : ∃ p, playbacks[j]? = some p ∧ p.notified = false ∧
        ∀ id, id ∈ q.pending → id ∈ p.pending ∨ id = next := by
    rcases modified found with ⟨_, same⟩ | ⟨rfl, p, here, rfl⟩
    · exact ⟨q, same, live, fun id => .inl⟩
    · exact ⟨p, here, live, fun id => by simp⟩
  refine ⟨tracked.aged, fun timer here => Nat.lt_succ_of_lt (tracked.numbered timer here),
    by simpa using tracked.owned, fun timer here q found live => ?_,
    fun j q found live id here => ?_, fun j q found live timer here mine => ?_⟩
  · rcases modified found with ⟨_, same⟩ | ⟨_, p, same, rfl⟩
    · exact tracked.covered timer here q same live
    · exact List.mem_append_left _ (tracked.covered timer here p same live)
  · obtain ⟨p, old, live, new⟩ := kept found live
    rcases new id here with before | rfl
    · exact Nat.lt_succ_of_lt (tracked.known j p old live id before)
    · exact Nat.lt_succ_self _
  · obtain ⟨p, old, live, new⟩ := kept found live
    rcases new timer.id mine with before | same
    · exact tracked.own j p old live timer here before
    · exact absurd (tracked.numbered timer here) (by omega)

/-- A timer that begins to wait has the next number and is kept by its owner. -/
theorem wait (tracked : Tracked playbacks next timers) (number : timer.id = next)
    (owned : timer.owner < playbacks.length) :
    Tracked (playbacks.modify timer.owner (·.keep timer.id)) (next + 1) (timers ++ [timer]) := by
  have kept := tracked.keep (i := timer.owner)
  rw [number]
  have waits {other : Timer} (here : other ∈ timers ++ [timer]) :
      other ∈ timers ∨ other = timer := by
    simpa using here
  refine ⟨?_, fun other here => ?_, fun other here => ?_, fun other here q found live => ?_,
    kept.known, fun j q found live other here mine => ?_⟩
  · refine List.pairwise_append.mpr ⟨tracked.aged, List.pairwise_singleton _ _, ?_⟩
    intro older here newer last
    rw [List.mem_singleton.mp last, number]
    exact tracked.numbered older here
  · rcases waits here with old | rfl
    · exact kept.numbered other old
    · omega
  · rcases waits here with old | rfl
    · exact kept.owned other old
    · simpa using owned
  · rcases waits here with old | rfl
    · exact kept.covered other old q found live
    · rcases modified found with ⟨different, _⟩ | ⟨_, p, _, rfl⟩
      · exact absurd rfl different
      · simp [number]
  · rcases waits here with old | rfl
    · exact kept.own j q found live other old mine
    · rcases modified found with ⟨_, same⟩ | ⟨rfl, _⟩
      · exact absurd (tracked.known j q same live _ mine) (by omega)
      · rfl

/-- A unit that runs gives up its own number and no other. -/
theorem forget (tracked : Tracked playbacks next timers) :
    Tracked (playbacks.modify timer.owner (·.forget (some timer.id))) next
      (timers.filter (·.id ≠ timer.id)) := by
  have left := tracked.sublist (List.filter_sublist (p := fun other : Timer => other.id ≠ timer.id))
  refine ⟨left.aged, left.numbered, by simpa using left.owned, fun other here q found live => ?_,
    fun j q found live id kept => ?_, fun j q found live other here mine => ?_⟩
  · rcases modified found with ⟨_, same⟩ | ⟨_, p, same, rfl⟩
    · exact left.covered other here q same live
    · have different : other.id ≠ timer.id := by simpa using (List.mem_filter.mp here).2
      exact List.mem_filter.mpr ⟨left.covered other here p same live, by simpa using different⟩
  · rcases modified found with ⟨_, same⟩ | ⟨_, p, same, rfl⟩
    · exact left.known j q same live id kept
    · exact left.known j p same live id (List.mem_filter.mp kept).1
  · rcases modified found with ⟨_, same⟩ | ⟨_, p, same, rfl⟩
    · exact left.own j q same live other here mine
    · exact left.own j p same live other here (List.mem_filter.mp mine).1

end Tracked

namespace Stage
variable {order : Order} {n i : Nat} {s t : Stage} {p : Playback}

/-- Whether the timers of a stage are tracked. -/
def Tracks (s : Stage) : Prop := Tracked s.playbacks s.nextTimer s.timers

namespace Tracks

theorem ends (tracks : s.Tracks) (i : Nat) (p : Playback) : (s.ended i p).Tracks :=
  Tracked.close tracks fun _ _ => rfl

theorem completes (tracks : s.Tracks) (i : Nat) : (s.completed i).Tracks := by
  rcases completed_cases s i with same | ⟨p, _, _, same⟩
  · rw [same]
    exact tracks
  · rw [same]
    exact tracks.ends i p

theorem stops (tracks : s.Tracks) (i : Nat) : (s.stopped i).Tracks := by
  rcases stopped_cases s i with same | same | ⟨p, _, _, same⟩
  · rw [same]
    exact tracks
  · rw [same]
    exact tracks
  · have cancelled : (s.cancelTimers p.pending).Tracks :=
      Tracked.sublist tracks List.filter_sublist
    rw [same]
    exact cancelled.ends (s := (s.cancelTimers p.pending).noted _) i p

theorem fires (tracks : s.Tracks) (timer : Timer) : (s.fired timer).Tracks := by
  rcases fired_cases s timer with ⟨index, event, seconds, same⟩ | same
  · rw [same, Tracks, sounded_playbacks, sounded_nextTimer, sounded_timers]
    exact Tracked.forget tracks
  · have taken : (s.taken timer).Tracks := Tracked.sublist tracks List.filter_sublist
    rw [same]
    exact completes (s := (s.taken timer).noted _) taken timer.owner

theorem sounded_none (s : Stage) (owner index : Nat) (event : Event) (seconds : Binary64) :
    (s.sounded owner none index event seconds).playbacks = s.playbacks := by
  rw [sounded_playbacks]
  simp only [Playback.forget_none]
  exact List.modify_id ..

/-- Every change keeps track of the timers. -/
theorem change (tracks : s.Tracks) (change : Change order n s t) : t.Tracks := by
  cases change with
  | aside aside =>
    unfold Tracks
    rw [aside.playbacks, aside.nextTimer, aside.timers]
    exact tracks
  | join p fresh => exact Tracked.join tracks fresh.pending
  | wait timer _ there number =>
    rw [Tracks, waiting_playbacks, waiting_nextTimer, waiting_timers]
    exact Tracked.wait tracks number there
  | sound owner index event seconds =>
    rw [Tracks, sounded_none, sounded_nextTimer, sounded_timers]
    exact Tracked.number tracks
  | soundKept owner index event seconds =>
    rw [Tracks, kept_playbacks, kept_nextTimer, kept_timers, sounded_none, sounded_nextTimer,
      sounded_timers]
    exact Tracked.keep tracks
  | complete owner =>
    exact completes (s := s.numbered.noted _) (Tracked.number tracks) owner
  | keep owner id found done =>
    refine Tracked.close tracks fun q here => ?_
    cases found.symm.trans here
    exact done
  | fire timer => exact tracks.fires timer
  | stop i => exact tracks.stops i

theorem changes (tracks : s.Tracks) (changes : Changes order n s t) : t.Tracks := by
  induction changes with
  | refl => exact tracks
  | tail _ change ih => exact ih.change change

theorem initial : Tracks .initial := Tracked.nil

theorem of_run (run : Reaches order .initial s) : s.Tracks := initial.changes run.leads

end Tracks
end Stage
end Solfege
