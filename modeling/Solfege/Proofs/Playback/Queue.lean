import Mathlib.Data.List.Nodup
import Solfege.Proofs.Binary64.Order
import Solfege.Proofs.Playback.Run

/-! The queue of waiting timers. The one that is taken next is due first, and an advance takes none
that another order would keep back. -/
namespace Solfege

namespace Timer.First
variable {timers rest : List Timer} {timer other : Timer} {time : Binary64}

theorem waits (first : timer.First timers) : timer ∈ timers := by
  obtain ⟨older, newer, rfl, _⟩ := first.place
  simp

theorem least (first : timer.First timers) (waiting : other ∈ timers) :
    ¬ other.due < timer.due := by
  obtain ⟨older, newer, rfl, before, after⟩ := first.place
  rw [List.mem_append, List.mem_cons] at waiting
  rcases waiting with old | rfl | new
  · exact fun less => before other old (Binary64.le_of_lt less)
  · exact Binary64.lt_irrefl _
  · exact after other new

/-- A timer that is due first leaves none that is older and due by then. -/
theorem older (first : timer.First timers) (aged : timers.Pairwise fun a b => a.id < b.id)
    (waiting : other ∈ timers) (older : other.id < timer.id) : ¬ other.due ≤ timer.due := by
  obtain ⟨old, new, rfl, before, _⟩ := first.place
  obtain ⟨_, young, _⟩ := List.pairwise_append.mp aged
  rcases List.mem_append.mp waiting with here | here
  · exact before other here
  · rcases List.mem_cons.mp here with rfl | here
    · omega
    · have younger := (List.pairwise_cons.mp young).1 other here
      omega

theorem head (comes : timer.due ≤ timer.due) (after : ∀ other ∈ rest, ¬ other.due < timer.due) :
    timer.First (timer :: rest) :=
  ⟨comes, [], rest, rfl, by simp, after⟩

theorem cons (first : timer.First rest) (later : timer.due < other.due) :
    timer.First (other :: rest) := by
  obtain ⟨older, newer, rfl, before, after⟩ := first.place
  refine ⟨first.comes, other :: older, newer, rfl, ?_, after⟩
  intro old waiting
  rcases List.mem_cons.mp waiting with rfl | old
  · exact fun le => Binary64.not_lt_of_le le later
  · exact before _ old

/-- Timers that are not due yet hold up none that is. -/
theorem of_filter (first : timer.First (timers.filter fun timer => timer.due ≤ time)) :
    timer.First timers := by
  obtain ⟨older, newer, parts, before, after⟩ := first.place
  obtain ⟨old, later, rfl, rfl, tail⟩ := List.filter_eq_append_iff.mp parts
  obtain ⟨skipped, new, rfl, skips, due, rfl⟩ := List.filter_eq_cons_iff.mp tail
  have due : timer.due ≤ time := by simpa using due
  refine ⟨first.comes, old ++ skipped, new, by simp, ?_, ?_⟩
  · intro other waiting le
    have soon := Binary64.le_trans le due
    rcases List.mem_append.mp waiting with here | skip
    · exact before other (by simp [here, soon]) le
    · exact skips other skip (by simpa using soon)
  · intro other here less
    have soon := Binary64.le_trans (Binary64.le_of_lt less) due
    exact after other (by simp [here, soon]) less

/-- In a queue in order of time the first timer that is due is the oldest. -/
theorem head_of_sorted (first : timer.First timers)
    (sorted : timers.Pairwise fun a b => a.due ≤ b.due) : ∃ rest, timers = timer :: rest := by
  obtain ⟨older, newer, rfl, before, _⟩ := first.place
  cases older with
  | nil => exact ⟨newer, rfl⟩
  | cons head rest =>
    have early := (List.pairwise_cons.mp sorted).1 timer (by simp)
    exact absurd early (before head (by simp))

/-- No two timers are due first. -/
theorem unique (first : timer.First timers) (also : other.First timers)
    (aged : timers.Pairwise fun a b => a.id < b.id) : timer = other := by
  have here := Binary64.le_of_not_lt first.comes also.comes (first.least also.waits)
  have there := Binary64.le_of_not_lt also.comes first.comes (also.least first.waits)
  rcases Nat.lt_trichotomy timer.id other.id with old | same | new
  · exact absurd here (also.older aged first.waits old)
  · have unique : (timers.map Timer.id).Nodup := List.pairwise_map.mpr (aged.imp Nat.ne_of_lt)
    exact List.inj_on_of_nodup_map unique first.waits also.waits same
  · exact absurd there (first.older aged also.waits new)

theorem filter {p : Timer → Bool} (first : timer.First timers) (stays : p timer = true) :
    timer.First (timers.filter p) := by
  obtain ⟨older, newer, rfl, before, after⟩ := first.place
  refine ⟨first.comes, older.filter p, newer.filter p, ?_, ?_, ?_⟩
  · rw [List.filter_append, List.filter_cons_of_pos stays]
  · exact fun other here => before other (List.mem_filter.mp here).1
  · exact fun other here => after other (List.mem_filter.mp here).1

end Timer.First

namespace Stage
variable {timers rest : List Timer} {timer : Timer} {time : Binary64}

theorem soonest_eq_none : soonest timers = none ↔ timers = [] := by
  cases timers with
  | nil => simp [soonest]
  | cons timer rest =>
    unfold soonest
    split
    · simp
    · split <;> simp

theorem soonest_first (numbers : ∀ other ∈ timers, other.due ≤ other.due)
    (found : soonest timers = some timer) : timer.First timers := by
  induction timers generalizing timer with
  | nil => simp [soonest] at found
  | cons head rest ih =>
    have number : head.due ≤ head.due := numbers head (by simp)
    have numbers : ∀ other ∈ rest, other.due ≤ other.due := fun other here =>
      numbers other (by simp [here])
    unfold soonest at found
    split at found
    · rename_i last
      obtain rfl := soonest_eq_none.mp last
      cases found
      exact .head number (by simp)
    · rename_i other next
      have first := ih numbers next
      split at found
      · cases found
        exact first.cons ‹_›
      · rename_i notLess
        cases found
        refine .head number fun later here less => notLess ?_
        have least := Binary64.le_of_not_lt first.comes (numbers later here) (first.least here)
        exact Binary64.lt_of_le_of_lt least less

theorem nextDue?_first (found : nextDue? time timers = some timer) : timer.First timers :=
  .of_filter (soonest_first (fun other here =>
    Binary64.le_self_left (by simpa using (List.mem_filter.mp here).2)) found)

theorem nextDue?_eq_none (idle : nextDue? time timers = none) :
    ∀ timer ∈ timers, ¬ timer.due ≤ time := by
  intro timer here due
  have empty := soonest_eq_none.mp idle
  exact List.filter_eq_nil_iff.mp empty timer here (decide_eq_true due)

theorem nextDue?_due (found : nextDue? time timers = some timer) : timer.due ≤ time := by
  have first := soonest_first (fun other here =>
    Binary64.le_self_left (by simpa using (List.mem_filter.mp here).2)) found
  exact of_decide_eq_true (List.mem_filter.mp first.waits).2

/-- The timer that is due first is taken, once it is due. -/
theorem nextDue?_of_first (first : timer.First timers) (due : timer.due ≤ time)
    (aged : timers.Pairwise fun a b => a.id < b.id) : nextDue? time timers = some timer := by
  cases found : nextDue? time timers with
  | none => exact absurd due (nextDue?_eq_none found timer first.waits)
  | some other => rw [(nextDue?_first found).unique first aged]

/-- A timer that is taken off the queue is the only one. -/
theorem filter_ids {before after : List Timer}
    (aged : (before ++ timer :: after).Pairwise fun a b => a.id < b.id) :
    (before ++ timer :: after).filter (·.id ≠ timer.id) = before ++ after := by
  obtain ⟨_, young, across⟩ := List.pairwise_append.mp aged
  have old : before.filter (·.id ≠ timer.id) = before := by
    apply List.filter_eq_self.mpr
    intro other here
    have less := across other here timer (by simp)
    simp only [ne_eq, decide_not, Bool.not_eq_true', decide_eq_false_iff_not]
    omega
  have new : after.filter (·.id ≠ timer.id) = after := by
    apply List.filter_eq_self.mpr
    intro other here
    have less := (List.pairwise_cons.mp young).1 other here
    simp only [ne_eq, decide_not, Bool.not_eq_true', decide_eq_false_iff_not]
    omega
  rw [List.filter_append, old, List.filter_cons_of_neg (by simp), new]

end Stage

theorem Order.allows_of_nextDue? {order : Order} {timers : List Timer} {timer : Timer}
    {time : Binary64} (found : Stage.nextDue? time timers = some timer) :
    order.Allows timers timer := by
  have first := Stage.nextDue?_first found
  cases order with
  | any => exact first.waits
  | due => exact first

end Solfege
