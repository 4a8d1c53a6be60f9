import Mathlib.Logic.Relation
import Solfege.Proofs.Playback.Effect

/-! Every run is made of a few kinds of change, each a function of the stage that it finds. What
holds of the changes holds of the runs, callbacks within callbacks included. -/
namespace Solfege

/-- The playback that a happening is about. -/
def Happening.about? : Happening → Option Nat
  | .ran i _ | .ended i => some i
  | .triggered source .. => source
  | _ => none

namespace Playback
variable {p q r : Playback}

/-- A playback that has done nothing yet. -/
structure Fresh (p : Playback) : Prop where
  pending : p.pending = []
  notified : p.notified = false
  finished : p.finished = p.engine.isNone

/-- What a playback may become. -/
structure Ages (p q : Playback) : Prop where
  engine : q.engine = p.engine
  callback : q.callback = p.callback
  finished : p.finished = true → q.finished = true
  notified : p.notified = true → q.notified = true

theorem Ages.refl (p : Playback) : p.Ages p := ⟨rfl, rfl, id, id⟩

theorem Ages.trans (first : p.Ages q) (second : q.Ages r) : p.Ages r :=
  ⟨second.engine.trans first.engine, second.callback.trans first.callback,
    fun h => second.finished (first.finished h), fun h => second.notified (first.notified h)⟩

theorem ages_keep (p : Playback) (id : Nat) : p.Ages (p.keep id) :=
  ⟨rfl, rfl, fun h => h, fun h => h⟩

theorem ages_forget (p : Playback) (timer : Option Nat) : p.Ages (p.forget timer) :=
  ⟨rfl, rfl, fun h => h, fun h => h⟩

theorem ages_closed (p : Playback) : p.Ages p.closed := ⟨rfl, rfl, fun _ => rfl, fun _ => rfl⟩

theorem ages_modify {playbacks : List Playback} {change : Playback → Playback} {i : Nat}
    (j : Nat) (ages : ∀ p : Playback, p.Ages (change p)) (found : playbacks[i]? = some p) :
    ∃ q, (playbacks.modify j change)[i]? = some q ∧ p.Ages q := by
  rw [List.getElem?_modify, found]
  by_cases same : j = i
  · exact ⟨change p, by simp [same], ages p⟩
  · exact ⟨p, by simp [same], .refl p⟩

end Playback

namespace Stage

/-- A change that no playback and no timer notices. -/
structure Aside (s t : Stage) : Prop where
  nextTimer : t.nextTimer = s.nextTimer
  timers : t.timers = s.timers
  playbacks : t.playbacks = s.playbacks
  announced :
    t.announcements.map Announcement.playback = s.announcements.map Announcement.playback
  engines : s.engines.length ≤ t.engines.length
  journal : ∃ said, t.journal = s.journal ++ said ∧ ∀ happening ∈ said, happening.about? = none

/-- The changes that a run is made of while only playbacks from the number `n` on are being
started. -/
inductive Change (order : Order) (n : Nat) (s : Stage) : Stage → Prop
  | aside {t : Stage} : Aside s t → Change order n s t
  | join (p : Playback) : p.Fresh → Change order n s { s with playbacks := s.playbacks ++ [p] }
  | wait (timer : Timer) : n ≤ timer.owner → timer.owner < s.playbacks.length →
      timer.id = s.nextTimer → Change order n s (s.waiting timer)
  | sound (owner index : Nat) (event : Event) (seconds : Binary64) : n ≤ owner →
      owner < s.playbacks.length →
      Change order n s (s.numbered.sounded owner none index event seconds)
  | soundKept (owner index : Nat) (event : Event) (seconds : Binary64) : n ≤ owner →
      owner < s.playbacks.length →
      Change order n s ((s.numbered.sounded owner none index event seconds).kept owner s.nextTimer)
  | complete (owner : Nat) : n ≤ owner → owner < s.playbacks.length →
      Change order n s ((s.numbered.noted [.ran owner none]).completed owner)
  | keep {p : Playback} (owner id : Nat) : s.playbacks[owner]? = some p → p.notified = true →
      Change order n s (s.kept owner id)
  | fire (timer : Timer) : order.Allows s.timers timer → Change order n s (s.fired timer)
  | stop (i : Nat) : Change order n s (s.stopped i)

variable {order : Order} {n m i : Nat} {s t u : Stage} {p : Playback}

theorem completed_ages (j : Nat) (found : s.playbacks[i]? = some p) :
    ∃ q, (s.completed j).playbacks[i]? = some q ∧ p.Ages q := by
  rcases completed_cases s j with same | ⟨_, _, _, same⟩
  · rw [same]
    exact ⟨p, found, .refl p⟩
  · rw [same]
    exact Playback.ages_modify j Playback.ages_closed found

theorem fired_ages (timer : Timer) (found : s.playbacks[i]? = some p) :
    ∃ q, (s.fired timer).playbacks[i]? = some q ∧ p.Ages q := by
  rcases fired_cases s timer with ⟨index, event, seconds, same⟩ | same
  · rw [same, sounded_playbacks]
    exact Playback.ages_modify _ (fun p => p.ages_forget _) found
  · rw [same]
    exact completed_ages timer.owner found

theorem stopped_ages (j : Nat) (found : s.playbacks[i]? = some p) :
    ∃ q, (s.stopped j).playbacks[i]? = some q ∧ p.Ages q := by
  rcases stopped_cases s j with same | same | ⟨_, _, _, same⟩
  · rw [same]
    exact ⟨p, found, .refl p⟩
  · rw [same]
    exact ⟨p, found, .refl p⟩
  · rw [same]
    exact Playback.ages_modify j Playback.ages_closed found

theorem completed_engines (s : Stage) (j : Nat) : (s.completed j).engines = s.engines := by
  rcases completed_cases s j with same | ⟨_, _, _, same⟩ <;> rw [same]
  rfl

theorem fired_engines (s : Stage) (timer : Timer) :
    (s.fired timer).engines.length = s.engines.length := by
  rcases fired_cases s timer with ⟨index, event, seconds, same⟩ | same
  · rw [same]
    exact sounded_engines
  · rw [same, completed_engines]
    rfl

theorem stopped_engines (s : Stage) (j : Nat) : (s.stopped j).engines = s.engines := by
  rcases stopped_cases s j with same | same | ⟨_, _, _, same⟩ <;> rw [same]
  · rfl
  · rfl

namespace Change

/-- No change takes a playback away or makes it younger. -/
theorem ages (change : Change order n s t) (found : s.playbacks[i]? = some p) :
    ∃ q, t.playbacks[i]? = some q ∧ p.Ages q := by
  cases change with
  | aside aside => exact ⟨p, by rw [aside.playbacks, found], .refl p⟩
  | join q =>
    have bound := (List.getElem?_eq_some_iff.mp found).1
    exact ⟨p, by simpa [List.getElem?_append_left bound] using found, .refl p⟩
  | wait timer => exact Playback.ages_modify _ (fun p => p.ages_keep _) found
  | sound owner =>
    rw [sounded_playbacks]
    exact Playback.ages_modify owner (fun p => p.ages_forget none) found
  | soundKept owner =>
    rw [kept_playbacks, sounded_playbacks]
    obtain ⟨q, found, aged⟩ := Playback.ages_modify owner (fun p => p.ages_forget none) found
    obtain ⟨r, found, later⟩ := Playback.ages_modify owner (fun p => p.ages_keep _) found
    exact ⟨r, found, aged.trans later⟩
  | complete owner => exact completed_ages owner found
  | keep owner id => exact Playback.ages_modify owner (fun p => p.ages_keep id) found
  | fire timer => exact fired_ages timer found
  | stop j => exact stopped_ages j found

theorem length_le (change : Change order n s t) : s.playbacks.length ≤ t.playbacks.length := by
  rcases Nat.eq_zero_or_pos s.playbacks.length with none | pos
  · omega
  · have last : s.playbacks.length - 1 < s.playbacks.length := by omega
    obtain ⟨q, found, _⟩ := change.ages (List.getElem?_eq_getElem last)
    have := (List.getElem?_eq_some_iff.mp found).1
    omega

theorem engines_le (change : Change order n s t) : s.engines.length ≤ t.engines.length := by
  cases change with
  | aside aside => exact aside.engines
  | join p => exact Nat.le_refl _
  | wait timer => exact Nat.le_refl _
  | sound owner => exact Nat.le_of_eq (sounded_sounding s.numbered ..).engines.symm
  | soundKept owner => exact Nat.le_of_eq (sounded_sounding s.numbered ..).engines.symm
  | complete owner =>
    have same := completed_engines (s.numbered.noted [.ran owner none]) owner
    exact Nat.le_of_eq (congrArg List.length same).symm
  | keep owner id => exact Nat.le_refl _
  | fire timer => exact Nat.le_of_eq (fired_engines s timer).symm
  | stop j => exact Nat.le_of_eq (congrArg List.length (stopped_engines s j)).symm

theorem mono (bound : n ≤ m) (change : Change order m s t) : Change order n s t := by
  cases change with
  | aside aside => exact .aside aside
  | join p fresh => exact .join p fresh
  | wait timer own => exact .wait timer (Nat.le_trans bound own) ‹_› ‹_›
  | sound owner index event seconds own there =>
    exact .sound owner index event seconds (Nat.le_trans bound own) there
  | soundKept owner index event seconds own there =>
    exact .soundKept owner index event seconds (Nat.le_trans bound own) there
  | complete owner own there => exact .complete owner (Nat.le_trans bound own) there
  | keep owner id found done => exact .keep owner id found done
  | fire timer allowed => exact .fire timer allowed
  | stop i => exact .stop i

end Change

/-- Changes one after the other. -/
abbrev Changes (order : Order) (n : Nat) : Stage → Stage → Prop :=
  Relation.ReflTransGen (Change order n)

namespace Changes

theorem ages (changes : Changes order n s t) (found : s.playbacks[i]? = some p) :
    ∃ q, t.playbacks[i]? = some q ∧ p.Ages q := by
  induction changes with
  | refl => exact ⟨p, found, .refl p⟩
  | tail _ change ih =>
    obtain ⟨q, found, aged⟩ := ih
    obtain ⟨r, found, later⟩ := change.ages found
    exact ⟨r, found, aged.trans later⟩

theorem length_le (changes : Changes order n s t) : s.playbacks.length ≤ t.playbacks.length := by
  induction changes with
  | refl => exact Nat.le_refl _
  | tail _ change ih => exact Nat.le_trans ih change.length_le

theorem mono (bound : n ≤ m) (changes : Changes order m s t) : Changes order n s t :=
  Relation.ReflTransGen.mono (fun _ _ change => Change.mono bound change) _ _ changes

end Changes

/-- The changes from a stage on that start none of the playbacks that are there already. -/
def Leads (order : Order) (s t : Stage) : Prop := Changes order s.playbacks.length s t

namespace Leads

theorem refl (s : Stage) : Leads order s s := Relation.ReflTransGen.refl

theorem trans (first : Leads order s t) (second : Leads order t u) : Leads order s u :=
  Relation.ReflTransGen.trans first (second.mono first.length_le)

theorem aside (aside : Aside s t) : Leads order s t := .single (.aside aside)

end Leads
end Stage
end Solfege
