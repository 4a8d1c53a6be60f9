import Solfege.Proofs.Playback.Mirrors

/-! Timers that run on two stages one of which has the playbacks that are kept of the other. Those
of the playbacks that are kept run on both, at the same times and to the same effect, and those of
the others go unseen. -/
namespace Solfege
namespace Stage

/-- A playback and its place among those that are kept, or two that are yet to come. -/
def Linked (kept : List Nat) (s : Stage) (j i : Nat) : Prop :=
  kept[j]? = some i ∨ kept[j]? = none ∧ s.face i = none

variable {gone lost : String → Bool} {kept : List Nat} {s t u v : Stage} {i j : Nat} {f : Face}
  {timer : Timer}

theorem Mirrors.face_linked (mirrors : Mirrors gone lost kept s t) (linked : Linked kept s j i) :
    t.face j = s.face i := by
  rcases linked with link | ⟨none, missing⟩
  · exact mirrors.face_eq link
  · rw [mirrors.faces, none, missing, Option.bind_none]

/-- What comes of letting timers run on two stages one of which has the playbacks that are kept of
the other. -/
structure Drains (gone lost : String → Bool) (kept : List Nat) (s : Stage)
    (here there : Except Fault Unit × Stage) (moments others : List Moment) : Prop where
  mirrors : Mirrors gone lost kept here.2 there.2
  outcome : there.1 = here.1
  clock : ∀ fault, here.1 = .error fault → there.2.clock = here.2.clock
  accounts : ∀ j i, Linked kept s j i → Moment.account moments i = Moment.account others j

/-- What comes of a timer that runs on one of the stages, or of twins that run on both. -/
structure Follows (gone lost : String → Bool) (kept : List Nat) (s u v : Stage)
    (moments others : List Moment) : Prop where
  mirrors : Mirrors gone lost kept u v
  linked : ∀ {j i}, Linked kept s j i → Linked kept u j i
  accounts : ∀ j i, Linked kept s j i → Moment.account moments i = Moment.account others j

theorem Follows.drains {here there : Except Fault Unit × Stage}
    {moments others later after : List Moment} (first : Follows gone lost kept s u v moments others)
    (rest : Drains gone lost kept u here there later after) :
    Drains gone lost kept s here there (moments ++ later) (others ++ after) where
  mirrors := rest.mirrors
  outcome := rest.outcome
  clock := rest.clock
  accounts j i linked := by
    rw [Moment.account_append, Moment.account_append, first.accounts j i linked,
      rest.accounts j i (first.linked linked)]

theorem Linked.owner (linked : Linked kept s j i) (mirrors : Mirrors gone lost kept s t)
    {twin : Timer} (same : timer.Twin kept twin) (seen : s.face timer.owner = some f) :
    i = timer.owner ↔ j = twin.owner := by
  rcases linked with link | ⟨none, missing⟩
  · constructor
    · rintro rfl
      exact mirrors.place_eq same.owner link
    · rintro rfl
      exact Option.some.inj (link.symm.trans same.owner)
  · constructor
    · rintro rfl
      rw [seen] at missing
      cases missing
    · rintro rfl
      rw [same.owner] at none
      cases none

theorem Fires.linked (fires : Fires timer f s u) (seen : s.face timer.owner = some f)
    (linked : Linked kept s j i) : Linked kept u j i := by
  rcases linked with link | ⟨none, missing⟩
  · exact .inl link
  · refine .inr ⟨none, ?_⟩
    rw [fires.others i (by rintro rfl; simp [seen] at missing), missing]

namespace Mirrors

/-- Where no timer is due on one stage none is on the other. -/
theorem idle {time : Binary64} (mirrors : Mirrors gone lost kept s t)
    (idle : nextDue? time s.timers = none) : nextDue? time t.timers = none := by
  cases found : nextDue? time t.timers with
  | none => rfl
  | some twin =>
    obtain ⟨timer, here, same⟩ := Timer.Twin.model mirrors.timers twin (nextDue?_first found).waits
    have due := nextDue?_due found
    rw [same.due] at due
    exact absurd due (nextDue?_eq_none idle timer (List.mem_filter.mp here).1)

theorem account_unseen (orderly : s.Orderly) (later : u.Orderly) (away : timer.owner ∉ kept)
    (seen : s.face timer.owner = some f) (fires : Fires timer f s u) (linked : Linked kept s j i) :
    Moment.account [⟨some timer, s, u⟩] i = Moment.account [] i := by
  have other : i ≠ timer.owner := by
    rintro rfl
    rcases linked with link | ⟨_, missing⟩
    · exact away (List.mem_of_getElem? link)
    · rw [seen] at missing
      cases missing
  apply Moment.account_still orderly later (fires.others i other)
  rw [fires.notes, if_neg other]

theorem account_twin {twin : Timer} (mirrors : Mirrors gone lost kept s t) (here : s.Orderly)
    (later : u.Orderly) (there : t.Orderly) (after : v.Orderly) (same : timer.Twin kept twin)
    (seen : s.face timer.owner = some f) (fires : Fires timer f s u) (also : Fires twin f t v)
    (linked : Linked kept s j i) :
    Moment.account [⟨some timer, s, u⟩] i = Moment.account [⟨some twin, t, v⟩] j := by
  have owner := linked.owner mirrors same seen
  have was := mirrors.face_linked linked
  apply Moment.account_congr here later there after was.symm
  · by_cases mine : i = timer.owner
    · dsimp only
      rw [mine, fires.face, owner.mp mine, also.face, same.task]
    · dsimp only
      rw [fires.others i mine, also.others j fun place => mine (owner.mpr place), was]
  · exact fires.clock.trans (same.due.symm.trans also.clock.symm)
  · rw [fires.notes, also.notes, same.due, same.task]
    simp only [owner]

/-- A timer of a playback that is not kept runs unseen. -/
theorem fire_unseen (mirrors : Mirrors gone lost kept s t) (here : s.Orderly)
    (waiting : timer ∈ s.timers) (away : timer.owner ∉ kept) (deep : Nat) :
    let fired := Act.fire (Act.perform (deep + 1)) timer s
    fired.1 = .ok () ∧ Follows gone lost kept s fired.2 t [⟨some timer, s, fired.2⟩] [] := by
  obtain ⟨f, seen, answers, fires⟩ := here.runs waiting deep
  have harmless := mirrors.hidden _ f away seen
  refine ⟨answers.trans (harmless.answers _), ?_, fires.linked seen, fun j i linked => ?_⟩
  · exact mirrors.unseen fires.alters away (harmless.after _)
      (fun id used => harmless.renames _ _ id used) (filter_away here.tracks waiting away)
  · exact account_unseen here (here.fire waiting deep) away seen fires linked

/-- The timer that is due next, if it is that of a playback that is kept, has a twin that is due
next on the other stage and does the same there. -/
theorem fire_twin {time : Binary64} (mirrors : Mirrors gone lost kept s t) (here : s.Orderly)
    (there : t.Orderly) (next : nextDue? time s.timers = some timer) (mine : timer.owner ∈ kept)
    (deep depth : Nat) :
    ∃ twin, nextDue? time t.timers = some twin ∧
      let fired := Act.fire (Act.perform (deep + 1)) timer s
      let also := Act.fire (Act.perform (depth + 1)) twin t
      also.1 = fired.1 ∧ also.2.clock = fired.2.clock ∧
        Follows gone lost kept s fired.2 also.2 [⟨some timer, s, fired.2⟩]
          [⟨some twin, t, also.2⟩] := by
  have first := nextDue?_first next
  obtain ⟨twin, waits, same, twins⟩ := mirrors.first_twin here.tracks there.tracks first mine
  obtain ⟨f, seen, answers, fires⟩ := here.runs first.waits deep
  obtain ⟨g, looks, replies, runs⟩ := there.runs waits.waits depth
  cases looks.symm.trans ((mirrors.face_eq same.owner).trans seen)
  have following : nextDue? time t.timers = some twin :=
    nextDue?_of_first waits (same.due ▸ nextDue?_due next) (Tracked.aged there.tracks)
  have changes := runs.alters
  rw [same.task, same.due] at changes
  rw [same.task, ← answers] at replies
  refine ⟨twin, following, replies, ?_, ?_, fires.linked seen, fun j i linked => ?_⟩
  · exact runs.clock.trans (same.due.trans fires.clock.symm)
  · exact mirrors.alters same.owner fires.alters changes twins
  · exact mirrors.account_twin here (here.fire first.waits deep) there
      (there.fire waits.waits depth) same seen fires runs linked

theorem drains_idle {perform other : Performer} {time : Binary64}
    (mirrors : Mirrors gone lost kept s t) (idle : nextDue? time s.timers = none)
    (bound limit : Nat) :
    Drains gone lost kept s (Act.drain perform time bound s) (Act.drain other time limit t)
      (Act.drained perform time bound s) (Act.drained other time limit t) := by
  obtain ⟨done, moments⟩ := Act.drain_idle perform idle bound
  obtain ⟨ends, others⟩ := Act.drain_idle other (mirrors.idle idle) limit
  rw [done, moments, ends, others]
  exact ⟨mirrors, rfl, fun _ failed => (nomatch failed), fun _ _ _ => rfl⟩

theorem drains (deep depth : Nat) (time : Binary64) {bound limit : Nat} (here : s.Orderly)
    (there : t.Orderly) (mirrors : Mirrors gone lost kept s t) (enough : s.timers.length ≤ bound)
    (ample : t.timers.length ≤ limit) :
    Drains gone lost kept s (Act.drain (Act.perform (deep + 1)) time bound s)
      (Act.drain (Act.perform (depth + 1)) time limit t)
      (Act.drained (Act.perform (deep + 1)) time bound s)
      (Act.drained (Act.perform (depth + 1)) time limit t) := by
  -- the induction is on the timers that may run on the stage with more of them
  induction bound generalizing s t limit with
  | zero =>
    have idle : nextDue? time s.timers = none := by
      rw [List.eq_nil_of_length_eq_zero (Nat.le_zero.mp enough)]
      rfl
    exact mirrors.drains_idle idle 0 limit
  | succ bound ih =>
    cases next : nextDue? time s.timers with
    | none => exact mirrors.drains_idle next (bound + 1) limit
    | some timer =>
      have waiting := (nextDue?_first next).waits
      have fired := here.fire waiting deep
      have fewer := here.fire_fewer waiting enough deep
      by_cases mine : timer.owner ∈ kept
      · obtain ⟨twin, following, outcomes, clocks, follows⟩ :=
          mirrors.fire_twin here there next mine deep depth
        have waits := (nextDue?_first following).waits
        obtain ⟨limit, rfl⟩ : ∃ rest, limit = rest + 1 :=
          ⟨limit - 1, by have := List.length_pos_of_mem waits; omega⟩
        cases outcome : (Act.fire (Act.perform (deep + 1)) timer s).1 with
        | error fault =>
          obtain ⟨done, moments⟩ := Act.drain_error next outcome bound
          obtain ⟨ends, others⟩ := Act.drain_error following (outcomes.trans outcome) limit
          rw [done, moments, ends, others]
          exact ⟨follows.mirrors, rfl, fun _ _ => clocks, follows.accounts⟩
        | ok =>
          obtain ⟨done, moments⟩ := Act.drain_ok next outcome bound
          obtain ⟨goes, others⟩ := Act.drain_ok following (outcomes.trans outcome) limit
          rw [done, moments, goes, others]
          exact follows.drains (ih fired (there.fire waits depth) follows.mirrors fewer
            (there.fire_fewer waits ample depth))
      · obtain ⟨calm, follows⟩ := mirrors.fire_unseen here waiting mine deep
        obtain ⟨done, moments⟩ := Act.drain_ok next calm bound
        rw [done, moments]
        exact follows.drains (ih fired there follows.mirrors fewer ample)

end Mirrors

end Stage
end Solfege
