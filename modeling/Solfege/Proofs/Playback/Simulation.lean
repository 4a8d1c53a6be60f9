import Solfege.Proofs.Playback.Change
import Solfege.Proofs.Playback.Queue

/-! Every act is made of changes, provided that the code of the callbacks is. So is every run. -/
namespace Solfege

/-- An act is made of changes that start none of the playbacks that it finds. -/
def Act.Walks {α : Type} (order : Order) (act : Act α) : Prop := ∀ s, Stage.Leads order s (act s).2

/-- Code of callbacks that is made of changes. -/
def Performer.Walks (order : Order) (perform : Performer) : Prop :=
  ∀ place program, Act.Walks order (perform place program)

open Stage

namespace Act.Walks
variable {α β : Type} {order : Order} {act : Act α} {f : α → Act β}

theorem bind (first : Walks order act) (rest : ∀ a, Walks order (f a)) :
    Walks order (act >>= f) := by
  intro s
  rw [bind_stage]
  cases (act s).1 with
  | error fault => exact first s
  | ok a => exact (first s).trans (rest a _)

theorem reads {f : Stage → Act α} (rest : ∀ s, Walks order (f s)) : Walks order (get >>= f) :=
  fun s => rest s s

theorem stays (same : ∀ s, (act s).2 = s) : Walks order act := fun s => by
  rw [same]
  exact .refl s

theorem asides (aside : ∀ s, Aside s (act s).2) : Walks order act := fun s => .aside (aside s)

theorem pure (a : α) : Walks order (pure a : Act α) := .stays fun _ => rfl

theorem ofExcept (outcome : Except Fault α) : Walks order (ofExcept outcome) := .stays fun _ => rfl

end Act.Walks

namespace Stage.Aside
variable {s t : Stage}

/-- Happenings that are about no playback are asides, and so is a new use of the clock, of names and
of engines that are there. -/
theorem of_said (said : List Happening) (aside : ∀ happening ∈ said, happening.about? = none) :
    Aside s { s with journal := s.journal ++ said } :=
  ⟨rfl, rfl, rfl, rfl, Nat.le_refl _, said, rfl, aside⟩

theorem of_sounding {names : List String} (sounding : Sounding none names s t) : Aside s t := by
  refine ⟨sounding.nextTimer, sounding.timers, sounding.playbacks, by rw [sounding.announcements],
    Nat.le_of_eq sounding.engines.symm, ?_⟩
  rcases sounding.journal with silent | ⟨start, duration, velocity, told⟩
  · exact ⟨[], by simpa using silent, by simp⟩
  · exact ⟨_, told, by simp [Happening.about?]⟩

theorem of_quiet (nextTimer : t.nextTimer = s.nextTimer) (timers : t.timers = s.timers)
    (playbacks : t.playbacks = s.playbacks) (announcements : t.announcements = s.announcements)
    (journal : t.journal = s.journal) (engines : s.engines.length ≤ t.engines.length) :
    Aside s t :=
  ⟨nextTimer, timers, playbacks, by rw [announcements], engines, [], by simpa using journal,
    by simp⟩

end Stage.Aside

namespace Act
variable {order : Order} {perform : Performer} {n owner : Nat} {s t u : Stage}

/-! Acts that only look something up or that no playback notices. -/

theorem playback_walks (i : Nat) : Walks order (playback i) := .stays fun s => by
  rw [playback_apply]
  cases s.playbacks[i]? <;> rfl

theorem engine_walks (e : Nat) : Walks order (engine e) := .stays fun s => by
  rw [engine_apply]
  cases s.engines[e]? <;> rfl

theorem playbackNamed_walks (id : String) : Walks order (playbackNamed id) :=
  .reads fun u => .stays fun s => by cases u.playbackNames.lookup id <;> rfl

theorem engineNamed_walks (id : String) : Walks order (engineNamed id) :=
  .reads fun u => .stays fun s => by cases u.engineNames.lookup id <;> rfl

theorem engineOf_walks (ref : EngineRef) : Walks order (engineOf ref) := by
  cases ref with
  | nothing => exact .pure none
  | named id => exact (engineNamed_walks id).bind fun _ => .pure _
  | ofPlayback id =>
    exact (playbackNamed_walks id).bind fun i => (playback_walks i).bind fun _ => .pure _

theorem engineFor_walks (wanted : String) (ref : EngineRef) : Walks order (engineFor wanted ref) :=
  (engineOf_walks ref).bind fun found => .stays fun s => by cases found <;> rfl

theorem startedAnswer_walks (i : Nat) (draws : Option Nat) : Walks order (startedAnswer i draws) :=
  (playback_walks i).bind fun _ => .pure _

theorem record_walks (said : List Happening) (aside : ∀ happening ∈ said, happening.about? = none) :
    Walks order (record said) := .asides fun _ => .of_said said aside

theorem build_walks (source : ScoreSource) : Walks order (build source) := by
  refine (record_walks _ ?_).bind fun _ => .ofExcept _
  cases source with
  | music given => simp
  | aural request options => simp
  | text shorthand =>
    dsimp only
    cases Shorthand.compile shorthand <;> simp [Shorthand.Compiled.happening, Happening.about?]

theorem addEngine_walks (recorder : Recorder) : Walks order (addEngine recorder) :=
  .asides fun _ => .of_quiet rfl rfl rfl rfl rfl (List.sublist_append_left ..).length_le

theorem addPlayback_walks (p : Playback) (fresh : p.Fresh) : Walks order (addPlayback p) :=
  fun _ => .single (.join p fresh)

theorem answer_walks (place : Nat) (outcome : Except Fault Answer) :
    Walks order (answer place outcome) := .asides fun s => by
  refine ⟨rfl, rfl, rfl, ?_, Nat.le_refl _, [], by simp [answer], by simp⟩
  apply List.ext_getElem?
  intro i
  simp only [answer, modify_apply, List.getElem?_map, List.getElem?_modify]
  cases s.announcements[i]? with
  | none => rfl
  | some announcement => by_cases here : place = i <;> simp [here]

theorem write_walks (e : Nat) : Walks order (write e) :=
  (engine_walks e).bind fun recorder =>
    (record_walks _ (by simp [Happening.about?])).bind fun _ => .ofExcept _

theorem render_walks (engine : Option Nat) (score : Music) (start tempo : Number) :
    Walks order (render engine score start tempo) := by
  refine (Walks.ofExcept _).bind fun scale => Walks.bind ?_ fun _ => .ofExcept _
  induction score with
  | nil => exact .pure ()
  | cons event rest ih =>
    exact (Walks.ofExcept _).bind fun seconds => (Walks.ofExcept _).bind fun delay =>
      (Walks.ofExcept _).bind fun start =>
        Walks.bind (.asides fun s => .of_sounding (trigger_sounding ..)) fun _ => ih

/-! Acts that may enter a callback. -/

theorem enters_leads (walks : perform.Walks order) (enters : Enters perform s t) :
    Leads order s t := by
  rcases enters with rfl | ⟨place, program, rfl⟩
  · exact .refl t
  · exact walks place program s

theorem stop_walks (walks : perform.Walks order) (i : Nat) : Walks order (stop perform i) :=
  fun s => .trans (.single (.stop i)) (enters_leads walks (stop_enters perform i s))

theorem fire_leads (walks : perform.Walks order) {timer : Timer}
    (allowed : order.Allows s.timers timer) : Leads order s (fire perform timer s).2 :=
  .trans (.single (.fire timer allowed)) (enters_leads walks (fire_enters perform timer s))

theorem completed_over (s : Stage) (there : owner < s.playbacks.length) :
    ∃ p, (s.completed owner).playbacks[owner]? = some p ∧ p.notified = true := by
  unfold completed
  rw [List.getElem?_eq_getElem there]
  dsimp only
  split
  · exact ⟨_, List.getElem?_eq_getElem there, ‹_›⟩
  · refine ⟨s.playbacks[owner].closed, ?_, rfl⟩
    rw [ended_playbacks, List.getElem?_modify_eq, List.getElem?_eq_getElem there]
    rfl

theorem completion_changes (walks : perform.Walks order) (own : n ≤ owner)
    (there : owner < s.playbacks.length) {t : Stage}
    (ran : (run perform owner none .completion s.numbered).2 = t) :
    Changes order n s t ∧ ∃ p, t.playbacks[owner]? = some p ∧ p.notified = true := by
  have entered := complete_enters perform owner (s.numbered.noted [.ran owner none])
  rw [← run_completion_apply _ _ none, ran] at entered
  have lead := enters_leads walks entered
  have first : Change order n s ((s.numbered.noted [.ran owner none]).completed owner) :=
    .complete owner own there
  have bound : n ≤ ((s.numbered.noted [.ran owner none]).completed owner).playbacks.length :=
    Nat.le_trans (Nat.le_of_lt (Nat.lt_of_le_of_lt own there)) first.length_le
  obtain ⟨p, found, done⟩ :=
    completed_over (s.numbered.noted [.ran owner none]) there
  obtain ⟨q, found, aged⟩ := Changes.ages lead found
  exact ⟨.trans (.single first) (lead.mono bound), q, found, aged.notified done⟩

theorem track_changes (walks : perform.Walks order) (own : n ≤ owner)
    (there : owner < s.playbacks.length) (facility : Facility) (delay : Binary64) (task : Task) :
    Changes order n s (track perform facility owner delay task s).2 := by
  by_cases now : facility = .immediate ∧ delay ≤ 0
  · rw [track_runs now, bind_stage]
    cases task with
    | unit index event seconds =>
      rw [run_unit_sounded]
      cases (run perform owner none (.unit index event seconds) s.numbered).1 with
      | error fault => exact .single (.sound owner index event seconds own there)
      | ok => exact .single (.soundKept owner index event seconds own there)
    | completion =>
      obtain ⟨changes, p, found, done⟩ := completion_changes walks own there rfl
      cases (run perform owner none .completion s.numbered).1 with
      | error fault => exact changes
      | ok => exact changes.tail (.keep owner s.nextTimer found done)
  · rw [track_waits now]
    exact .single (.wait _ own there rfl)

theorem scheduleUnits_changes (walks : perform.Walks order) (own : n ≤ owner)
    (facility : Facility) (scale : Binary64) (tempo : Number) (index : Nat) (score : Music)
    (there : owner < s.playbacks.length) :
    Changes order n s (scheduleUnits perform facility owner scale tempo index score s).2 := by
  induction score generalizing s index with
  | nil => exact .refl
  | cons event rest ih =>
    rw [scheduleUnits, bind_apply, ofExcept_apply]
    cases event.seconds tempo with
    | error fault => exact .refl
    | ok seconds =>
      dsimp only
      rw [bind_apply, ofExcept_apply]
      cases event.delay scale with
      | error fault => exact .refl
      | ok delay =>
        dsimp only
        rw [bind_stage]
        have first := track_changes walks own there facility delay (.unit index event seconds)
        cases (track perform facility owner delay (.unit index event seconds) s).1 with
        | error fault => exact first
        | ok => exact first.trans (ih _ (Nat.lt_of_lt_of_le there first.length_le))

/-- What has been prepared is a playback with the next free number. -/
theorem prepare_changes (walks : perform.Walks order) (facility : Facility) (engine : Option Nat)
    (callback : Option Callback) (score : Music) (tempo : Number) (s : Stage) :
    Leads order s (prepare perform facility engine callback score tempo s).2 ∧
      ∀ prepared, (prepare perform facility engine callback score tempo s).1 = .ok prepared →
        prepared.1 = s.playbacks.length ∧ prepared.1 <
          (prepare perform facility engine callback score tempo s).2.playbacks.length := by
  rw [prepare_apply]
  split
  · exact ⟨.refl s, by simp⟩
  · split
    · rename_i scale length _ _
      have equip : Aside s (s.equipped engine) := by
        cases engine with
        | none => exact .of_quiet rfl rfl rfl rfl rfl (by simp [equipped])
        | some e => exact .of_quiet rfl rfl rfl rfl rfl (Nat.le_refl _)
      generalize engine.getD s.engines.length = e
      let t := (s.equipped engine).joined (.started length e callback)
      have there : s.playbacks.length < t.playbacks.length := by simp [t, equip.playbacks]
      have join : Changes order s.playbacks.length s t :=
        .tail (.single (.aside equip)) (.join _ ⟨rfl, rfl, rfl⟩)
      have units := scheduleUnits_changes walks (Nat.le_refl _) facility scale tempo 0 score there
      rw [return_stage]
      refine ⟨join.trans units, fun prepared same => ?_⟩
      rw [bind_answer] at same
      split at same
      · cases same
        exact ⟨rfl, Nat.lt_of_lt_of_le there units.length_le⟩
      · contradiction
    · exact ⟨.refl s, by simp⟩
    · exact ⟨.refl s, by simp⟩

theorem schedule_walks (walks : perform.Walks order) (facility : Facility) (engine : Option Nat)
    (callback : Option Callback) (score : Music) (tempo : Number) :
    Walks order (schedule perform facility engine callback score tempo) := by
  intro s
  obtain ⟨lead, prepared⟩ := prepare_changes walks facility engine callback score tempo s
  rw [schedule, bind_stage]
  cases done : (prepare perform facility engine callback score tempo s).1 with
  | error fault => exact lead
  | ok found =>
    obtain ⟨owner, length⟩ := found
    obtain ⟨rfl, there⟩ := prepared _ done
    dsimp only at there ⊢
    rw [bind_stage]
    have last := track_changes walks (Nat.le_refl _) there facility length .completion
    cases (track perform facility s.playbacks.length length .completion
        (prepare perform facility engine callback score tempo s).2).1 with
    | error fault => exact Relation.ReflTransGen.trans lead last
    | ok =>
      refine .tail (Relation.ReflTransGen.trans lead last) (.aside (.of_said _ ?_))
      simp [Happening.about?]

theorem launch_walks (walks : perform.Walks order) (engine : Option Nat)
    (callback : Option Callback) (score : Music) (tempo : Number) :
    Walks order (launch perform engine callback score tempo) := by
  intro s
  obtain ⟨lead, prepared⟩ := prepare_changes walks .immediate engine callback score tempo s
  rw [launch, bind_stage]
  cases done : (prepare perform .immediate engine callback score tempo s).1 with
  | error fault => exact lead
  | ok found =>
    obtain ⟨owner, length⟩ := found
    obtain ⟨rfl, there⟩ := prepared _ done
    dsimp only at there ⊢
    split
    · rw [return_stage, callLater_apply, if_pos ⟨rfl, ‹_›⟩, return_stage]
      exact Relation.ReflTransGen.trans lead (completion_changes walks (Nat.le_refl _) there rfl).1
    · exact lead

theorem drain_walks (walks : perform.Walks order) (time : Binary64) (bound : Nat) :
    Walks order (drain perform time bound) := by
  induction bound with
  | zero => exact .pure ()
  | succ bound ih =>
    refine fun s => ?_
    rw [drain, get_bind]
    cases next : Stage.nextDue? time s.timers with
    | none => exact .refl s
    | some timer =>
      dsimp only
      rw [bind_stage]
      have fired := fire_leads walks (Order.allows_of_nextDue? next)
      cases (fire perform timer s).1 with
      | error fault => exact fired
      | ok => exact fired.trans (ih _)

theorem advance_walks (walks : perform.Walks order) (bound : Nat) (seconds : Number) :
    Walks order (advance perform bound seconds) :=
  .reads fun _ => (Walks.ofExcept _).bind fun _ => (drain_walks walks _ _).bind fun _ =>
    .asides fun _ => .of_quiet rfl rfl rfl rfl rfl (Nat.le_refl _)

theorem namePlayback_walks (id : String) (i : Nat) : Walks order (namePlayback id i) :=
  .asides fun _ => .of_quiet rfl rfl rfl rfl rfl (Nat.le_refl _)

theorem nameEngine_walks (id : String) (e : Nat) : Walks order (nameEngine id e) :=
  .asides fun _ => .of_quiet rfl rfl rfl rfl rfl (Nat.le_refl _)

theorem clear_walks (e : Nat) : Walks order (modify fun stage =>
    { stage with engines := stage.engines.modify e Recorder.clear } : Act Unit) :=
  .asides fun _ => .of_quiet rfl rfl rfl rfl rfl (by simp)

theorem trigger_walks (engine : Option Nat) (names : List String)
    (duration start velocity : Number) :
    Walks order (trigger none engine names duration start velocity) :=
  .asides fun _ => .of_sounding (trigger_sounding ..)

theorem play_walks (walks : perform.Walks order) (facility : Facility) (engine : Option Nat)
    (callback : Option Callback) (request : Aural.Request) (options : Aural.Options)
    (chance : Chance) :
    Walks order (play perform facility engine callback request options chance) := by
  refine (Walks.ofExcept _).bind fun degrees => ?_
  split
  · exact (addPlayback_walks _ ⟨rfl, rfl, rfl⟩).bind fun _ => .pure _
  · exact (Walks.ofExcept _).bind fun score =>
      (schedule_walks walks facility engine callback _ _).bind fun _ => .pure _

theorem exec_walks (walks : perform.Walks order) (bound : Nat) (command : Command) :
    Walks order (exec perform bound command) := by
  cases command with
  | engine id tempo program =>
    exact .reads fun _ => (Walks.ofExcept _).bind fun recorder =>
      (addEngine_walks recorder).bind fun e => (nameEngine_walks id e).bind fun _ => .pure _
  | schedule id engine source tempo facility onFinish =>
    exact (build_walks source).bind fun _ => (engineOf_walks engine).bind fun _ =>
      (schedule_walks walks _ _ _ _ _).bind fun i => (namePlayback_walks id i).bind fun _ =>
        startedAnswer_walks i none
  | play id engine request values facility numbers onFinish =>
    exact (Walks.ofExcept _).bind fun _ => (engineOf_walks engine).bind fun _ =>
      (play_walks walks _ _ _ _ _ _).bind fun played =>
        (namePlayback_walks id played.1).bind fun _ => startedAnswer_walks _ _
  | silent id onFinish =>
    exact (addPlayback_walks _ ⟨rfl, rfl, rfl⟩).bind fun i =>
      (namePlayback_walks id i).bind fun _ => startedAnswer_walks i none
  | stop id =>
    exact (playbackNamed_walks id).bind fun i => (stop_walks walks i).bind fun _ => .pure _
  | finished id =>
    exact (playbackNamed_walks id).bind fun i => (playback_walks i).bind fun _ => .pure _
  | advance seconds => exact (advance_walks walks bound seconds).bind fun _ => .pure _
  | render ref source start tempo =>
    exact (build_walks source).bind fun _ => (engineOf_walks ref).bind fun _ =>
      (render_walks _ _ _ _).bind fun _ => .pure _
  | trigger ref sound duration start velocity =>
    exact (engineOf_walks ref).bind fun _ => (trigger_walks _ _ _ _ _).bind fun _ => .pure _
  | now ref =>
    exact (engineFor_walks "now" ref).bind fun e => (engine_walks e).bind fun _ =>
      .reads fun _ => .pure _
  | notes ref =>
    exact (engineFor_walks "notes" ref).bind fun e => (engine_walks e).bind fun _ => .pure _
  | clear ref =>
    exact (engineFor_walks "clear" ref).bind fun e => (clear_walks e).bind fun _ => .pure _
  | write ref =>
    exact (engineFor_walks "write" ref).bind fun e => (write_walks e).bind fun _ => .pure _
  | raise message => exact .stays fun _ => rfl

end Act

/-- Every run is made of changes, and none of them starts a playback that was there before. -/
theorem Stage.Reaches.leads {order : Order} {s t : Stage} (run : Reaches order s t) :
    Leads order s t := by
  induction run with
  | refl s => exact .refl s
  | exec _ _ bound command ih walks => exact ih.trans (Act.exec_walks walks bound command _)
  | schedule _ _ facility engine callback score tempo ih walks =>
    exact ih.trans (Act.schedule_walks walks facility engine callback score tempo _)
  | stop _ _ i ih walks => exact ih.trans (Act.stop_walks walks i _)
  | fire _ _ allowed ih walks => exact ih.trans (Act.fire_leads walks allowed)
  | build _ source ih => exact ih.trans (Act.build_walks source _)
  | launch _ _ engine callback score tempo ih walks =>
    exact ih.trans (Act.launch_walks walks engine callback score tempo _)
  | answer _ place outcome ih => exact ih.trans (Act.answer_walks place outcome _)
  | tick _ time ih =>
    exact ih.trans (.aside (.of_quiet rfl rfl rfl rfl rfl (Nat.le_refl _)))

/-- Lawful code is made of changes. -/
theorem Performer.Lawful.walks {order : Order} {perform : Performer}
    (lawful : perform.Lawful order) : perform.Walks order :=
  fun place program s => (lawful place program s).leads

end Solfege
