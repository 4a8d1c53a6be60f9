import Solfege.Proofs.Playback.Draining

/-! Playbacks on one clock are independent. What becomes of one of them is the same in a session
without the others: its units record the same notes, it ends at the same time, and its callback is
called at the same time if at all. -/
namespace Solfege

/-- An engine whose name is not given up, nor that of the playback it is known by. -/
def EngineRef.Kept (gone lost : String → Bool) : EngineRef → Prop
  | .nothing => True
  | .named id => lost id = false
  | .ofPlayback id => gone id = false

instance (gone lost : String → Bool) : DecidablePred (EngineRef.Kept gone lost)
  | .nothing => inferInstanceAs (Decidable True)
  | .named _ | .ofPlayback _ => inferInstanceAs (Decidable (_ = false))

namespace Command

/-- A command that starts or stops a playback that is given up. -/
def isGone (gone : String → Bool) : Command → Bool
  | .schedule id .. | .stop id => gone id
  | _ => false

/-- A command that makes no engine but under a name that is given up. -/
def makesOnly (lost : String → Bool) : Command → Bool
  | .engine id .. => lost id
  | _ => true

/-- Playbacks that are kept are given no engine of those that are not: neither that of one of them
nor one that its callback makes. -/
def Apart (gone lost : String → Bool) : Command → Prop
  | .schedule id ref _ _ _ onFinish =>
    if gone id then ∀ program ∈ onFinish, ∀ command ∈ program, command.makesOnly lost = true
    else ref.Kept gone lost
  | _ => True

/-- The callback of a playback that is given up raises nothing. -/
def Calm (gone : String → Bool) : Command → Prop
  | .schedule id _ _ _ _ onFinish =>
    gone id = true → ∀ program ∈ onFinish, ∀ command ∈ program, command.raises? = none
  | _ => True

instance (gone lost : String → Bool) : DecidablePred (Apart gone lost)
  | .schedule id ref _ _ _ onFinish => inferInstanceAs (Decidable
    (if gone id then ∀ program ∈ onFinish, ∀ command ∈ program, command.makesOnly lost = true
      else ref.Kept gone lost))
  | .engine .. | .play .. | .silent .. | .stop _ | .finished _ | .advance _ | .render ..
  | .trigger .. | .now _ | .notes _ | .clear _ | .write _ | .raise _ =>
    inferInstanceAs (Decidable True)

instance (gone : String → Bool) : DecidablePred (Calm gone)
  | .schedule .. =>
    inferInstanceAs (Decidable (_ = true → ∀ program ∈ _, ∀ command ∈ program, _ = none))
  | .engine .. | .play .. | .silent .. | .stop _ | .finished _ | .advance _ | .render ..
  | .trigger .. | .now _ | .notes _ | .clear _ | .write _ | .raise _ =>
    inferInstanceAs (Decidable True)

end Command

/-- The commands that are left without those of the playbacks that are given up. -/
def remaining (gone : String → Bool) (commands : List Command) : List Command :=
  commands.filter fun command => !command.isGone gone

theorem programMakes_eq_none {program : List Command} {lost : String → Bool}
    (only : ∀ command ∈ program, command.makesOnly lost = true) (clock : Binary64)
    {id : String} (used : lost id = false) :
    programMakes clock id program = none := by
  induction program with
  | nil => rfl
  | cons command rest ih =>
    have others := ih fun command here => only command (List.mem_cons_of_mem _ here)
    have first : command.makes clock id = none := by
      cases command with
      | engine name tempo number =>
        have given : lost name = true := only _ List.mem_cons_self
        apply if_neg
        rintro ⟨rfl, _⟩
        rw [used] at given
        cases given
      | _ => rfl
    unfold programMakes
    split
    · rfl
    · rfl
    · rename_i same
      cases same
      rw [others, first]
      rfl

namespace Stage

/-- What happens on two stages one of which has the playbacks that are kept of the other, and those
that are kept thereafter. -/
structure Carries (gone lost : String → Bool) (kept more : List Nat) (s u v : Stage)
    (here there : List Moment) : Prop where
  new : ∀ i ∈ more, s.face i = none
  old : ∀ i, u.face i = none → s.face i = none
  mirrors : Mirrors gone lost (kept ++ more) u v
  clock : v.clock = u.clock
  accounts : ∀ j i, Linked (kept ++ more) u j i →
    Moment.account here i = Moment.account there j

variable {gone lost : String → Bool} {kept more : List Nat} {s t u v : Stage} {i j : Nat}

theorem Linked.before (linked : Linked (kept ++ more) u j i) (new : ∀ i ∈ more, s.face i = none)
    (old : ∀ i, u.face i = none → s.face i = none) : Linked kept s j i := by
  rcases linked with link | ⟨none, missing⟩
  · rcases Nat.lt_or_ge j kept.length with less | beyond
    · rw [List.getElem?_append_left less] at link
      exact .inl link
    · rw [List.getElem?_append_right beyond] at link
      exact .inr ⟨List.getElem?_eq_none beyond, new i (List.mem_of_getElem? link)⟩
  · have beyond := List.getElem?_eq_none_iff.mp none
    rw [List.length_append] at beyond
    exact .inr ⟨List.getElem?_eq_none (by omega), old i missing⟩

namespace Carries
variable {w x : Stage} {here there later others : List Moment} {next : List Nat}

theorem trans (first : Carries gone lost kept more s u v here there)
    (second : Carries gone lost (kept ++ more) next u w x later others) :
    Carries gone lost kept (more ++ next) s w x (here ++ later) (there ++ others) where
  new i member := by
    rcases List.mem_append.mp member with before | after
    · exact first.new i before
    · exact first.old i (second.new i after)
  old i missing := first.old i (second.old i missing)
  mirrors := List.append_assoc kept more next ▸ second.mirrors
  clock := second.clock
  accounts j i linked := by
    rw [← List.append_assoc] at linked
    have before : Linked (kept ++ more) u j i := linked.before second.new second.old
    rw [Moment.account_append, Moment.account_append, second.accounts j i linked,
      first.accounts j i before]

end Carries

theorem step_old (s : Stage) (command : Command) (i : Nat)
    (missing : (s.step command).2.face i = none) : s.face i = none := by
  have leads : Leads .any s (s.step command).2 := (s.step_reaches command).leads
  exact face_eq_none.mpr (Nat.le_trans leads.length_le (face_eq_none.mp missing))

theorem moments_bystander {command : Command} (stands : command.standsBy = true) :
    s.moments command = [⟨none, s, (s.step command).2⟩] := by
  cases command with
  | advance lapse => cases stands
  | _ => rfl

namespace Carries

theorem single (before : Mirrors gone lost kept s t) (here : s.Orderly) (later : u.Orderly)
    (there : t.Orderly) (after : v.Orderly) (new : ∀ i ∈ more, s.face i = none)
    (old : ∀ i, u.face i = none → s.face i = none) (mirrors : Mirrors gone lost (kept ++ more) u v)
    (clock : v.clock = u.clock) :
    Carries gone lost kept more s u v [⟨none, s, u⟩] [⟨none, t, v⟩] := by
  refine ⟨new, old, mirrors, clock, fun j i linked => ?_⟩
  have was := before.face_linked (linked.before new old)
  exact Moment.account_congr here later there after was.symm (mirrors.face_linked linked).symm
    clock.symm rfl

theorem alike (before : Mirrors gone lost kept s t) (here : s.Orderly) (later : u.Orderly)
    (there : t.Orderly) (after : v.Orderly) (old : ∀ i, u.face i = none → s.face i = none)
    (mirrors : Mirrors gone lost kept u v) (clock : v.clock = u.clock) :
    Carries gone lost kept [] s u v [⟨none, s, u⟩] [⟨none, t, v⟩] := by
  rw [← List.append_nil kept] at mirrors
  exact single before here later there after (fun _ here => nomatch here) old mirrors clock

theorem unseen (before : Mirrors gone lost kept s t) (here : s.Orderly) (later : u.Orderly)
    (old : ∀ i, u.face i = none → s.face i = none) (mirrors : Mirrors gone lost kept u t)
    (clock : t.clock = u.clock) : Carries gone lost kept [] s u t [⟨none, s, u⟩] [] := by
  have none : ∀ i ∈ ([] : List Nat), s.face i = none := fun _ here => nomatch here
  rw [← List.append_nil kept] at mirrors
  refine ⟨none, old, mirrors, clock, fun j i linked => ?_⟩
  have was := before.face_linked (linked.before none old)
  exact Moment.account_still here later ((mirrors.face_linked linked).symm.trans was) rfl

end Carries

theorem Mirrors.starting_eq (mirrors : Mirrors gone lost kept s t) (clock : t.clock = s.clock)
    {ref : EngineRef} (used : ref.Kept gone lost) (id : String) (source : ScoreSource)
    (tempo : Number) (onFinish : Option (List Command)) :
    t.starting id ref source tempo onFinish = s.starting id ref source tempo onFinish := by
  have referred : t.referred ref = s.referred ref := by
    cases ref with
    | nothing => rfl
    | named name => rw [referred, mirrors.origins name used, referred]
    | ofPlayback name =>
      have same := congrArg (Option.map Face.origin) (mirrors.named_face used)
      rw [Option.map_bind, Option.map_bind] at same
      exact same
  rw [starting, starting, referred, clock]

/-- A playback that is given up is harmless from the start. -/
theorem harmless {id : String} {onFinish : Option (List Command)} (origin : Option Binary64)
    (calm : ∀ program ∈ onFinish, ∀ command ∈ program, command.raises? = none)
    (only : ∀ program ∈ onFinish, ∀ command ∈ program, command.makesOnly lost = true) :
    Face.Harmless lost ⟨Act.callbackOf id onFinish, false, false, origin⟩ := by
  cases onFinish with
  | none => exact ⟨rfl, fun _ _ _ => rfl⟩
  | some program =>
    refine ⟨?_, fun clock name used => programMakes_eq_none (only program rfl) clock used⟩
    have quiet : program.findSome? Command.raises? = none :=
      List.findSome?_eq_none_iff.mpr (calm program rfl)
    show Callback.outcome ⟨id, program⟩ = .ok ()
    rw [Callback.outcome, quiet]

/-! What the commands come to on both stages. -/

namespace Mirrors

section
variable (mirrors : Mirrors gone lost kept s t) (here : s.Orderly) (there : t.Orderly)
  (clock : t.clock = s.clock)
include mirrors here there clock

theorem schedule_gone {id : String} {ref : EngineRef} {source : ScoreSource} {tempo : Number}
    {facility : Facility} {onFinish : Option (List Command)} (given : gone id = true)
    (fair : (Command.schedule id ref source tempo facility onFinish).Orderly)
    (apart : (Command.schedule id ref source tempo facility onFinish).Apart gone lost)
    (calm : (Command.schedule id ref source tempo facility onFinish).Calm gone) :
    let command : Command := .schedule id ref source tempo facility onFinish
    Carries gone lost kept [] s (s.step command).2 t (s.moments command) [] := by
  have later := here.step fair
  have old := s.step_old (.schedule id ref source tempo facility onFinish)
  obtain ⟨rfl, _⟩ := fair
  rw [Command.Apart, if_pos given] at apart
  have attempts := here.step_schedule id ref source tempo onFinish
  cases found : s.starting id ref source tempo onFinish with
  | none =>
    rw [found] at attempts
    have same := attempts.1.bystands attempts.2 here.named
    exact .unseen mirrors here later old
      (mirrors.bystands here.faces there.faces same (.refl there.named))
      (clock.trans attempts.1.clock.symm)
  | some playing =>
    obtain ⟨f, tasks⟩ := playing
    rw [found] at attempts
    obtain ⟨score, scale, time, _, _, rfl, _⟩ := starting_eq_some found
    exact .unseen mirrors here later old
      (mirrors.starts_unseen given attempts (harmless _ (calm given) apart))
      (clock.trans attempts.clock.symm)

theorem schedule_kept {id : String} {ref : EngineRef} {source : ScoreSource} {tempo : Number}
    {onFinish : Option (List Command)} (used : gone id = false)
    (fair : (Command.schedule id ref source tempo .queueing onFinish).Orderly)
    (apart : (Command.schedule id ref source tempo .queueing onFinish).Apart gone lost) :
    let command : Command := .schedule id ref source tempo .queueing onFinish
    ∃ more, Carries gone lost kept more s (s.step command).2 (t.step command).2
      (s.moments command) (t.moments command) := by
  have later := here.step fair
  have after := there.step fair
  have old := s.step_old (.schedule id ref source tempo .queueing onFinish)
  rw [Command.Apart, if_neg (by simp [used])] at apart
  have attempts := here.step_schedule id ref source tempo onFinish
  have also := there.step_schedule id ref source tempo onFinish
  rw [mirrors.starting_eq clock apart] at also
  cases found : s.starting id ref source tempo onFinish with
  | none =>
    rw [found] at attempts also
    have same := attempts.1.bystands attempts.2 here.named
    have likewise := also.1.bystands also.2 there.named
    refine ⟨[], .alike mirrors here later there after old ?_ ?_⟩
    · exact mirrors.bystands here.faces there.faces same likewise
    · rw [also.1.clock, attempts.1.clock, clock]
  | some playing =>
    obtain ⟨f, tasks⟩ := playing
    rw [found] at attempts also
    refine ⟨[s.playbacks.length], .single mirrors here later there after ?_ old ?_ ?_⟩
    · intro i new
      rw [List.mem_singleton.mp new]
      exact face_eq_none.mpr (Nat.le_refl _)
    · exact mirrors.starts attempts also here.tracks used
    · rw [also.clock, attempts.clock, clock]

omit there in
theorem stop_gone {id : String} (given : gone id = true) :
    Carries gone lost kept [] s (s.step (.stop id)).2 t (s.moments (.stop id)) [] := by
  have later : (s.step (.stop id)).2.Orderly := here.step trivial
  have old := s.step_old (.stop id)
  cases seen : (s.playbackNames.lookup id).bind s.face with
  | none =>
    have same := step_stop_none seen
    exact .unseen mirrors here later old (same.symm ▸ mirrors) (same.symm ▸ clock)
  | some f =>
    obtain ⟨i, named, looks⟩ := Option.bind_eq_some_iff.mp seen
    have ends := here.step_stop named looks
    obtain ⟨away, _⟩ := mirrors.goneNames id i given named
    have harmless := mirrors.hidden i f away looks
    exact .unseen mirrors here later old
      (mirrors.unseen ends.alters away harmless.ended (fun id used => harmless.makes _ id used)
        (leaves_away f s.timers away))
      (clock.trans ends.clock.symm)

theorem stop_kept {id : String} (used : gone id = false) :
    Carries gone lost kept [] s (s.step (.stop id)).2 (t.step (.stop id)).2 (s.moments (.stop id))
      (t.moments (.stop id)) := by
  have later : (s.step (.stop id)).2.Orderly := here.step trivial
  have after : (t.step (.stop id)).2.Orderly := there.step trivial
  have old := s.step_old (.stop id)
  have faces := mirrors.named_face used
  cases seen : (s.playbackNames.lookup id).bind s.face with
  | none =>
    have same := step_stop_none seen
    have likewise := step_stop_none (faces.trans seen)
    refine .alike mirrors here later there after old ?_ ?_
    · rw [same, likewise]
      exact mirrors
    · rw [same, likewise, clock]
  | some f =>
    obtain ⟨i, named, looks⟩ := Option.bind_eq_some_iff.mp seen
    obtain ⟨j, place, link⟩ := mirrors.place_named used named
    have ends := here.step_stop named looks
    have also := there.step_stop place ((mirrors.face_eq link).trans looks)
    have changes := also.alters
    rw [clock] at changes
    refine .alike mirrors here later there after old ?_ ?_
    · exact mirrors.alters link ends.alters changes (mirrors.leaves_twins link f)
    · rw [also.clock, ends.clock, clock]

theorem advance (lapse : Number) :
    Carries gone lost kept [] s (s.step (.advance lapse)).2 (t.step (.advance lapse)).2
      (s.moments (.advance lapse)) (t.moments (.advance lapse)) := by
  have old := s.step_old (.advance lapse)
  have none : ∀ i ∈ ([] : List Nat), s.face i = none := fun _ here => nomatch here
  have whole : kept ++ [] = kept := List.append_nil kept
  cases given : lapse.toReal with
  | error fault =>
    obtain ⟨quiet, stays⟩ := step_advance_error (s := s) given
    obtain ⟨silent, same⟩ := step_advance_error (s := t) given
    rw [quiet, stays, silent, same]
    exact ⟨none, fun _ missing => missing, whole.symm ▸ mirrors, clock, fun _ _ _ => rfl⟩
  | ok x =>
    obtain ⟨deep, enough, moments, after⟩ := s.step_advance given
    obtain ⟨depth, ample, others, later⟩ := t.step_advance given
    rw [clock] at others later
    have drains := mirrors.drains deep depth (s.clock + x) here there enough ample
    rw [after] at old
    rw [moments, others, after, later]
    refine ⟨none, old, whole.symm ▸ drains.mirrors.tick _ _, ?_,
      fun j i linked => drains.accounts j i (linked.before none old)⟩
    dsimp only
    rw [drains.outcome]
    cases outcome : (Act.drain (Act.perform (deep + 1)) (s.clock + x) (deep + 1) s).1 with
    | error fault => exact drains.clock fault outcome
    | ok => rfl

theorem bystander {command : Command} (stands : command.standsBy = true)
    (fair : command.Orderly) :
    Carries gone lost kept [] s (s.step command).2 (t.step command).2 (s.moments command)
      (t.moments command) := by
  have same := here.step_bystands stands
  have likewise := there.step_bystands stands
  rw [clock] at likewise
  rw [moments_bystander stands, moments_bystander stands]
  refine .alike mirrors here (here.step fair) there (there.step fair) (s.step_old command) ?_ ?_
  · exact mirrors.bystands here.faces there.faces same likewise
  · rw [likewise.idles.clock, same.idles.clock, clock]

/-- A command of a playback that is given up goes unseen where that is not. -/
theorem step_gone {command : Command} (fair : command.Orderly) (apart : command.Apart gone lost)
    (calm : command.Calm gone) (given : command.isGone gone = true) :
    Carries gone lost kept [] s (s.step command).2 t (s.moments command) [] := by
  cases command with
  | schedule => exact mirrors.schedule_gone here there clock given fair apart calm
  | stop id => exact mirrors.stop_gone here clock given
  | _ => cases given

/-- A command that is kept does on both stages what it does on one. -/
theorem step_kept {command : Command} (fair : command.Orderly) (apart : command.Apart gone lost)
    (used : command.isGone gone = false) :
    ∃ more, Carries gone lost kept more s (s.step command).2 (t.step command).2
      (s.moments command) (t.moments command) := by
  rcases fair.kinds with ⟨id, ref, source, tempo, onFinish, rfl⟩ | ⟨id, rfl⟩ | ⟨lapse, rfl⟩ | stands
  · exact mirrors.schedule_kept here there clock used fair apart
  · exact ⟨[], mirrors.stop_kept here there clock used⟩
  · exact ⟨[], mirrors.advance here there clock lapse⟩
  · exact ⟨[], mirrors.bystander here there clock stands fair⟩

end
end Mirrors

theorem performed_carries {commands : List Command} (mirrors : Mirrors gone lost kept s t)
    (here : s.Orderly) (there : t.Orderly) (clock : t.clock = s.clock)
    (fair : ∀ command ∈ commands, command.Orderly ∧ command.Apart gone lost ∧ command.Calm gone) :
    ∃ more, Carries gone lost kept more s (s.performed commands)
      (t.performed (remaining gone commands)) (s.lived commands)
      (t.lived (remaining gone commands)) := by
  induction commands generalizing kept s t with
  | nil =>
    refine ⟨[], fun _ here => (nomatch here), fun _ missing => missing, ?_, clock, fun _ _ _ => rfl⟩
    rw [List.append_nil]
    exact mirrors
  | cons command rest ih =>
    obtain ⟨orderly, apart, calm⟩ := fair command List.mem_cons_self
    have others := fun later member => fair later (List.mem_cons_of_mem command member)
    have after := here.step orderly
    cases given : command.isGone gone with
    | true =>
      have first := mirrors.step_gone here there clock orderly apart calm given
      obtain ⟨more, later⟩ := ih first.mirrors after there first.clock others
      have skipped : remaining gone (command :: rest) = remaining gone rest :=
        List.filter_cons_of_neg (by simp [given])
      rw [skipped]
      exact ⟨[] ++ more, first.trans later⟩
    | false =>
      obtain ⟨new, first⟩ := mirrors.step_kept here there clock orderly apart given
      obtain ⟨more, later⟩ := ih first.mirrors after (there.step orderly) first.clock others
      have stays : remaining gone (command :: rest) = command :: remaining gone rest :=
        List.filter_cons_of_pos (by simp [given])
      rw [stays]
      exact ⟨new ++ more, first.trans later⟩

/-- What becomes, in a whole session, of the playback that has a name by some time in it. -/
def accountOf (before after : List Command) (id : String) : Option Account :=
  ((initial.performed before).playbackNames.lookup id).map
    (Moment.account (initial.lived (before ++ after)))

/-- What becomes of a playback does not depend on others. Their callbacks must not raise anything,
and it must not be given an engine of theirs. -/
theorem accountOf_remaining (gone lost : String → Bool) (before after : List Command) (id : String)
    (used : gone id = false)
    (fair : ∀ command ∈ before ++ after,
      command.Orderly ∧ command.Apart gone lost ∧ command.Calm gone) :
    accountOf (remaining gone before) (remaining gone after) id = accountOf before after id := by
  have early := fun command member => fair command (List.mem_append_left after member)
  have late := fun command member => fair command (List.mem_append_right before member)
  have here := Orderly.initial.performed fun command member => (early command member).1
  have there : (initial.performed (remaining gone before)).Orderly :=
    Orderly.initial.performed fun command member => (early command (List.mem_filter.mp member).1).1
  obtain ⟨kept, first⟩ := performed_carries .initial .initial .initial rfl early
  obtain ⟨more, second⟩ := performed_carries first.mirrors here there first.clock late
  have whole := first.trans second
  rw [← lived_append, ← lived_append] at whole
  unfold accountOf
  cases named : (initial.performed before).playbackNames.lookup id with
  | none =>
    have names := first.mirrors.names id used
    rw [named, Option.map_none, Option.map_eq_none_iff] at names
    rw [names]
    rfl
  | some i =>
    obtain ⟨j, place, link⟩ := first.mirrors.place_named used named
    have less : j < ([] ++ kept).length := (List.getElem?_eq_some_iff.mp link).1
    have linked : ([] ++ (kept ++ more))[j]? = some i := by
      rw [← List.append_assoc, List.getElem?_append_left less, link]
    rw [place, Option.map_some, Option.map_some, whole.accounts j i (.inl linked)]

/-- Two playbacks on one engine, the first stopped halfway, the callback of the other raising. -/
theorem accountOf_remaining_shared :
    let gone := fun id => id == "a"
    let score : Music := [⟨.whole 0, .single "C4", .seconds (.whole 1)⟩,
      ⟨.whole 1, .group ["E4", "G4"], .seconds (.whole 1)⟩]
    let before : List Command := [.engine "e" (.whole 120) 0,
      .schedule "a" (.named "e") (.music score) (.whole 60) .queueing (some [.now (.named "e")]),
      .schedule "b" (.named "e") (.music score) (.whole 60) .queueing (some [.raise "over"])]
    let after : List Command := [.advance (.whole 1), .stop "a", .advance (.whole 9)]
    (accountOf before after "b").any (fun account =>
      account.notes.length = 3 && account.calls.length = 1) = true ∧
    accountOf (remaining gone before) (remaining gone after) "b" =
      accountOf before after "b" := by
  intro gone score before after
  exact ⟨by decide +kernel, accountOf_remaining gone (fun _ => false) before after "b" rfl
    (by decide +kernel)⟩

/-- A playback whose callback raises holds up another, and one that is not started leaves another
without its engine. -/
theorem accountOf_remaining_disturbed :
    let gone := fun id => id == "a"
    let lost := fun _ => false
    let early : Music := [⟨.whole 0, .single "E4", .seconds (.whole 1)⟩]
    let late : Music := [⟨.whole 2, .single "C4", .seconds (.whole 1)⟩]
    let raising : List Command := [.engine "e" (.whole 120) 0,
      .schedule "b" (.named "e") (.music late) (.whole 60) .queueing none,
      .schedule "a" (.named "e") (.music early) (.whole 60) .queueing (some [.raise "over"]),
      .advance (.whole 9)]
    let lending : List Command := [
      .schedule "a" .nothing (.music early) (.whole 60) .queueing none,
      .schedule "b" (.ofPlayback "a") (.music late) (.whole 60) .queueing none,
      .advance (.whole 9)]
    ((∀ command ∈ raising, command.Orderly ∧ command.Apart gone lost) ∧
      accountOf (remaining gone raising) [] "b" ≠ accountOf raising [] "b") ∧
    ((∀ command ∈ lending, command.Orderly ∧ command.Calm gone) ∧
      accountOf (remaining gone lending) [] "b" ≠ accountOf lending [] "b") := by
  intro gone lost early late raising lending
  refine ⟨⟨?_, ?_⟩, ?_, ?_⟩
  all_goals decide +kernel

end Stage
end Solfege
