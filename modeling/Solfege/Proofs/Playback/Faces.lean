import Solfege.Proofs.Playback.Bystanders
import Solfege.Proofs.Playback.Moments
import Solfege.Proofs.Playback.Tracking

/-! What can be seen of a playback from outside, and what becomes of it when a timer runs or a
playback is stopped. Where callbacks stand by, all of it follows from what was seen before. -/
namespace Solfege

/-- A playback without its timers, its engine known only by the time at which it was made. -/
structure Face where
  callback : Option Callback
  finished : Bool
  notified : Bool
  origin : Option Binary64

namespace Face

/-- A playback that has come to its end. -/
def ended (face : Face) : Face :=
  if face.notified then face else { face with finished := true, notified := true }

/-- What ending a playback answers. -/
def outcome (face : Face) : Except Fault Unit :=
  if face.notified then .ok () else (face.callback.map Callback.outcome).getD (.ok ())

/-- What the callback makes of a name when a playback ends. -/
def makes (face : Face) (clock : Binary64) (id : String) : Option Binary64 :=
  if face.notified then none
  else face.callback.bind fun callback => programMakes clock id callback.program

/-- A playback that has an engine and whose callback stands by. -/
structure Fit (face : Face) : Prop where
  origin : ∃ time, face.origin = some time
  callback : ∀ callback ∈ face.callback, callback.StandsBy

theorem Fit.ended {face : Face} (fit : face.Fit) : face.ended.Fit := by
  unfold Face.ended
  split
  · exact fit
  · exact ⟨fit.origin, fit.callback⟩

end Face

/-- What can be seen of a playback, given when engines were made. -/
def Playback.face (p : Playback) (origin : Nat → Option Binary64) : Face :=
  ⟨p.callback, p.finished, p.notified, p.engine.bind origin⟩

namespace Stage

def face (s : Stage) (i : Nat) : Option Face := s.playbacks[i]?.map (·.face s.origin)

/-- Every playback has an engine and a callback that stands by. -/
def Faces (s : Stage) : Prop := ∀ i f, s.face i = some f → f.Fit

/-- A playback has come to its end, and nothing else that can be seen has changed but the timers
that are left. -/
structure Ends (i : Nat) (f : Face) (left : List Timer) (s t : Stage) : Prop where
  clock : t.clock = s.clock
  timers : t.timers = left
  playbackNames : t.playbackNames = s.playbackNames
  face : t.face i = some f.ended
  others : ∀ k ≠ i, t.face k = s.face k
  named : t.Named
  origins : ∀ id, t.namedOrigin id = (f.makes s.clock id).or (s.namedOrigin id)

variable {s t u : Stage} {i k : Nat} {p : Playback} {f : Face}

theorem origin_congr (engines : t.engines = s.engines) : t.origin = s.origin := by
  funext e
  rw [origin, engines, origin]

theorem face_congr (playbacks : t.playbacks = s.playbacks) (engines : t.engines = s.engines) :
    t.face = s.face := by
  funext i
  rw [face, face, playbacks, origin_congr engines]

/-- A change of one playback is seen in it alone. -/
theorem face_modify {g : Playback → Playback} (i : Nat)
    (playbacks : t.playbacks = s.playbacks.modify i g) (origins : t.origin = s.origin)
    (k : Nat) : t.face k =
      if k = i then s.playbacks[i]?.map fun p => (g p).face s.origin else s.face k := by
  rw [face, playbacks, List.getElem?_modify, origins]
  by_cases here : k = i
  · subst here
    rw [if_pos rfl]
    cases s.playbacks[k]? <;> simp
  · have different : i ≠ k := fun same => here same.symm
    rw [if_neg here, face]
    cases s.playbacks[k]? <;> simp [different]

theorem Idles.face (idles : Idles s t) (faces : s.Faces) : t.face = s.face := by
  funext i
  rw [Stage.face, idles.playbacks, Stage.face]
  cases found : s.playbacks[i]? with
  | none => rfl
  | some p =>
    obtain ⟨time, made⟩ := (faces i (p.face s.origin) (by rw [Stage.face, found]; rfl)).origin
    have kept : p.engine.bind t.origin = some time := by
      obtain ⟨e, engine, origin⟩ := Option.bind_eq_some_iff.mp made
      rw [engine]
      exact idles.origins e time origin
    rw [Option.map_some, Option.map_some, Playback.face, Playback.face, kept, ← made]
    rfl

theorem Named.congr (named : s.Named) (names : t.engineNames = s.engineNames)
    (engines : t.engines = s.engines) : t.Named := by
  intro id e found
  rw [names] at found
  rw [engines]
  exact named id e found

theorem namedOrigin_congr (names : t.engineNames = s.engineNames)
    (engines : t.engines = s.engines) : t.namedOrigin = s.namedOrigin := by
  funext id
  rw [namedOrigin, namedOrigin, names, origin_congr engines]

theorem Faces.congr (faces : s.Faces) (same : t.face = s.face) : t.Faces := by
  intro i f seen
  rw [same] at seen
  exact faces i f seen

theorem Faces.change {g : Face} (faces : s.Faces) (fit : g.Fit) (here : t.face i = some g)
    (others : ∀ k ≠ i, t.face k = s.face k) : t.Faces := by
  intro k f found
  by_cases same : k = i
  · rw [same, here] at found
    cases found
    exact fit
  · rw [others k same] at found
    exact faces k f found

theorem face_of_found (found : s.playbacks[i]? = some p) : s.face i = some (p.face s.origin) := by
  rw [face, found, Option.map_some]

/-- What entering the callback of a playback that ends brings about, seen from outside. -/
theorem enter_ends (found : s.playbacks[i]? = some p) (live : p.notified = false)
    (faces : s.Faces) (named : s.Named) (bound place : Nat) :
    (Act.enter (Act.perform (bound + 1)) place p.callback (s.ended i p)).1 =
      (p.face s.origin).outcome ∧
    Ends i (p.face s.origin) s.timers s
      (Act.enter (Act.perform (bound + 1)) place p.callback (s.ended i p)).2 := by
  have seen := face_of_found found
  have fit := faces i _ seen
  have open_ : ¬ (p.face s.origin).notified = true := by simp [Playback.face, live]
  have modified (k : Nat) : (s.ended i p).face k =
      if k = i then s.playbacks[i]?.map (fun q => q.closed.face s.origin) else s.face k :=
    face_modify (s := s) (t := s.ended i p) (g := Playback.closed) i rfl rfl k
  have face : (s.ended i p).face i = some (p.face s.origin).ended := by
    rw [modified, if_pos rfl, found, Face.ended, if_neg open_]
    rfl
  have others (k : Nat) (different : k ≠ i) : (s.ended i p).face k = s.face k := by
    rw [modified, if_neg different]
  have faces : (s.ended i p).Faces := faces.change fit.ended face others
  have calm : ∀ callback ∈ p.callback, callback.StandsBy := fit.callback
  have named : (s.ended i p).Named := named.congr rfl rfl
  obtain ⟨outcome, bystands⟩ := Act.enter_standsBy calm bound place named
  have same := bystands.idles.face faces
  refine ⟨?_, bystands.idles.clock, bystands.idles.timers, bystands.idles.playbackNames, ?_, ?_,
    bystands.named, ?_⟩
  · rw [outcome, Face.outcome, if_neg open_]
    rfl
  · rw [same, face]
  · intro k different
    rw [same, others k different]
  · intro id
    have before : (s.ended i p).namedOrigin = s.namedOrigin := namedOrigin_congr rfl rfl
    rw [bystands.origins, before, Face.makes, if_neg open_]
    rfl

end Stage

namespace Act
variable {s : Stage} {i : Nat} {f : Face}

/-- A playback that is over already stays as it is. -/
theorem notified_ends (seen : s.face i = some f) (notified : f.notified = true) (named : s.Named)
    (said : List Happening) : .ok () = f.outcome ∧ Stage.Ends i f s.timers s (s.noted said) := by
  have ended : f.ended = f := if_pos notified
  refine ⟨(if_pos notified).symm, rfl, rfl, rfl, ?_, fun _ _ => rfl, named, fun id => ?_⟩
  · rw [ended]
    exact seen
  · rw [Face.makes, if_pos notified, Option.none_or]
    rfl

theorem complete_ends (faces : s.Faces) (named : s.Named) (seen : s.face i = some f)
    (bound : Nat) : (complete (Act.perform (bound + 1)) i s).1 = f.outcome ∧
      Stage.Ends i f s.timers s (complete (Act.perform (bound + 1)) i s).2 := by
  obtain ⟨p, found, rfl⟩ := Option.map_eq_some_iff.mp seen
  rw [complete_apply, found]
  dsimp only
  cases live : p.notified with
  | false => exact Stage.enter_ends found live faces named bound _
  | true =>
    obtain ⟨outcome, ends⟩ := notified_ends seen live named []
    have same : s.noted [] = s := by simp [Stage.noted]
    rw [same] at ends
    exact ⟨outcome, ends⟩

end Act

/-- The timers that are left of a playback when it is stopped. -/
def Face.leaves (f : Face) (i : Nat) (timers : List Timer) : List Timer :=
  if f.notified then timers else timers.filter (·.owner ≠ i)

theorem Face.mem_of_mem_leaves {f : Face} {i : Nat} {timers : List Timer} {timer : Timer}
    (left : timer ∈ f.leaves i timers) : timer ∈ timers := by
  unfold Face.leaves at left
  split at left
  · exact left
  · exact List.mem_of_mem_filter left

namespace Act
variable {s : Stage} {i : Nat} {f : Face}

theorem stop_ends (tracks : s.Tracks) (honoured : ∀ timer ∈ s.timers, timer.cancellable = true)
    (faces : s.Faces) (named : s.Named) (seen : s.face i = some f) (bound : Nat) :
    (stop (Act.perform (bound + 1)) i s).1 = f.outcome ∧
      Stage.Ends i f (f.leaves i s.timers) s (stop (Act.perform (bound + 1)) i s).2 := by
  obtain ⟨p, found, rfl⟩ := Option.map_eq_some_iff.mp seen
  rw [stop_apply, found]
  dsimp only
  cases live : p.notified with
  | true =>
    have notified : (p.face s.origin).notified = true := live
    rw [Face.leaves, if_pos notified]
    exact notified_ends seen notified named _
  | false =>
    let u := (s.cancelTimers p.pending).noted [.stopped p.pending.length]
    have stopped : s.stopped i = u.ended i p := by
      rw [Stage.stopped, found]
      exact if_neg (by simp [live])
    have cancelled : u.timers = s.timers.filter (·.owner ≠ i) := by
      apply List.filter_congr
      intro timer here
      have pending : timer.id ∈ p.pending ↔ timer.owner = i := by
        constructor
        · exact Tracked.own tracks i p found live timer here
        · intro mine
          exact Tracked.covered tracks timer here p (mine ▸ found) live
      simp [honoured timer here, pending]
    have same : u.face = s.face := Stage.face_congr rfl rfl
    have calm : u.Faces := faces.congr same
    obtain ⟨outcome, ends⟩ := Stage.enter_ends (s := u) found live calm (named.congr rfl rfl) bound
      s.announcements.length
    rw [stopped, if_neg Bool.false_ne_true]
    refine ⟨outcome, ends.clock, ?_, ends.playbackNames, ends.face, ?_, ends.named, ends.origins⟩
    · rw [ends.timers, cancelled, Face.leaves, if_neg (by simp [Playback.face, live])]
    · rw [← same]
      exact ends.others

end Act

/-- The names that a task sounds are those of pitches. -/
def Task.Pitched : Task → Prop
  | .unit _ event _ => ∀ name ∈ event.sound.names, ∃ number, Pitch.numberOf name = .ok number
  | .completion => True

namespace Face

/-- A playback after a task of it. -/
def after (f : Face) : Task → Face
  | .unit .. => f
  | .completion => f.ended

def answers (f : Face) : Task → Except Fault Unit
  | .unit .. => .ok ()
  | .completion => f.outcome

/-- What a task makes of the name of an engine. -/
def renames (f : Face) (clock : Binary64) (id : String) : Task → Option Binary64
  | .unit .. => none
  | .completion => f.makes clock id

def records (f : Face) (clock : Binary64) : Task → List RecordedNote
  | .unit _ event seconds =>
    match f.origin with
    | some time => (Recorder.notesFor (.real seconds) (.real (clock - time + event.onset seconds))
        (.real event.sound.velocity) event.sound.names).1
    | none => []
  | .completion => []

end Face

namespace Stage

/-- A timer has run, seen from outside. -/
structure Fires (timer : Timer) (f : Face) (s t : Stage) : Prop where
  clock : t.clock = timer.due
  timers : t.timers = s.timers.filter (·.id ≠ timer.id)
  playbackNames : t.playbackNames = s.playbackNames
  face : t.face timer.owner = some (f.after timer.task)
  others : ∀ k ≠ timer.owner, t.face k = s.face k
  named : t.Named
  origins : ∀ id,
    t.namedOrigin id = (f.renames timer.due id timer.task).or (s.namedOrigin id)
  notes : ∀ i, Moment.notes ⟨some timer, s, t⟩ i =
    if i = timer.owner then f.records timer.due timer.task else []

variable {s t : Stage} {i e : Nat} {p : Playback} {recorder later : Recorder}

/-- An engine that gains notes and a timer that is forgotten are not seen. -/
theorem face_sounds {timer : Option Nat} (there : s.engines[e]? = some recorder)
    (engines : t.engines = s.engines.set e later) (same : later.origin = recorder.origin)
    (playbacks : t.playbacks = s.playbacks.modify i (·.forget timer)) :
    t.origin = s.origin ∧ t.face = s.face := by
  have origins : t.origin = s.origin := by
    funext e'
    rw [origin, engines]
    exact origin_set there same e'
  refine ⟨origins, funext fun k => ?_⟩
  rw [face_modify i playbacks origins]
  split
  · rename_i here
    rw [here]
    rfl
  · rfl

theorem gained_sounds {more : List RecordedNote} (found : s.playbacks[i]? = some p)
    (engine : p.engine = some e) (there : s.engines[e]? = some recorder)
    (engines : t.engines = s.engines.set e { recorder with notes := recorder.notes ++ more })
    (timer : Option Timer) : Moment.gained ⟨timer, s, t⟩ i = more := by
  have heard : t.notes e = some (recorder.notes ++ more) := by
    rw [notes, engines, List.getElem?_set_self (List.getElem?_eq_some_iff.mp there).1]
    rfl
  have before : s.notes e = some recorder.notes := by
    rw [notes, there]
    rfl
  rw [Moment.gained, found, Option.bind_some, engine]
  dsimp only
  rw [heard, before]
  exact List.drop_left

end Stage

namespace Act
variable {s : Stage} {timer : Timer} {f : Face}

theorem completion_fires (faces : s.Faces) (named : s.Named)
    (seen : s.face timer.owner = some f) (last : timer.task = .completion) (bound : Nat) :
    (fire (Act.perform (bound + 1)) timer s).1 = f.answers timer.task ∧
      Stage.Fires timer f s (fire (Act.perform (bound + 1)) timer s).2 := by
  obtain ⟨id, due, owner, task, cancellable⟩ := timer
  cases last
  let u := (s.taken ⟨id, due, owner, .completion, cancellable⟩).noted [.ran owner none]
  have same : u.face = s.face := Stage.face_congr rfl rfl
  have before : u.namedOrigin = s.namedOrigin := Stage.namedOrigin_congr rfl rfl
  have calm : u.Faces := faces.congr same
  have known : u.Named := named.congr rfl rfl
  obtain ⟨outcome, ends⟩ := complete_ends calm known (by rw [same]; exact seen) bound
  refine ⟨outcome, ends.clock, ends.timers, ends.playbackNames, ends.face, ?_, ends.named, ?_, ?_⟩
  · rw [← same]
    exact ends.others
  · intro name
    rw [← before]
    exact ends.origins name
  · intro i
    exact (ite_self _).symm

theorem unit_fires {index : Nat} {event : Event} {seconds : Binary64} (faces : s.Faces)
    (named : s.Named) (seen : s.face timer.owner = some f)
    (sounds : timer.task = .unit index event seconds) (pitched : timer.task.Pitched)
    (perform : Performer) :
    (fire perform timer s).1 = f.answers timer.task ∧
      Stage.Fires timer f s (fire perform timer s).2 := by
  obtain ⟨id, due, owner, task, cancellable⟩ := timer
  cases sounds
  obtain ⟨p, found, rfl⟩ := Option.map_eq_some_iff.mp seen
  obtain ⟨time, made⟩ := (faces owner _ seen).origin
  obtain ⟨e, engine, origin⟩ := Option.bind_eq_some_iff.mp made
  obtain ⟨recorder, there, rfl⟩ := Option.map_eq_some_iff.mp origin
  let timer : Timer := ⟨id, due, owner, .unit index event seconds, cancellable⟩
  let start := recorder.now due + event.onset seconds
  let more := (Recorder.notesFor (.real seconds) (.real start) (.real event.sound.velocity)
    event.sound.names).1
  let t : Stage := { (s.taken timer).forgotten owner (some id) with
    engines := s.engines.set e { recorder with notes := recorder.notes ++ more }
    journal := s.journal ++ [.ran owner (some index),
      .triggered (some owner) event.sound.names start seconds event.sound.velocity] }
  have plays : fire perform timer s = (.ok (), t) := run_unit_plays (s := s.taken timer) found
    engine there pitched perform (some id) index seconds
  obtain ⟨origins, unchanged⟩ := Stage.face_sounds (s := s) (t := t) there rfl rfl rfl
  rw [plays]
  refine ⟨rfl, rfl, rfl, rfl, ?_, fun k _ => congrFun unchanged k, ?_, fun name => ?_, fun i => ?_⟩
  · rw [unchanged]
    exact seen
  · intro name e' named'
    simpa [t] using named name e' named'
  · rw [Face.renames, Option.none_or, Stage.namedOrigin, origins]
    rfl
  · show (if i = owner then Moment.gained ⟨some timer, s, t⟩ i else []) = _
    split
    · rename_i mine
      rw [mine, Stage.gained_sounds found engine there rfl, Face.records, made]
      rfl
    · rfl

theorem fire_fires (pitched : timer.task.Pitched) (faces : s.Faces) (named : s.Named)
    (seen : s.face timer.owner = some f) (bound : Nat) :
    (fire (Act.perform (bound + 1)) timer s).1 = f.answers timer.task ∧
      Stage.Fires timer f s (fire (Act.perform (bound + 1)) timer s).2 := by
  cases task : timer.task with
  | unit =>
    rw [← task]
    exact unit_fires faces named seen task pitched _
  | completion =>
    rw [← task]
    exact completion_fires faces named seen task bound

end Act
end Solfege
