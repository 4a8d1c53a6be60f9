import Solfege.Proofs.Playback.Simulation

/-! Commands that act neither on timers nor on playbacks. Whatever they do to the engines, nothing
that a playback goes by changes: the timers, the playbacks, and when the engines were made. -/
namespace Solfege

def Command.standsBy : Command → Bool
  | .schedule .. | .play .. | .silent .. | .stop _ | .advance _ => false
  | _ => true

/-- The time at which an engine of the given name is made by a command. -/
def Command.makes (clock : Binary64) (id : String) : Command → Option Binary64
  | .engine name _ program =>
    if id = name ∧ 0 ≤ program ∧ program ≤ 127 then some clock else none
  | _ => none

def Command.raises? : Command → Option Fault
  | .raise message => some (.raised message)
  | _ => none

/-- The time at which an engine of the given name is made by a program, which ends where it raises a
fault. A later engine takes the place of an earlier one. -/
def programMakes (clock : Binary64) (id : String) : List Command → Option Binary64
  | [] => none
  | .raise _ :: _ => none
  | command :: rest => (programMakes clock id rest).or (command.makes clock id)

namespace Callback

/-- A callback that acts neither on timers nor on playbacks. -/
def StandsBy (callback : Callback) : Prop := ∀ command ∈ callback.program, command.standsBy = true

def outcome (callback : Callback) : Except Fault Unit :=
  match callback.program.findSome? Command.raises? with
  | some fault => .error fault
  | none => .ok ()

end Callback

namespace Stage

/-- When an engine was made. -/
def origin (s : Stage) (e : Nat) : Option Binary64 := s.engines[e]?.map Recorder.origin

/-- When the engine of a name was made. -/
def namedOrigin (s : Stage) (id : String) : Option Binary64 :=
  (s.engineNames.lookup id).bind s.origin

/-- Every name of an engine is that of one. -/
def Named (s : Stage) : Prop :=
  ∀ id e, s.engineNames.lookup id = some e → e < s.engines.length

/-- Nothing that playbacks go by changes. -/
structure Idles (s t : Stage) : Prop where
  clock : t.clock = s.clock
  timers : t.timers = s.timers
  playbacks : t.playbacks = s.playbacks
  playbackNames : t.playbackNames = s.playbackNames
  origins : ∀ e time, s.origin e = some time → t.origin e = some time

/-- Nothing that playbacks go by changes, but engines may be made and take names. -/
structure Bystands (made : String → Option Binary64) (s t : Stage) : Prop where
  idles : Idles s t
  named : t.Named
  origins : ∀ id, t.namedOrigin id = (made id).or (s.namedOrigin id)

variable {s t u : Stage} {e : Nat} {id : String} {recorder later : Recorder}

theorem origin_eq_some (there : e < s.engines.length) :
    s.origin e = some s.engines[e].origin := by
  rw [origin, List.getElem?_eq_getElem there, Option.map_some]

theorem lt_of_origin {time : Binary64} (found : s.origin e = some time) : e < s.engines.length := by
  obtain ⟨recorder, there, _⟩ := Option.map_eq_some_iff.mp found
  exact (List.getElem?_eq_some_iff.mp there).1

theorem origin_set (found : s.engines[e]? = some recorder) (same : later.origin = recorder.origin)
    (e' : Nat) : ((s.engines.set e later)[e']?).map Recorder.origin = s.origin e' := by
  rw [origin, List.getElem?_set]
  split
  · rename_i here
    subst here
    rw [if_pos (List.getElem?_eq_some_iff.mp found).1, found, Option.map_some, Option.map_some,
      same]
  · rfl

namespace Idles

theorem refl (s : Stage) : Idles s s := ⟨rfl, rfl, rfl, rfl, fun _ _ found => found⟩

theorem trans (first : Idles s t) (second : Idles t u) : Idles s u where
  clock := second.clock.trans first.clock
  timers := second.timers.trans first.timers
  playbacks := second.playbacks.trans first.playbacks
  playbackNames := second.playbackNames.trans first.playbackNames
  origins e time found := second.origins e time (first.origins e time found)

theorem engines (idles : Idles s t) : s.engines.length ≤ t.engines.length := by
  rcases Nat.eq_zero_or_pos s.engines.length with none | pos
  · omega
  · have last : s.engines.length - 1 < s.engines.length := by omega
    have there := lt_of_origin (idles.origins _ _ (origin_eq_some last))
    omega

theorem bystands (idles : Idles s t) (same : t.engineNames = s.engineNames) (named : s.Named) :
    Bystands (fun _ => none) s t := by
  refine ⟨idles, ?_, ?_⟩
  · intro id e found
    rw [same] at found
    exact Nat.lt_of_lt_of_le (named id e found) idles.engines
  · intro id
    rw [Option.none_or, namedOrigin, namedOrigin, same]
    cases found : s.engineNames.lookup id with
    | none => rfl
    | some e =>
      have there := origin_eq_some (named id e found)
      rw [Option.bind_some, Option.bind_some, there, idles.origins e _ there]

end Idles

namespace Bystands
variable {made more : String → Option Binary64}

theorem refl (named : s.Named) : Bystands (fun _ => none) s s :=
  (Idles.refl s).bystands rfl named

theorem trans (first : Bystands made s t) (second : Bystands more t u) :
    Bystands (fun id => (more id).or (made id)) s u where
  idles := first.idles.trans second.idles
  named := second.named
  origins id := by rw [second.origins, first.origins, Option.or_assoc]

end Bystands
end Stage

open Stage

namespace Act
variable {α β : Type} {act : Act α} {f : α → Act β} {perform : Performer} {s : Stage}

/-- An act that nothing a playback goes by changes, nor the names of the engines. -/
def StandsBy (act : Act α) : Prop :=
  ∀ s, Idles s (act s).2 ∧ (act s).2.engineNames = s.engineNames

namespace StandsBy

theorem bind (first : StandsBy act) (rest : ∀ a, StandsBy (f a)) : StandsBy (act >>= f) := by
  intro s
  rw [bind_stage]
  obtain ⟨idles, names⟩ := first s
  cases (act s).1 with
  | error fault => exact ⟨idles, names⟩
  | ok a =>
    obtain ⟨later, same⟩ := rest a (act s).2
    exact ⟨idles.trans later, same.trans names⟩

theorem reads {f : Stage → Act α} (rest : ∀ s, StandsBy (f s)) : StandsBy (get >>= f) :=
  fun s => rest s s

theorem stays (same : ∀ s, (act s).2 = s) : StandsBy act := by
  intro s
  rw [same]
  exact ⟨.refl s, rfl⟩

theorem pure (a : α) : StandsBy (pure a : Act α) := .stays fun _ => rfl

theorem ofExcept (outcome : Except Fault α) : StandsBy (ofExcept outcome) := .stays fun _ => rfl

theorem record (said : List Happening) : StandsBy (record said) := fun _ =>
  ⟨⟨rfl, rfl, rfl, rfl, fun _ _ found => found⟩, rfl⟩

theorem answer (place : Nat) (outcome : Except Fault Answer) : StandsBy (answer place outcome) :=
  fun _ => ⟨⟨rfl, rfl, rfl, rfl, fun _ _ found => found⟩, rfl⟩

theorem playback (i : Nat) : StandsBy (playback i) := .stays fun s => by
  rw [playback_apply]
  cases s.playbacks[i]? <;> rfl

theorem engine (e : Nat) : StandsBy (engine e) := .stays fun s => by
  rw [engine_apply]
  cases s.engines[e]? <;> rfl

theorem playbackNamed (id : String) : StandsBy (playbackNamed id) :=
  .reads fun u => .stays fun s => by cases u.playbackNames.lookup id <;> rfl

theorem engineNamed (id : String) : StandsBy (engineNamed id) :=
  .reads fun u => .stays fun s => by cases u.engineNames.lookup id <;> rfl

theorem engineOf (ref : EngineRef) : StandsBy (engineOf ref) := by
  cases ref with
  | nothing => exact .pure none
  | named id => exact (engineNamed id).bind fun _ => .pure _
  | ofPlayback id => exact (playbackNamed id).bind fun i => (playback i).bind fun _ => .pure _

theorem engineFor (wanted : String) (ref : EngineRef) : StandsBy (engineFor wanted ref) :=
  (engineOf ref).bind fun found => .stays fun s => by cases found <;> rfl

theorem build (source : ScoreSource) : StandsBy (build source) :=
  (record _).bind fun _ => .ofExcept _

theorem write (e : Nat) : StandsBy (write e) :=
  (engine e).bind fun _ => (record _).bind fun _ => .ofExcept _

/-- An engine may be put in place of one that was made at the same time. -/
theorem replace {e : Nat} {recorder later : Recorder} (found : s.engines[e]? = some recorder)
    (same : later.origin = recorder.origin) :
    Idles s { s with engines := s.engines.set e later } :=
  ⟨rfl, rfl, rfl, rfl, fun e' _ there => (origin_set found same e').trans there⟩

theorem clear (e : Nat) : StandsBy (modify fun stage =>
    { stage with engines := stage.engines.modify e Recorder.clear } : Act Unit) := by
  intro s
  refine ⟨⟨rfl, rfl, rfl, rfl, fun e' time found => ?_⟩, rfl⟩
  have same : ((s.engines.modify e Recorder.clear)[e']?).map Recorder.origin = s.origin e' := by
    rw [origin, List.getElem?_modify]
    cases s.engines[e']? with
    | none => rfl
    | some recorder => by_cases here : e = e' <;> simp [here, Recorder.clear]
  exact same.trans found

theorem trigger (source engine : Option Nat) (names : List String)
    (duration start velocity : Number) :
    StandsBy (trigger source engine names duration start velocity) := by
  intro s
  cases engine with
  | none => exact ⟨.refl s, rfl⟩
  | some e =>
    rw [Act.trigger, bind_apply, engine_apply]
    cases found : s.engines[e]? with
    | none => exact ⟨.refl s, rfl⟩
    | some recorder =>
      dsimp only
      rw [modify_bind]
      let later := (recorder.trigger names duration start velocity).1
      have replaced : Idles s { s with engines := s.engines.set e later } := replace found rfl
      have told := (ofExcept (recorder.trigger names duration start velocity).2).bind fun _ =>
        (ofExcept start.toReal).bind fun start => (ofExcept duration.toReal).bind fun duration =>
          (ofExcept velocity.toReal).bind fun velocity =>
            record [.triggered source names start duration velocity]
      obtain ⟨idles, same⟩ := told { s with engines := s.engines.set e later }
      exact ⟨replaced.trans idles, same⟩

theorem render (engine : Option Nat) (score : Music) (start tempo : Number) :
    StandsBy (render engine score start tempo) := by
  refine (ofExcept _).bind fun scale => StandsBy.bind ?_ fun _ => .ofExcept _
  induction score with
  | nil => exact .pure ()
  | cons event rest ih =>
    exact (ofExcept _).bind fun seconds => (ofExcept _).bind fun delay =>
      (ofExcept _).bind fun start => (trigger _ _ _ _ _ _).bind fun _ => ih

end StandsBy

theorem lookup_renamed {β : Type} (names : List (String × β)) (id other : String) (b : β) :
    ((id, b) :: names.filter (·.1 ≠ id)).lookup other =
      if other = id then some b else names.lookup other := by
  by_cases same : other = id
  · simp [same]
  · have kept : (names.filter (·.1 ≠ id)).lookup other = names.lookup other := by
      induction names with
      | nil => rfl
      | cons first rest ih =>
        by_cases here : first.1 = id
        · have differs : (other == first.1) = false := by simpa [here] using same
          rw [List.filter_cons_of_neg (by simpa using here), ih, List.lookup_cons, differs]
        · rw [List.filter_cons_of_pos (by simpa using here), List.lookup_cons, List.lookup_cons, ih]
    have differs : (other == id) = false := by simpa using same
    rw [List.lookup_cons, differs, if_neg same]
    exact kept

/-- A valid engine is made, and takes a name. -/
theorem exec_engine_apply (perform : Performer) (id : String) (tempo : Number) {program : Int}
    (valid : 0 ≤ program ∧ program ≤ 127) (bound : Nat) (s : Stage) :
    (exec perform bound (.engine id tempo program) s).2 = { s with
      engines := s.engines ++ [⟨tempo, program, s.clock, []⟩]
      engineNames := (id, s.engines.length) :: s.engineNames.filter (·.1 ≠ id) } := by
  rw [exec, get_bind, Recorder.make, if_pos valid]
  rfl

theorem origin_joined (s : Stage) (recorder : Recorder) {e : Nat} (there : e < s.engines.length) :
    ((s.engines ++ [recorder])[e]?).map Recorder.origin = s.origin e := by
  rw [origin, List.getElem?_append_left there]

/-- An engine is made, and takes a name. -/
theorem exec_engine (id : String) {tempo : Number} {program : Int}
    (valid : 0 ≤ program ∧ program ≤ 127) (bound : Nat) (named : s.Named) :
    Bystands ((Command.engine id tempo program).makes s.clock) s
      (exec perform bound (.engine id tempo program) s).2 := by
  let recorder : Recorder := ⟨tempo, program, s.clock, []⟩
  let t : Stage := { s with
    engines := s.engines ++ [recorder]
    engineNames := (id, s.engines.length) :: s.engineNames.filter (·.1 ≠ id) }
  have done : (exec perform bound (.engine id tempo program) s).2 = t :=
    exec_engine_apply perform id tempo valid bound s
  have old (e : Nat) (there : e < s.engines.length) : t.origin e = s.origin e :=
    origin_joined s recorder there
  have new : t.origin s.engines.length = some s.clock := by
    rw [origin, List.getElem?_concat_length]
    rfl
  have names (other : String) : t.engineNames.lookup other =
      if other = id then some s.engines.length else s.engineNames.lookup other :=
    lookup_renamed ..
  rw [done]
  refine ⟨⟨rfl, rfl, rfl, rfl, fun e time found => ?_⟩, fun other e found => ?_, fun other => ?_⟩
  · exact (old e (lt_of_origin found)).trans found
  · have size : t.engines.length = s.engines.length + 1 := List.length_append
    rw [names] at found
    split at found
    · cases found
      omega
    · have there := named other e found
      omega
  · rw [namedOrigin, names, Command.makes]
    by_cases same : other = id
    · rw [if_pos same, if_pos ⟨same, valid⟩]
      exact new
    · rw [if_neg same, if_neg fun both => same both.1, Option.none_or, namedOrigin]
      cases found : s.engineNames.lookup other with
      | none => rfl
      | some e => exact old e (named other e found)

/-- A bystander makes an engine or changes nothing that playbacks and names go by. -/
theorem exec_makes_or_stands (perform : Performer) {command : Command}
    (apart : command.standsBy = true) (bound : Nat) :
    (∃ id tempo program, command = .engine id tempo program ∧ 0 ≤ program ∧ program ≤ 127) ∨
    StandsBy (exec perform bound command) ∧ ∀ clock, command.makes clock = fun _ => none := by
  cases command with
  | schedule => cases apart
  | play => cases apart
  | silent => cases apart
  | stop => cases apart
  | advance => cases apart
  | engine id tempo program =>
    by_cases valid : 0 ≤ program ∧ program ≤ 127
    · exact .inl ⟨id, tempo, program, rfl, valid⟩
    · have refused (clock : Binary64) : ∃ fault, Recorder.make tempo program clock = .error fault :=
        ⟨_, if_neg valid⟩
      refine .inr ⟨.reads fun u => ?_, fun _ => funext fun other => if_neg fun both => valid both.2⟩
      obtain ⟨fault, refuses⟩ := refused u.clock
      rw [refuses]
      exact .stays fun _ => rfl
  | finished id =>
    exact .inr ⟨(StandsBy.playbackNamed id).bind fun i =>
      (StandsBy.playback i).bind fun _ => .pure _, fun _ => rfl⟩
  | render ref source start tempo =>
    exact .inr ⟨(StandsBy.build source).bind fun _ => (StandsBy.engineOf ref).bind fun _ =>
      (StandsBy.render _ _ _ _).bind fun _ => .pure _, fun _ => rfl⟩
  | trigger ref sound duration start velocity =>
    exact .inr ⟨(StandsBy.engineOf ref).bind fun _ =>
      (StandsBy.trigger _ _ _ _ _ _).bind fun _ => .pure _, fun _ => rfl⟩
  | now ref =>
    exact .inr ⟨(StandsBy.engineFor "now" ref).bind fun e => (StandsBy.engine e).bind fun _ =>
      .reads fun _ => .pure _, fun _ => rfl⟩
  | notes ref =>
    exact .inr ⟨(StandsBy.engineFor "notes" ref).bind fun e =>
      (StandsBy.engine e).bind fun _ => .pure _, fun _ => rfl⟩
  | clear ref =>
    exact .inr ⟨(StandsBy.engineFor "clear" ref).bind fun e =>
      (StandsBy.clear e).bind fun _ => .pure _, fun _ => rfl⟩
  | write ref =>
    exact .inr ⟨(StandsBy.engineFor "write" ref).bind fun e =>
      (StandsBy.write e).bind fun _ => .pure _, fun _ => rfl⟩
  | raise message => exact .inr ⟨.stays fun _ => rfl, fun _ => rfl⟩

/-- A bystander changes at most the name of an engine, and what has that name then is new. -/
theorem exec_standsBy (perform : Performer) {command : Command} (apart : command.standsBy = true)
    (bound : Nat) (named : s.Named) :
    Bystands (command.makes s.clock) s (exec perform bound command s).2 := by
  rcases exec_makes_or_stands perform apart bound with
    ⟨id, tempo, program, rfl, valid⟩ | ⟨stands, none⟩
  · exact exec_engine id valid bound named
  · obtain ⟨idles, names⟩ := stands s
    rw [none]
    exact idles.bystands names named

/-- Whatever the engines are called, a bystander changes nothing that playbacks go by. -/
theorem exec_idles (perform : Performer) {command : Command} (apart : command.standsBy = true)
    (bound : Nat) (s : Stage) : Idles s (exec perform bound command s).2 := by
  rcases exec_makes_or_stands perform apart bound with
    ⟨id, tempo, program, rfl, valid⟩ | ⟨stands, _⟩
  · rw [exec_engine_apply perform id tempo valid]
    exact ⟨rfl, rfl, rfl, rfl, fun e time found =>
      (origin_joined s _ (lt_of_origin found)).trans found⟩
  · exact (stands s).1

theorem execAll_idles {program : List Command}
    (apart : ∀ command ∈ program, command.standsBy = true) (bound place : Nat) (s : Stage) :
    Idles s (execAll perform bound place program s).2 := by
  induction program generalizing s with
  | nil => exact .refl s
  | cons command rest ih =>
    by_cases raised : ∃ message, command = .raise message
    · obtain ⟨message, rfl⟩ := raised
      exact .refl s
    · rw [execAll.eq_3 _ _ _ _ _ fun message same => raised ⟨message, same⟩,
        bind_of_ok (attempt_apply _ s)]
      have first := exec_idles perform (apart command List.mem_cons_self) bound s
      have told := (StandsBy.answer place (exec perform bound command s).1
        (exec perform bound command s).2).1
      exact (first.trans told).trans
        (ih (fun command here => apart command (List.mem_cons_of_mem _ here)) _)

/-- A callback that stands by changes nothing that playbacks go by, however deep it is entered. -/
theorem perform_idles {callback : Callback} (apart : callback.StandsBy) (deep place : Nat)
    (s : Stage) : Idles s (Act.perform deep place callback.program s).2 := by
  cases deep with
  | zero => exact .refl s
  | succ deep => exact execAll_idles apart deep place s

/-- A program of bystanders raises what it raises whatever it finds. -/
theorem execAll_standsBy {program : List Command}
    (apart : ∀ command ∈ program, command.standsBy = true) (bound place : Nat) (named : s.Named) :
    (execAll perform bound place program s).1 =
      (match program.findSome? Command.raises? with
        | some fault => .error fault
        | none => .ok ()) ∧
    Bystands (programMakes s.clock · program) s (execAll perform bound place program s).2 := by
  induction program generalizing s with
  | nil => exact ⟨rfl, .refl named⟩
  | cons command rest ih =>
    by_cases raised : ∃ message, command = .raise message
    · obtain ⟨message, rfl⟩ := raised
      exact ⟨rfl, .refl named⟩
    · have others : ∀ command ∈ rest, command.standsBy = true :=
        fun command here => apart command (List.mem_cons_of_mem _ here)
      have first := exec_standsBy perform (apart command (by simp)) bound named
      let u := (answer place (exec perform bound command s).1 (exec perform bound command s).2).2
      have told := (StandsBy.answer place (exec perform bound command s).1
        (exec perform bound command s).2)
      have answered : Bystands (command.makes s.clock) s u :=
        first.trans (told.1.bystands told.2 first.named)
      obtain ⟨outcome, later⟩ := ih others answered.named
      have quiet : command.raises? = none := by
        cases command with
        | raise message => exact absurd ⟨message, rfl⟩ raised
        | _ => rfl
      have makes : (programMakes s.clock · (command :: rest)) = fun id =>
          (programMakes s.clock id rest).or (command.makes s.clock id) :=
        funext fun id => programMakes.eq_3 _ _ _ _ fun message same => raised ⟨message, same⟩
      rw [execAll.eq_3 _ _ _ _ _ fun message same => raised ⟨message, same⟩,
        bind_of_ok (attempt_apply _ s), List.findSome?_cons, quiet, makes]
      rw [answered.idles.clock] at later
      exact ⟨outcome, answered.trans later⟩

/-- Entering the callback of a playback, where it stands by, changes nothing that playbacks go
by. -/
theorem enter_standsBy {callback : Option Callback} (apart : ∀ c ∈ callback, c.StandsBy)
    (bound place : Nat) (named : s.Named) :
    (enter (Act.perform (bound + 1)) place callback s).1 =
      (callback.map Callback.outcome).getD (.ok ()) ∧
    Bystands (fun id => callback.bind fun c => programMakes s.clock id c.program) s
      (enter (Act.perform (bound + 1)) place callback s).2 := by
  cases callback with
  | none => exact ⟨rfl, .refl named⟩
  | some c => exact execAll_standsBy (apart c rfl) bound place named

end Act
end Solfege
