import Solfege.Proofs.Binary64.Unsigned
import Solfege.Proofs.Music.Playable
import Solfege.Proofs.Recorder.Ticks
import Solfege.Proofs.Recorder.Writing
import Solfege.Proofs.Shorthand.Compile

/-! The timeline of compiled music. Each note comes where the one before it ends, the first at zero,
and the music is over where the last one ends. However many notes a text has, the time of each is
zero or between 2^-10 and 2^56 seconds. -/
namespace Solfege
open Binary64

namespace Binary64
variable {x : Binary64} {xs : List Binary64}

theorem greatest_mem (found : greatest xs = some x) : x ∈ xs := by
  have step (best : Binary64) (rest : List Binary64) :
      rest.foldl (fun best y => if best < y then y else best) best ∈ best :: rest := by
    induction rest generalizing best with
    | nil => exact List.mem_singleton_self best
    | cons y rest ih =>
      rw [List.foldl_cons]
      split
      · exact List.mem_cons_of_mem best (ih y)
      · rcases List.mem_cons.mp (ih best) with same | later
        · rw [same]
          exact List.mem_cons_self
        · exact List.mem_cons_of_mem best (List.mem_cons_of_mem y later)
  cases xs with
  | nil => cases found
  | cons first rest =>
    obtain rfl := Option.some.inj found
    exact step first rest

/-- Among values without a sign it does not matter which of equal ones is taken as the greatest. -/
theorem greatest_eq (unsigned : ∀ y ∈ xs, Unsigned y) (here : x ∈ xs) (top : ∀ y ∈ xs, y ≤ x) :
    greatest xs = some x := by
  obtain ⟨most, found, le⟩ := le_greatest (fun y there => le_self_left (top y there)) here
  have member := greatest_mem found
  rw [found, (unsigned most member).le_antisymm (unsigned x here) (top most member) le]

end Binary64

/-- A duration of the grammar lasts a whole number of ticks. -/
theorem Duration.codeSeconds_onTicks {code : String}
    (valid : code.toList ∈ Shorthand.durations) :
    ∃ q k, Recorder.OnTicks q k ∧ ∀ tempo, 0 < tempo →
      codeSeconds code (.real tempo) = .ok (ofRatio q.num q.den * (60 / tempo)) := by
  obtain ⟨q, k, exact, grid⟩ := Recorder.onTicks_grammar valid
  have real : quartersReal q = .ok (ofRatio q.num q.den) := by
    rw [quartersReal, if_pos grid.near.isFinite]
    rfl
  refine ⟨q, k, grid, fun tempo positive => ?_⟩
  rw [codeSeconds_eq positive, trimmed_grammar valid, bind_eq_ok.mpr ⟨q, exact, real⟩,
    Except.map]

/-- An event that comes at a time and lasts for one, as a clock that adds both up reads them. -/
structure Event.Takes (event : Event) (x seconds : Binary64) : Prop where
  time : event.time = .real x
  length : event.length.toSeconds Duration.referenceTempo = .ok seconds
  paced : event.seconds Duration.referenceTempo = .ok seconds
  moderate : Moderate x
  brief : Brief seconds

/-- Music without a gap from one reading of the clock to another. -/
inductive Music.Runs : Binary64 → Binary64 → Music → Prop
  | ended {clock : Binary64} : Moderate clock → Runs clock clock []
  | next {clock seconds done : Binary64} {event : Event} {rest : Music} :
      event.Takes clock seconds → Runs (clock + seconds) done rest →
      Runs clock done (event :: rest)

/-- Notes run from where they are laid out to where the sum of their durations ends. -/
theorem Shorthand.layOut_runs {notes : List ResolvedNote} {clock : Binary64} {music : Music}
    (valid : ∀ note ∈ notes, note.Grammatical) (moderate : Moderate clock)
    (laid : layOut Duration.referenceTempo clock notes = .ok music) :
    ∃ done, music.Runs clock done := by
  induction notes generalizing clock music with
  | nil =>
    cases laid
    exact ⟨clock, .ended moderate⟩
  | cons note rest ih =>
    obtain ⟨q, k, grid, seconds⟩ := Duration.codeSeconds_onTicks (valid note (by simp)).duration
    have lasts := seconds 120 (by decide +kernel)
    obtain ⟨_, same, laid⟩ := bind_eq_ok.mp laid
    cases lasts.symm.trans same
    obtain ⟨later, after, made⟩ := bind_eq_ok.mp laid
    cases made
    obtain ⟨done, runs⟩ := ih (fun note here => valid note (List.mem_cons_of_mem _ here))
      (moderate.add grid.brief) after
    exact ⟨done, .next ⟨rfl, lasts, lasts, moderate, grid.brief⟩ runs⟩

namespace Event.Takes
variable {event : Event} {x seconds : Binary64}

theorem delay (takes : event.Takes x seconds) : event.delay 1 = .ok x := by
  rw [Event.delay, takes.time]
  exact congrArg Except.ok takes.moderate.unsigned.mul_one

theorem timed (takes : event.Takes x seconds) : event.Timed 1 Duration.referenceTempo :=
  ⟨⟨x, takes.delay⟩, ⟨seconds, takes.paced⟩⟩

theorem ends (takes : event.Takes x seconds) :
    event.comes 1 + event.lasts Duration.referenceTempo = x + seconds := by
  rw [Event.comes, Event.lasts, takes.delay, takes.paced]

theorem le_end (takes : event.Takes x seconds) : x ≤ x + seconds :=
  le_add_of_nonneg takes.moderate.isFinite takes.brief.isFinite
    (takes.brief.unsigned.nonneg takes.brief.isFinite)

end Event.Takes

namespace Music.Runs
variable {clock done x : Binary64} {music : Music} {event : Event} {k : Nat}

theorem moderate (runs : music.Runs clock done) : Moderate clock := by
  cases runs with
  | ended moderate => exact moderate
  | next takes => exact takes.moderate

theorem head (runs : music.Runs clock done) : ∀ first ∈ music.head?, first.time = .real clock := by
  cases runs with
  | ended => simp
  | next takes => simpa using takes.time

theorem le (runs : music.Runs clock done) : clock ≤ done := by
  induction runs with
  | ended moderate => exact le_self_right (moderate.unsigned.nonneg moderate.isFinite)
  | next takes _ ih => exact le_trans takes.le_end ih

/-- Behind an event the music runs on from its end. -/
theorem drop (runs : music.Runs clock done) (here : music[k]? = some event) :
    ∃ x seconds, event.Takes x seconds ∧ clock ≤ x ∧
      Runs (x + seconds) done (music.drop (k + 1)) := by
  induction runs generalizing k with
  | ended => cases here
  | @next clock seconds done first rest takes runs ih =>
    cases k with
    | zero =>
      cases here
      exact ⟨clock, seconds, takes, le_self_left takes.le_end, runs⟩
    | succ k =>
      obtain ⟨x, span, later, after, onward⟩ := ih here
      exact ⟨x, span, later, le_trans takes.le_end after, onward⟩

/-- No event comes before the music or ends after it. -/
theorem mem (runs : music.Runs clock done) (here : event ∈ music) :
    ∃ x seconds, event.Takes x seconds ∧ clock ≤ x ∧ x + seconds ≤ done := by
  obtain ⟨k, here⟩ := List.mem_iff_getElem?.mp here
  obtain ⟨x, seconds, takes, after, onward⟩ := runs.drop here
  exact ⟨x, seconds, takes, after, onward.le⟩

theorem last (runs : music.Runs clock done) (here : music.getLast? = some event) :
    ∃ x seconds, event.Takes x seconds ∧ x + seconds = done := by
  rw [List.getLast?_eq_getElem?] at here
  obtain ⟨x, seconds, takes, _, onward⟩ := runs.drop here
  rw [List.drop_of_length_le (by omega)] at onward
  cases onward
  exact ⟨x, seconds, takes, rfl⟩

theorem pairwise (runs : music.Runs clock done) :
    music.Pairwise fun event later => ∃ x y,
      event.time = .real x ∧ later.time = .real y ∧ x ≤ y := by
  induction runs with
  | ended => exact .nil
  | next takes runs ih =>
    refine List.pairwise_cons.mpr ⟨fun later here => ?_, ih⟩
    obtain ⟨y, _, there, after, _⟩ := runs.mem here
    exact ⟨_, y, takes.time, there.time, le_trans takes.le_end after⟩

/-- The music is over where its last event ends. -/
theorem seconds (runs : music.Runs clock done) (some : music ≠ []) :
    music.seconds Duration.referenceTempo = .ok done := by
  have timed : ∀ event ∈ music, event.Timed 1 Duration.referenceTempo := by
    intro event here
    obtain ⟨_, _, takes, _⟩ := runs.mem here
    exact takes.timed
  have found := List.getLast?_eq_some_getLast some
  obtain ⟨x, seconds, takes, rfl⟩ := runs.last found
  have top : greatest (music.map fun event =>
      event.comes 1 + event.lasts Duration.referenceTempo) = .some (x + seconds) := by
    apply greatest_eq
    · intro y there
      obtain ⟨event, here, rfl⟩ := List.mem_map.mp there
      obtain ⟨_, _, takes, _⟩ := runs.mem here
      exact takes.ends ▸ (takes.moderate.add takes.brief).unsigned
    · exact List.mem_map.mpr ⟨_, List.mem_of_getLast? found, takes.ends⟩
    · intro y there
      obtain ⟨event, here, rfl⟩ := List.mem_map.mp there
      obtain ⟨_, _, takes, _, before⟩ := runs.mem here
      exact takes.ends ▸ before
  rw [seconds_eq Duration.tempoScale_reference timed, lasts, top]
  rfl

end Music.Runs

/-- An event that comes at a moderate time. -/
def Event.Laid (event : Event) : Prop := ∃ x, event.time = .real x ∧ Moderate x

theorem Shorthand.layOut_laid {notes : List ResolvedNote} {clock : Binary64} {music : Music}
    (valid : ∀ note ∈ notes, note.Grammatical) (moderate : Moderate clock)
    (laid : layOut Duration.referenceTempo clock notes = .ok music) :
    (∀ event ∈ music, event.Laid) ∧ ∀ first ∈ music.head?, first.time = .real clock := by
  obtain ⟨done, runs⟩ := layOut_runs valid moderate laid
  refine ⟨fun event here => ?_, runs.head⟩
  obtain ⟨x, _, takes, _⟩ := runs.mem here
  exact ⟨x, takes.time, takes.moderate⟩

/-- Music as one line without gaps: the first event comes at zero, each further one where the one
before it ends, and the music is over where the last one ends. -/
structure Music.Gapless (music : Music) : Prop where
  first : ∀ event ∈ music.head?, event.time = .real 0
  next : ∀ (k : Nat) (event after : Event), music[k]? = some event → music[k + 1]? = some after →
    ∃ x seconds, event.time = .real x ∧
      event.length.toSeconds Duration.referenceTempo = .ok seconds ∧
      after.time = .real (x + seconds)
  finite : ∀ event ∈ music, ∃ x, event.time = .real x ∧ x.isFinite
  ordered : music.Pairwise fun event later => ∃ x y,
    event.time = .real x ∧ later.time = .real y ∧ x ≤ y
  silent : music = [] → music.seconds Duration.referenceTempo = .ok 0
  last : ∀ event ∈ music.getLast?, ∃ x seconds, event.time = .real x ∧
    event.length.toSeconds Duration.referenceTempo = .ok seconds ∧
    music.seconds Duration.referenceTempo = .ok (x + seconds) ∧
    ∀ other ∈ music, ∃ y span, other.time = .real y ∧
      other.length.toSeconds Duration.referenceTempo = .ok span ∧ y + span ≤ x + seconds

theorem Music.Runs.gapless {music : Music} {done : Binary64} (runs : music.Runs 0 done) :
    music.Gapless where
  first := runs.head
  next := by
    intro k event after here there
    obtain ⟨x, seconds, takes, _, onward⟩ := runs.drop here
    refine ⟨x, seconds, takes.time, takes.length, onward.head after ?_⟩
    rw [List.head?_drop, there]
    rfl
  finite := by
    intro event here
    obtain ⟨x, _, takes, _⟩ := runs.mem here
    exact ⟨x, takes.time, takes.moderate.isFinite⟩
  ordered := runs.pairwise
  silent := by
    rintro rfl
    exact Music.seconds_eq Duration.tempoScale_reference (by simp)
  last := by
    intro event found
    obtain ⟨x, seconds, takes, rfl⟩ := runs.last found
    refine ⟨x, seconds, takes.time, takes.length, runs.seconds ?_, fun other here => ?_⟩
    · rintro rfl
      cases found
    · obtain ⟨y, span, there, _, before⟩ := runs.mem here
      exact ⟨y, span, there.time, there.length, before⟩

/-- Every text compiles to music that is one line without gaps, however long it is. -/
theorem Shorthand.compile_gapless (text : String) :
    ∃ compiled, compile text = .ok compiled ∧ compiled.music.Gapless := by
  obtain ⟨music, compiled, laid, _⟩ := compile_ok text
  obtain ⟨done, runs⟩ := layOut_runs (resolved_grammatical text) .zero laid
  exact ⟨_, compiled, runs.gapless⟩

end Solfege
