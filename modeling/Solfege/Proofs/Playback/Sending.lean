import Solfege.Proofs.Playback.Units

/-! Rendering a score at once. It succeeds exactly when the start is a number and every event has a
time, a length and names of pitches, and what it leaves on an engine can then be told from them. -/
namespace Solfege

/-- The notes of an event of a score that begins at some time. -/
def Event.notesFrom (event : Event) (begin scale : Binary64) (tempo : Number) :
    List RecordedNote :=
  (Recorder.notesFor (.real (event.lasts tempo))
    (.real (begin + event.comes scale + event.onset (event.lasts tempo)))
    (.real event.sound.velocity) event.sound.names).1

/-- The notes of a score that begins at some time. -/
def Music.notesFrom (music : Music) (begin scale : Binary64) (tempo : Number) :
    List RecordedNote :=
  music.flatMap (·.notesFrom begin scale tempo)

/-- An event that can be sent to an engine in a score that starts at a number of seconds. -/
structure Event.Sendable (event : Event) (start : Number) (begin scale : Binary64)
    (tempo : Number) : Prop where
  start : start.toReal = .ok begin
  timed : event.Timed scale tempo
  pitches : ∀ name ∈ event.sound.names, ∃ number, Pitch.numberOf name = .ok number

theorem Event.Playable.sendable {event : Event} {scale : Binary64} {tempo : Number}
    (playable : event.Playable scale tempo) : event.Sendable (.real 0) 0 scale tempo :=
  ⟨rfl, playable.timed, playable.names⟩

namespace Stage
variable {s : Stage} {e : Nat} {recorder : Recorder}

/-- A stage on which an engine has recorded something. -/
def replaced (s : Stage) (e : Nat) (recorder : Recorder) (told : List Happening) : Stage :=
  { s with engines := s.engines.set e recorder, journal := s.journal ++ told }

theorem replaced_engine (found : s.engines[e]? = some recorder) (later : Recorder)
    (told : List Happening) : (s.replaced e later told).engines[e]? = some later :=
  List.getElem?_set_self (List.getElem?_eq_some_iff.mp found).1

theorem replaced_replaced (first second : Recorder) (told more : List Happening) :
    (s.replaced e first told).replaced e second more = s.replaced e second (told ++ more) := by
  simp [replaced]

theorem replaced_self (found : s.engines[e]? = some recorder) : s.replaced e recorder [] = s := by
  obtain ⟨there, rfl⟩ := List.getElem?_eq_some_iff.mp found
  simp [replaced]

end Stage

namespace Act
variable {s t : Stage} {e : Nat} {recorder : Recorder} {score : Music} {start tempo : Number}
  {begin scale : Binary64}

theorem pitches_of_trigger {source engine : Option Nat} {names : List String}
    {duration start velocity : Number}
    (done : trigger source engine names duration start velocity s = (.ok (), t)) :
    ∀ name ∈ names, ∃ number, Pitch.numberOf name = .ok number := by
  cases engine with
  | none => cases done
  | some e =>
    obtain ⟨recorder, u, _, done⟩ := of_bind_ok done
    dsimp only at done
    rw [modify_bind] at done
    obtain ⟨⟨⟩, v, heard, _⟩ := of_bind_ok done
    exact Recorder.notesFor_ok.mp (congrArg Prod.fst heard)

/-- What a score is that could be sent to an engine. -/
theorem sendable_of_renderUnits {engine : Option Nat}
    (done : renderUnits engine scale start tempo score s = (.ok (), t)) :
    ∃ begin, ∀ event ∈ score, event.Sendable start begin scale tempo := by
  induction score generalizing s with
  | nil => exact ⟨0, by simp⟩
  | cons event rest ih =>
    obtain ⟨seconds, u, lasts, done⟩ := of_bind_ok done
    obtain ⟨delay, u, comes, done⟩ := of_bind_ok done
    obtain ⟨begin, u, real, done⟩ := of_bind_ok done
    obtain ⟨⟨⟩, u, sounds, done⟩ := of_bind_ok done
    obtain ⟨other, later⟩ := ih done
    have real : start.toReal = .ok begin := congrArg Prod.fst real
    have first : event.Sendable start begin scale tempo :=
      ⟨real, ⟨⟨delay, congrArg Prod.fst comes⟩, ⟨seconds, congrArg Prod.fst lasts⟩⟩,
        pitches_of_trigger sounds⟩
    refine ⟨begin, List.forall_mem_cons.mpr ⟨first, fun event here => ?_⟩⟩
    exact ⟨real, (later event here).timed, (later event here).pitches⟩

theorem dispatch_sends {event : Event} (found : s.engines[e]? = some recorder)
    (sendable : event.Sendable start begin scale tempo) :
    ∃ told, dispatch none (some e) event (event.lasts tempo) (begin + event.comes scale) s =
      (.ok (), s.replaced e
        { recorder with notes := recorder.notes ++ event.notesFrom begin scale tempo } told) :=
  ⟨_, trigger_real none found (Recorder.trigger_pitches sendable.pitches ..)⟩

/-- A score that can be sent to an engine leaves its notes there and changes nothing else. -/
theorem renderUnits_sends (found : s.engines[e]? = some recorder)
    (sendable : ∀ event ∈ score, event.Sendable start begin scale tempo) :
    ∃ told, renderUnits (some e) scale start tempo score s = (.ok (), s.replaced e
      { recorder with notes := recorder.notes ++ score.notesFrom begin scale tempo } told) := by
  induction score generalizing s recorder with
  | nil => exact ⟨[], by simp [renderUnits, Music.notesFrom, Stage.replaced_self found]⟩
  | cons event rest ih =>
    obtain ⟨first, others⟩ := List.forall_mem_cons.mp sendable
    obtain ⟨said, sounds⟩ := dispatch_sends found first
    -- What is told differs from event to event, so the two replacements are joined into one.
    obtain ⟨told, later⟩ := ih (Stage.replaced_engine found _ said) others
    refine ⟨said ++ told, ?_⟩
    rw [renderUnits, first.timed.seconds_eq, ofExcept_bind_ok, first.timed.delay_eq,
      ofExcept_bind_ok, first.start, ofExcept_bind_ok, bind_of_ok sounds, later,
      Stage.replaced_replaced, List.append_assoc]
    rfl

/-- What a rendering that succeeds has done. -/
theorem render_ok {length : Binary64} (found : s.engines[e]? = some recorder)
    (done : render (some e) score start tempo s = (.ok length, t)) :
    ∃ scale begin told, Duration.tempoScale tempo = .ok scale ∧
      (∀ event ∈ score, event.Sendable start begin scale tempo) ∧
      score.seconds tempo = .ok length ∧
      t = s.replaced e
        { recorder with notes := recorder.notes ++ score.notesFrom begin scale tempo } told := by
  obtain ⟨scale, u, scaled, done⟩ := of_bind_ok done
  obtain rfl : s = u := congrArg Prod.snd scaled
  obtain ⟨⟨⟩, v, units, last⟩ := of_bind_ok done
  obtain ⟨begin, sendable⟩ := sendable_of_renderUnits units
  obtain ⟨told, sent⟩ := renderUnits_sends found sendable
  refine ⟨scale, begin, told, congrArg Prod.fst scaled, sendable, congrArg Prod.fst last, ?_⟩
  exact (congrArg Prod.snd last).symm.trans (congrArg Prod.snd (units.symm.trans sent))

theorem render_sends (found : s.engines[e]? = some recorder)
    (scaled : Duration.tempoScale tempo = .ok scale)
    (sendable : ∀ event ∈ score, event.Sendable start begin scale tempo) :
    ∃ told, render (some e) score start tempo s = (.ok (score.lasts scale tempo), s.replaced e
      { recorder with notes := recorder.notes ++ score.notesFrom begin scale tempo } told) := by
  obtain ⟨told, sent⟩ := renderUnits_sends found sendable
  refine ⟨told, ?_⟩
  rw [render, scaled, ofExcept_bind_ok, bind_of_ok sent,
    Music.seconds_eq scaled fun event here => (sendable event here).timed]
  rfl

end Act

end Solfege
