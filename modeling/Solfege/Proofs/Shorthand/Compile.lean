import Mathlib.Data.List.Forall2
import Solfege.Proofs.Duration.Seconds
import Solfege.Shorthand.Compile

/-! Compilation always succeeds, and its music is made of the accepted tokens alone. -/
namespace Solfege

/-- A note of the grammar with octave and duration filled in. -/
structure ResolvedNote.Grammatical (note : ResolvedNote) : Prop where
  pitchClass : note.pitchClass.toList ∈ Shorthand.pitchClasses
  octave : note.octave.toList ∈ Shorthand.octaves
  duration : note.duration.toList ∈ Shorthand.durations

/-- An event that sounds a note. -/
structure Event.Sounds (event : Event) (note : ResolvedNote) : Prop where
  time : ∃ x, event.time = .real x
  sound : event.sound = .single note.pitchName
  length : event.length = .code note.duration

namespace Shorthand
variable {text token : String} {tempo : Binary64}

/-! Tokens and notes. -/

theorem accepted_eq (text : String) : accepted text = (tokens text).filterMap note? := by
  rw [accepted, reading, List.filterMap_map]
  rfl

theorem rejected_eq (text : String) :
    rejected text = (tokens text).filter fun token => (note? token).isNone := by
  rw [rejected, reading, List.filterMap_map, ← List.filterMap_eq_filter]
  apply List.filterMap_congr
  intro token _
  simp [Option.guard]

theorem accepted_grammatical (text : String) : ∀ note ∈ accepted text, note.Grammatical := by
  intro note here
  rw [accepted_eq] at here
  obtain ⟨token, _, read⟩ := List.mem_filterMap.mp here
  exact (note?_eq_some read).1

theorem accepted_intercalate (texts : List String) :
    accepted (" ".intercalate texts) = texts.flatMap accepted := by
  have each : accepted = fun text => (tokens text).filterMap note? := funext accepted_eq
  rw [accepted_eq, tokens_intercalate, List.filterMap_flatMap, each]

theorem accepted_token (valid : IsToken token) : accepted token = (note? token).toList := by
  rw [accepted_eq, tokens_word valid]
  cases read : note? token <;> simp [read]

/-! Carrying on. -/

/-- A carry within the grammar. -/
structure Carry.Grammatical (carry : Carry) : Prop where
  octave : carry.octave.toList ∈ octaves
  duration : carry.duration.toList ∈ durations

theorem Carry.initial_grammatical : Carry.initial.Grammatical := by
  constructor <;> decide

theorem orCarried_mem {written : Option String} {carried : String} {texts : List (List Char)}
    (valid : ∀ text ∈ written, text.toList ∈ texts) (kept : carried.toList ∈ texts) :
    (orCarried written carried).toList ∈ texts := by
  unfold orCarried
  split
  · split
    · exact kept
    · exact valid _ rfl
  · exact kept

theorem resolveStep_grammatical {carry : Carry} {note : PartialNote} (valid : note.Grammatical)
    (carried : carry.Grammatical) :
    (resolveStep carry note).1.Grammatical ∧ (resolveStep carry note).2.Grammatical := by
  have octave := orCarried_mem valid.octave carried.octave
  have duration := orCarried_mem valid.duration carried.duration
  exact ⟨⟨valid.pitchClass, octave, duration⟩, ⟨octave, duration⟩⟩

theorem resolve_grammatical {carry : Carry} {notes : List PartialNote}
    (valid : ∀ note ∈ notes, note.Grammatical) (carried : carry.Grammatical) :
    ∀ note ∈ resolve carry notes, note.Grammatical := by
  induction notes generalizing carry with
  | nil => simp [resolve]
  | cons first rest ih =>
    obtain ⟨resolved, next⟩ := resolveStep_grammatical (valid first (by simp)) carried
    intro note here
    rcases List.mem_cons.mp here with rfl | later
    · exact resolved
    · exact ih (fun note here => valid note (List.mem_cons_of_mem _ here)) next note later

theorem resolve_length (carry : Carry) (notes : List PartialNote) :
    (resolve carry notes).length = notes.length := by
  induction notes generalizing carry with
  | nil => rfl
  | cons note rest ih => exact congrArg (· + 1) (ih _)

/-! Laying out. -/

theorem layOut_ok {notes : List ResolvedNote} (valid : ∀ note ∈ notes, note.Grammatical)
    (positive : 0 < tempo) (clock : Binary64) :
    ∃ music, layOut (.real tempo) clock notes = .ok music ∧
      List.Forall₂ Event.Sounds music notes := by
  induction notes generalizing clock with
  | nil => exact ⟨[], rfl, .nil⟩
  | cons note rest ih =>
    obtain ⟨quarters, seconds⟩ := Duration.codeSeconds_grammar (valid note (by simp)).duration
    obtain ⟨later, laid, sounds⟩ :=
      ih (fun note here => valid note (List.mem_cons_of_mem _ here))
        (clock + quarters * (60 / tempo))
    refine ⟨⟨.real clock, .single note.pitchName, .code note.duration⟩ :: later, ?_, ?_⟩
    · rw [layOut, seconds tempo positive]
      dsimp only [bind, Except.bind]
      rw [laid]
      rfl
    · exact .cons ⟨⟨clock, rfl⟩, rfl, rfl⟩ sounds

/-- The notes of a text, filled in. -/
def resolved (text : String) : List ResolvedNote := resolve .initial (accepted text)

theorem resolved_grammatical (text : String) : ∀ note ∈ resolved text, note.Grammatical :=
  resolve_grammatical (accepted_grammatical text) Carry.initial_grammatical

theorem layOut_reference {notes : List ResolvedNote} (valid : ∀ note ∈ notes, note.Grammatical) :
    ∃ music, layOut Duration.referenceTempo 0 notes = .ok music ∧
      List.Forall₂ Event.Sounds music notes :=
  layOut_ok valid (by decide +kernel) 0

theorem compile_of_layOut {music : Music}
    (laid : layOut Duration.referenceTempo 0 (resolved text) = .ok music) :
    compile text = .ok ⟨music, rejected text⟩ := by
  rw [compile, ← resolved, laid]
  rfl

/-- Every text compiles, and the music sounds its notes. -/
theorem compile_ok (text : String) : ∃ music, compile text = .ok ⟨music, rejected text⟩ ∧
    layOut Duration.referenceTempo 0 (resolved text) = .ok music ∧
    List.Forall₂ Event.Sounds music (resolved text) := by
  obtain ⟨music, laid, sounds⟩ := layOut_reference (resolved_grammatical text)
  exact ⟨music, compile_of_layOut laid, laid, sounds⟩

/-! Rejected tokens. -/

/-- The tokens of a text that are notes. -/
def acceptedTokens (text : String) : List String :=
  (tokens text).filter fun token => (note? token).isSome

/-- Rejected tokens have been put between the texts of a list. -/
inductive Strewn : List String → List String → Prop
  | nil : Strewn [] []
  | keep {texts strewn : List String} (text : String) : Strewn texts strewn →
      Strewn (text :: texts) (text :: strewn)
  | insert {texts strewn : List String} {token : String} : IsToken token → note? token = none →
      Strewn texts strewn → Strewn texts (token :: strewn)

theorem tokens_acceptedTokens (text : String) :
    tokens (" ".intercalate (acceptedTokens text)) = acceptedTokens text :=
  tokens_words fun _ here => isToken_of_mem_tokens (List.mem_filter.mp here).1

theorem accepted_acceptedTokens (text : String) :
    accepted (" ".intercalate (acceptedTokens text)) = accepted text := by
  rw [accepted_eq, tokens_acceptedTokens, accepted_eq, acceptedTokens, List.filterMap_filter]
  apply List.filterMap_congr
  intro token _
  cases note? token <;> rfl

theorem rejected_acceptedTokens (text : String) :
    rejected (" ".intercalate (acceptedTokens text)) = [] := by
  rw [rejected_eq, tokens_acceptedTokens, acceptedTokens, List.filter_filter]
  apply List.filter_eq_nil_iff.mpr
  intro token _
  cases note? token <;> simp

theorem Strewn.accepted {texts strewn : List String} (between : Strewn texts strewn) :
    accepted (" ".intercalate strewn) = accepted (" ".intercalate texts) := by
  rw [accepted_intercalate, accepted_intercalate]
  induction between with
  | nil => rfl
  | keep text _ ih => rw [List.flatMap_cons, List.flatMap_cons, ih]
  | insert valid none _ ih => rw [List.flatMap_cons, accepted_token valid, none, ih]; rfl

/-- The accepted tokens of a text have the music of the whole text and leave nothing out, and tokens
that are rejected change no event wherever they are put. -/
theorem rejected_ignored (text : String) :
    (∃ whole alone, compile text = .ok whole ∧
      compile (" ".intercalate (acceptedTokens text)) = .ok alone ∧
      alone.music = whole.music ∧ alone.warning? = none) ∧
    ∀ texts strewn, Strewn texts strewn → ∃ plain mixed,
      compile (" ".intercalate texts) = .ok plain ∧
      compile (" ".intercalate strewn) = .ok mixed ∧ mixed.music = plain.music := by
  have alike {text other : String} {music : Music} (same : accepted other = accepted text)
      (laid : layOut Duration.referenceTempo 0 (resolved text) = .ok music) :
      compile other = .ok ⟨music, rejected other⟩ := by
    rw [resolved, ← same] at laid
    exact compile_of_layOut laid
  constructor
  · obtain ⟨music, compiled, laid, _⟩ := compile_ok text
    have again := alike (accepted_acceptedTokens text) laid
    rw [rejected_acceptedTokens] at again
    exact ⟨_, _, compiled, again, rfl, rfl⟩
  · intro texts strewn between
    obtain ⟨music, compiled, laid, _⟩ := compile_ok (" ".intercalate texts)
    exact ⟨_, _, compiled, alike between.accepted laid, rfl⟩

/-- The rejected token would set an octave and a duration if it were a note. -/
theorem rejected_ignored_between : ∃ plain mixed,
    compile "c5,8n e" = .ok plain ∧ compile "c5,8n c13,2n e" = .ok mixed ∧
      mixed.music = plain.music :=
  (rejected_ignored "").2 ["c5,8n", "e"] ["c5,8n", "c13,2n", "e"]
    (.keep _ (.insert (by decide) (by decide) (.keep _ .nil)))

end Shorthand
end Solfege
