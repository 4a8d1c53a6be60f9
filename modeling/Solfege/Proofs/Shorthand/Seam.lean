import Solfege.Proofs.Outcome
import Solfege.Proofs.Shorthand.Compile

/-! Text that goes on behind blanks. Its notes take up the octave, the duration and the time that
the text before it leaves, and the music and the rejected tokens of that text stay as they are. -/
namespace Solfege.Shorthand
variable {tempo : Number} {text blanks rest : String}

/-! Tokens. -/

section
variable (some : blanks ≠ "") (blank : ∀ c ∈ blanks.toList, Text.isBlank c = true)
include some blank

theorem accepted_blanks (text rest : String) :
    accepted (text ++ blanks ++ rest) = accepted text ++ accepted rest := by
  rw [accepted_eq, tokens_blanks some blank, List.filterMap_append, ← accepted_eq, ← accepted_eq]

theorem rejected_blanks (text rest : String) :
    rejected (text ++ blanks ++ rest) = rejected text ++ rejected rest := by
  rw [rejected_eq, tokens_blanks some blank, List.filter_append, ← rejected_eq, ← rejected_eq]

end

/-! What notes leave to those that follow. -/

/-- The carry behind some notes. -/
def leave (carry : Carry) : List PartialNote → Carry
  | [] => carry
  | note :: rest => leave (resolveStep carry note).2 rest

theorem resolve_append (carry : Carry) (notes more : List PartialNote) :
    resolve carry (notes ++ more) = resolve carry notes ++ resolve (leave carry notes) more := by
  induction notes generalizing carry with
  | nil => rfl
  | cons note rest ih => exact congrArg (_ :: ·) (ih _)

/-- What is carried on is what the last note was filled in with. -/
theorem leave_eq (carry : Carry) (notes : List PartialNote) :
    (leave carry notes).octave =
      (((resolve carry notes).getLast?).map (·.octave)).getD carry.octave ∧
    (leave carry notes).duration =
      (((resolve carry notes).getLast?).map (·.duration)).getD carry.duration := by
  induction notes generalizing carry with
  | nil => exact ⟨rfl, rfl⟩
  | cons note rest ih =>
    obtain ⟨octave, duration⟩ := ih (resolveStep carry note).2
    rw [leave, octave, duration, resolve, List.getLast?_cons]
    cases (resolve (resolveStep carry note).2 rest).getLast? <;> exact ⟨rfl, rfl⟩

theorem leave_grammatical {carry : Carry} {notes : List PartialNote}
    (valid : ∀ note ∈ notes, note.Grammatical) (carried : carry.Grammatical) :
    (leave carry notes).Grammatical := by
  induction notes generalizing carry with
  | nil => exact carried
  | cons note rest ih =>
    exact ih (fun note here => valid note (List.mem_cons_of_mem _ here))
      (resolveStep_grammatical (valid note List.mem_cons_self) carried).2

/-- The time at which notes are over that are laid out from a time: the running sum of their
durations. -/
def runOut (tempo : Number) (clock : Binary64) : List ResolvedNote → Except Fault Binary64
  | [] => return clock
  | note :: rest => do
    let seconds ← Duration.codeSeconds note.duration tempo
    runOut tempo (clock + seconds) rest

/-- Notes are laid out on one timeline with those before them, if the durations of those before can
be summed. -/
theorem layOut_append {clock done : Binary64} {notes more : List ResolvedNote} {music : Music}
    (laid : layOut tempo clock notes = .ok music) (total : runOut tempo clock notes = .ok done) :
    layOut tempo clock (notes ++ more) = (layOut tempo done more).map (music ++ ·) := by
  induction notes generalizing clock music with
  | nil =>
    cases laid
    cases total
    rw [List.nil_append]
    cases layOut tempo done more <;> rfl
  | cons note rest ih =>
    obtain ⟨seconds, lasts, later⟩ := bind_eq_ok.mp laid
    obtain ⟨others, after, same⟩ := bind_eq_ok.mp later
    obtain ⟨_, again, total⟩ := bind_eq_ok.mp total
    cases lasts.symm.trans again
    cases same
    rw [List.cons_append, layOut, lasts]
    dsimp only [bind, Except.bind]
    rw [ih after total]
    cases layOut tempo done more <;> rfl

theorem runOut_ok {notes : List ResolvedNote} (valid : ∀ note ∈ notes, note.Grammatical)
    (clock : Binary64) : ∃ done, runOut Duration.referenceTempo clock notes = .ok done := by
  induction notes generalizing clock with
  | nil => exact ⟨clock, rfl⟩
  | cons note rest ih =>
    obtain ⟨quarters, seconds⟩ := Duration.codeSeconds_grammar (valid note (by simp)).duration
    obtain ⟨done, total⟩ := ih (fun note here => valid note (List.mem_cons_of_mem _ here))
      (clock + quarters * (60 / 120))
    exact ⟨done, bind_eq_ok.mpr ⟨_, seconds 120 (by decide +kernel), total⟩⟩

/-- The octave and the duration that a text leaves: those of its last note, and those of the start
when it has none. -/
structure Carry.LeftBy (carry : Carry) (text : String) : Prop where
  octave : carry.octave = ((resolved text).getLast?.map (·.octave)).getD "3"
  duration : carry.duration = ((resolved text).getLast?.map (·.duration)).getD "4n"

/-- A text compiles in one with what follows it behind blanks as it compiles alone, and what follows
goes on from the octave, the duration and the time that it leaves. -/
theorem compile_blanks (text rest : String) (some : blanks ≠ "")
    (blank : ∀ c ∈ blanks.toList, Text.isBlank c = true) :
    ∃ first second whole carry clock later,
      compile text = .ok first ∧ compile rest = .ok second ∧
      compile (text ++ blanks ++ rest) = .ok whole ∧
      carry.LeftBy text ∧ runOut Duration.referenceTempo 0 (resolved text) = .ok clock ∧
      layOut Duration.referenceTempo clock (resolve carry (accepted rest)) = .ok later ∧
      whole.music = first.music ++ later ∧ whole.rejected = first.rejected ++ second.rejected := by
  obtain ⟨music, compiled, laid, _⟩ := compile_ok text
  obtain ⟨_, again, _⟩ := compile_ok rest
  obtain ⟨clock, total⟩ := runOut_ok (resolved_grammatical text) 0
  obtain ⟨octave, duration⟩ := leave_eq .initial (accepted text)
  have left := leave_grammatical (accepted_grammatical text) Carry.initial_grammatical
  have positive : (0 : Binary64) < 120 := by decide +kernel
  obtain ⟨later, goesOn, _⟩ :=
    layOut_ok (resolve_grammatical (accepted_grammatical rest) left) positive clock
  have both : layOut Duration.referenceTempo 0 (resolved (text ++ blanks ++ rest)) =
      .ok (music ++ later) := by
    rw [resolved, accepted_blanks some blank, resolve_append, ← resolved, layOut_append laid total,
      Duration.referenceTempo, goesOn]
    rfl
  exact ⟨_, _, _, leave .initial (accepted text), clock, later, compiled, again,
    compile_of_layOut both, ⟨octave, duration⟩, total, goesOn, rfl,
    rejected_blanks some blank text rest⟩

/-- A character that is left out stands next to the blanks on both sides. -/
theorem compile_blanks_dropped : ∃ first second whole carry clock later,
    compile "c5,8n q é" = .ok first ∧ compile "é, e d,2n" = .ok second ∧
    compile ("c5,8n q é" ++ "\u2003\n" ++ "é, e d,2n") = .ok whole ∧
    Carry.LeftBy carry "c5,8n q é" ∧
    runOut Duration.referenceTempo 0 (resolved "c5,8n q é") = .ok clock ∧
    layOut Duration.referenceTempo clock (resolve carry (accepted "é, e d,2n")) = .ok later ∧
    whole.music = first.music ++ later ∧ whole.rejected = first.rejected ++ second.rejected :=
  compile_blanks "c5,8n q é" "é, e d,2n" (by simp) (List.all_eq_true.mp (by decide))

end Solfege.Shorthand
