import Solfege.Proofs.Shorthand.Compile

/-! What is told of a compilation. Every token is either a note of the music or named in the
warning, in order, and the warning can be taken apart again although tokens may hold commas. -/
namespace Solfege

namespace Text
variable {piece rest pending : List Char}

/-- The pieces of a text between the commas that a space follows; `pending` is the piece begun. -/
def pieces (pending : List Char) : List Char → List (List Char)
  | ',' :: ' ' :: rest => pending :: pieces [] rest
  | c :: rest => pieces (pending ++ [c]) rest
  | [] => [pending]

/-- A text cut at every comma that a space follows. -/
def split (text : String) : List String := (pieces [] text.toList).map String.ofList

theorem pieces_solid (solid : ' ' ∉ piece) : pieces pending piece = [pending ++ piece] := by
  induction piece generalizing pending with
  | nil => rw [pieces, List.append_nil]
  | cons c piece ih =>
    rw [List.mem_cons, not_or] at solid
    rw [pieces, ih solid.2, List.append_assoc]
    · rfl
    · rintro piece - rfl
      exact solid.2 (List.mem_cons_self ..)

/-- The space behind a piece without spaces is the first one, so the cut is where the piece ends,
whatever commas the piece itself ends in. -/
theorem pieces_append (solid : ' ' ∉ piece) :
    pieces pending (piece ++ ',' :: ' ' :: rest) = (pending ++ piece) :: pieces [] rest := by
  induction piece generalizing pending with
  | nil => rw [List.nil_append, pieces, List.append_nil]
  | cons c piece ih =>
    rw [List.mem_cons, not_or] at solid
    rw [List.cons_append, pieces, ih solid.2, List.append_assoc]
    · rfl
    · intro tail _ same
      cases piece with
      | nil => cases same
      | cons d piece =>
        rw [List.cons_append, List.cons.injEq] at same
        exact solid.2 (same.1 ▸ List.mem_cons_self ..)

theorem split_intercalate {words : List String} (some : words ≠ [])
    (solid : ∀ word ∈ words, ' ' ∉ word.toList) : split (", ".intercalate words) = words := by
  have comma : ", ".toList = [',', ' '] := by decide
  induction words with
  | nil => exact absurd rfl some
  | cons word rest ih =>
    have first := solid word (by simp)
    cases rest with
    | nil =>
      rw [split, String.intercalate_singleton, pieces_solid first]
      simp
    | cons next rest =>
      have later := ih (by simp) fun word here => solid word (List.mem_cons_of_mem _ here)
      have chars : (", ".intercalate (word :: next :: rest)).toList =
          word.toList ++ ',' :: ' ' :: (", ".intercalate (next :: rest)).toList := by
        rw [String.intercalate_cons_cons, String.toList_append, String.toList_append, comma,
          List.append_assoc]
        rfl
      rw [split, chars, pieces_append first, List.map_cons, ← split, later]
      simp

end Text

namespace Shorthand
variable {text : String} {carry : Carry}

/-! What is carried. -/

/-- The last of some texts that is written and not empty. -/
def lastWritten (texts : List (Option String)) : Option String :=
  ((texts.filterMap id).filter (· ≠ "")).getLast?

theorem lastWritten_cons (written : Option String) (texts : List (Option String))
    (carried : String) :
    (lastWritten (written :: texts)).getD carried =
      (lastWritten texts).getD (orCarried written carried) := by
  unfold lastWritten
  cases written with
  | none => rfl
  | some text =>
    have kept : (some text :: texts).filterMap id = text :: texts.filterMap id := rfl
    rw [kept]
    by_cases empty : text = ""
    · subst empty
      rfl
    · have taken : orCarried (some text) carried = text := if_neg empty
      rw [List.filter_cons_of_pos (by simpa using empty), List.getLast?_cons, taken]
      rfl

/-- A note is filled in with what was written last, by itself or before it, and at first with what
is carried into the list. -/
theorem resolve_getElem? (carry : Carry) (notes : List PartialNote) (k : Nat) :
    (resolve carry notes)[k]? = notes[k]?.map fun note =>
      { pitchClass := note.pitchClass
        octave := (lastWritten ((notes.take (k + 1)).map (·.octave))).getD carry.octave
        duration :=
          (lastWritten ((notes.take (k + 1)).map (·.duration))).getD carry.duration } := by
  induction notes generalizing carry k with
  | nil => rfl
  | cons note rest ih =>
    rw [List.take_succ_cons, List.map_cons, List.map_cons, lastWritten_cons, lastWritten_cons]
    cases k with
    | zero => rfl
    | succ k =>
      rw [resolve, List.getElem?_cons_succ, List.getElem?_cons_succ, ih]
      rfl

/-! Tokens. -/

theorem map_acceptedTokens (text : String) :
    (acceptedTokens text).map note? = (accepted text).map some := by
  rw [accepted_eq, acceptedTokens]
  induction tokens text with
  | nil => rfl
  | cons token rest ih => cases read : note? token <;> simp [read, ih]

theorem acceptedTokens_length (text : String) :
    (acceptedTokens text).length = (accepted text).length := by
  simpa using congrArg List.length (map_acceptedTokens text)

theorem acceptedTokens_getElem? {k : Nat} {token : String}
    (here : (acceptedTokens text)[k]? = some token) :
    ∃ note, note? token = some note ∧ (accepted text)[k]? = some note := by
  have both := congrArg (·[k]?) (map_acceptedTokens text)
  simp only [List.getElem?_map, here, Option.map_some] at both
  obtain ⟨note, found, is⟩ := Option.map_eq_some_iff.mp both.symm
  exact ⟨note, is.symm, found⟩

/-- A token is a note of the music or left out. -/
theorem tokens_length (text : String) :
    (acceptedTokens text).length + (rejected text).length = (tokens text).length := by
  rw [acceptedTokens, rejected_eq]
  induction tokens text with
  | nil => rfl
  | cons token rest ih => cases read : note? token <;> simp [read] <;> omega

theorem rejected_eq_nil : rejected text = [] ↔ ∀ token ∈ tokens text, (note? token).isSome := by
  rw [rejected_eq, List.filter_eq_nil_iff]
  refine forall₂_congr fun token _ => ?_
  cases note? token <;> simp

/-- No token holds a space, so the warning falls into the tokens that it was joined from. -/
theorem split_rejected (some : rejected text ≠ []) :
    Text.split (", ".intercalate (rejected text)) = rejected text := by
  refine Text.split_intercalate some fun token here => ?_
  rw [rejected_eq] at here
  have letters := (isToken_of_mem_tokens (List.mem_filter.mp here).1).2
  intro space
  have blank := not_blank_of_mem_alphabet ' ' (letters ' ' space)
  exact absurd blank (by decide)

/-! The account that is given of a compilation. -/

/-- The octave of the note of a place: what was written last up to it, or the octave 3. -/
def octaveAt (text : String) (k : Nat) : String :=
  (lastWritten (((accepted text).take (k + 1)).map (·.octave))).getD "3"

/-- Every token of a text is accounted for, in order, by an event or in the warning. -/
structure Compiled.Accounts (compiled : Compiled) (text : String) : Prop where
  whole : compiled.music.length + compiled.rejected.length = (tokens text).length
  notes : ∀ (k : Nat) (token : String), (acceptedTokens text)[k]? = some token → ∃ note event,
    note? token = some note ∧ compiled.music[k]? = some event ∧
      event.sound = .single (note.pitchClass ++ octaveAt text k)
  rejected : compiled.rejected = (tokens text).filter fun token => (note? token).isNone
  silent : compiled.warning? = none ↔ ∀ token ∈ tokens text, (note? token).isSome
  told : ∀ warning ∈ compiled.warning?, Text.split warning = compiled.rejected

theorem warning_none {music : Music} :
    (Compiled.mk music (rejected text)).warning? = none ↔ rejected text = [] := by
  simp [Compiled.warning?]

theorem warning_split {music : Music} {warning : String}
    (told : (Compiled.mk music (rejected text)).warning? = some warning) :
    Text.split warning = rejected text := by
  unfold Compiled.warning? at told
  split at told
  · cases told
  · rename_i some
    obtain rfl := Option.some.inj told
    exact split_rejected (by simpa using some)

theorem sounds_getElem? {music : Music} {notes : List ResolvedNote} {k : Nat} {note : ResolvedNote}
    (sounds : List.Forall₂ Event.Sounds music notes) (here : notes[k]? = some note) :
    ∃ event, music[k]? = some event ∧ event.Sounds note := by
  obtain ⟨inside, rfl⟩ := List.getElem?_eq_some_iff.mp here
  have also : k < music.length := sounds.length_eq ▸ inside
  exact ⟨_, List.getElem?_eq_getElem also, sounds.get also inside⟩

theorem accounts_of_sounds {music : Music}
    (sounds : List.Forall₂ Event.Sounds music (resolved text)) :
    (Compiled.mk music (rejected text)).Accounts text := by
  have size : music.length = (acceptedTokens text).length := by
    rw [sounds.length_eq, resolved, resolve_length, acceptedTokens_length]
  constructor
  · exact size ▸ tokens_length text
  · intro k token here
    obtain ⟨note, is, found⟩ := acceptedTokens_getElem? here
    have full := resolve_getElem? .initial (accepted text) k
    rw [found] at full
    obtain ⟨event, there, heard⟩ := sounds_getElem? sounds full
    refine ⟨note, event, is, there, ?_⟩
    rw [heard.sound, ResolvedNote.pitchName]
    dsimp only [octaveAt, Carry.initial]
  · exact rejected_eq text
  · exact warning_none.trans rejected_eq_nil
  · exact fun warning told => warning_split told

/-- The rejected tokens of a text can be read off its warning. -/
theorem rejected_of_warning {other : String} {music more : Music}
    (same : (Compiled.mk more (rejected other)).warning? =
      (Compiled.mk music (rejected text)).warning?) : rejected other = rejected text := by
  cases told : (Compiled.mk music (rejected text)).warning? with
  | none =>
    rw [told] at same
    rw [warning_none.mp told, warning_none.mp same]
  | some warning =>
    rw [told] at same
    rw [← warning_split told, ← warning_split same]

/-- Compilation loses no token, doubles none and keeps their order: the notes of the music are those
of the accepted tokens at the octaves written last, the warning falls into the others, and the log
holds it once, if there is one. -/
theorem compile_accounts (text : String) : ∃ compiled, compile text = .ok compiled ∧
    compiled.Accounts text ∧
    (∀ other told, compile other = .ok told → told.warning? = compiled.warning? →
      told.rejected = compiled.rejected) ∧
    ∃ journal, compileLogged text = (journal, .ok compiled.music) ∧
      (journal.filterMap Happening.line?).filter (·.severity = .warning) =
        (compiled.warning?.map fun warning => LogLine.mk .warning "intuitune.notation_compiler"
          ("Failed to parse the tokens: " ++ warning)).toList := by
  obtain ⟨music, compiled, _, sounds⟩ := compile_ok text
  refine ⟨_, compiled, accounts_of_sounds sounds, ?_, ?_⟩
  · intro other told found same
    obtain ⟨more, again, _⟩ := compile_ok other
    obtain rfl := Except.ok.inj (found.symm.trans again)
    exact rejected_of_warning same
  · rw [compileLogged, compiled]
    refine ⟨_, rfl, ?_⟩
    cases (Compiled.mk music (rejected text)).warning? <;> rfl

/-- Rejected tokens that hold commas, and end in them, are told apart. -/
theorem compile_accounts_commas : ∃ compiled, compile "c5 c,, , d x, a13,m e" = .ok compiled ∧
    compiled.music.length = 3 ∧ compiled.warning? = some "c,,, ,, x,, a13,m" ∧
    Text.split "c,,, ,, x,, a13,m" = ["c,,", ",", "x,", "a13,m"] := by
  obtain ⟨compiled, found, accounts, _⟩ := compile_accounts "c5 c,, , d x, a13,m e"
  have tokens : tokens "c5 c,, , d x, a13,m e" =
    ["c5", "c,,", ",", "d", "x,", "a13,m", "e"] := by decide
  have rejected : compiled.rejected = ["c,,", ",", "x,", "a13,m"] := by
    rw [accounts.rejected, tokens]
    decide
  have whole := accounts.whole
  have told : compiled.warning? = some "c,,, ,, x,, a13,m" := by
    rw [Compiled.warning?, rejected]
    decide
  have apart := accounts.told _ told
  rw [rejected, tokens] at whole
  rw [rejected] at apart
  exact ⟨compiled, found, Nat.add_right_cancel whole, told, apart⟩

end Shorthand
end Solfege
