import Solfege.Proofs.Text.Decimal
import Solfege.Shorthand.Token

/-! How text falls into tokens. A blank parts the text before it from the text behind it, and a word
of the alphabet is one token. -/
namespace Solfege.Shorthand
variable {pending word rest text : List Char} {c : Char}

/-- A word of the alphabet. -/
def IsToken (token : String) : Prop := token ≠ "" ∧ ∀ c ∈ token.toList, c ∈ alphabet

instance (token : String) : Decidable (IsToken token) :=
  @instDecidableAnd _ _ (inferInstanceAs (Decidable (token ≠ "")))
    (List.decidableBAll _ token.toList)

theorem not_blank_of_mem_alphabet : ∀ c ∈ alphabet, Text.isBlank c = false :=
  Text.not_blank_of_all (by decide)

theorem scan_blank (blank : Text.isBlank c) :
    scan pending (text ++ c :: rest) = scan pending text ++ scan [] rest := by
  induction text generalizing pending with
  | nil => simp [scan, blank]
  | cons d text ih =>
    rw [List.cons_append, scan, scan]
    split
    · rw [ih, List.append_assoc]
    · split
      · exact ih
      · exact ih

theorem scan_word (letters : ∀ c ∈ word, c ∈ alphabet) :
    scan pending word = finish (pending ++ word) := by
  induction word generalizing pending with
  | nil => rw [scan, List.append_nil]
  | cons c word ih =>
    have letter : c ∈ alphabet := letters c (by simp)
    rw [scan, not_blank_of_mem_alphabet c letter, if_neg (by simp), if_pos letter,
      ih fun d here => letters d (by simp [here]), List.append_assoc]
    rfl

theorem mem_finish (letters : ∀ c ∈ pending, c ∈ alphabet) :
    ∀ token ∈ finish pending, token ≠ [] ∧ ∀ c ∈ token, c ∈ alphabet := by
  intro token here
  unfold finish at here
  split at here
  · cases here
  · obtain rfl := List.mem_singleton.mp here
    exact ⟨by simp_all, letters⟩

theorem mem_scan (letters : ∀ c ∈ pending, c ∈ alphabet) :
    ∀ token ∈ scan pending text, token ≠ [] ∧ ∀ c ∈ token, c ∈ alphabet := by
  induction text generalizing pending with
  | nil => exact mem_finish letters
  | cons c rest ih =>
    intro token here
    rw [scan] at here
    split at here
    · rcases List.mem_append.mp here with last | later
      · exact mem_finish letters token last
      · exact ih (by simp) token later
    · split at here
      · rename_i letter
        refine ih (fun d inside => ?_) token here
        rcases List.mem_append.mp inside with old | new
        · exact letters d old
        · rwa [List.mem_singleton.mp new]
      · exact ih letters token here

theorem isToken_of_mem_tokens {text token : String} (here : token ∈ tokens text) :
    IsToken token := by
  obtain ⟨word, found, rfl⟩ := List.mem_map.mp here
  obtain ⟨nonempty, letters⟩ := mem_scan (by simp) word found
  exact ⟨by simpa using nonempty, by simpa using letters⟩

theorem scan_blanks {blanks : List Char} (blank : ∀ c ∈ blanks, Text.isBlank c = true) :
    scan [] (blanks ++ rest) = scan [] rest := by
  induction blanks with
  | nil => rfl
  | cons c blanks ih =>
    rw [List.cons_append, scan, if_pos (blank c List.mem_cons_self),
      ih fun d here => blank d (List.mem_cons_of_mem c here)]
    rfl

/-- Blanks between two texts keep the tokens of both apart, whatever the texts end and begin with.
-/
theorem tokens_blanks {blanks : String} (some : blanks ≠ "")
    (blank : ∀ c ∈ blanks.toList, Text.isBlank c = true) (text rest : String) :
    tokens (text ++ blanks ++ rest) = tokens text ++ tokens rest := by
  rw [tokens, String.toList_append, String.toList_append, List.append_assoc]
  cases chars : blanks.toList with
  | nil => exact absurd (String.toList_eq_nil_iff.mp chars) some
  | cons c others =>
    rw [chars] at blank
    rw [List.cons_append, scan_blank (blank c List.mem_cons_self),
      scan_blanks fun d here => blank d (List.mem_cons_of_mem c here), List.map_append]
    rfl

theorem tokens_append (text rest : String) :
    tokens (text ++ " " ++ rest) = tokens text ++ tokens rest :=
  tokens_blanks (by simp) (List.all_eq_true.mp (by decide)) text rest

theorem tokens_intercalate (texts : List String) :
    tokens (" ".intercalate texts) = texts.flatMap tokens := by
  induction texts with
  | nil => rfl
  | cons text rest ih =>
    cases rest with
    | nil => simp
    | cons next rest =>
      rw [String.intercalate_cons_cons, tokens_append, ih]
      rfl

theorem tokens_word {token : String} (valid : IsToken token) : tokens token = [token] := by
  have whole : finish token.toList = [token.toList] := if_neg (by simpa using valid.1)
  rw [tokens, scan_word valid.2, List.nil_append, whole]
  simp

/-- Tokens with spaces between them are read back. -/
theorem tokens_words {words : List String} (valid : ∀ word ∈ words, IsToken word) :
    tokens (" ".intercalate words) = words := by
  rw [tokens_intercalate]
  induction words with
  | nil => rfl
  | cons word rest ih =>
    rw [List.flatMap_cons, tokens_word (valid word (by simp)),
      ih fun word here => valid word (List.mem_cons_of_mem _ here)]
    rfl

end Solfege.Shorthand
