import Mathlib.Data.List.TakeWhile
import Solfege.Proofs.Shorthand.Token

/-! Tokens are what is left of the words of a text, its runs of characters between blanks, when the
characters outside the alphabet are left out of each. Passes over the whole text that trim it,
collapse its blanks, delete and cut at the spaces come to the same tokens. -/
namespace Solfege

namespace Text
variable {c : Char} {word rest text : List Char} {found : List (List Char)}

/-- A text falls into words, runs of characters without blanks that go on as far as they can. -/
inductive Falls : List Char → List (List Char) → Prop
  | nil : Falls [] []
  | blank {c : Char} {rest : List Char} {words : List (List Char)} : isBlank c = true →
      Falls rest words → Falls (c :: rest) words
  | word {word rest : List Char} {words : List (List Char)} : word ≠ [] →
      (∀ c ∈ word, isBlank c = false) → (∀ c ∈ rest.head?, isBlank c = true) →
      Falls rest words → Falls (word ++ rest) (word :: words)

/-- The words of a text. -/
def words (text : List Char) : List (List Char) := (text.splitOnP isBlank).filter (· ≠ [])

theorem words_blank (blank : isBlank c = true) : words (c :: rest) = words rest := by
  rw [words, List.splitOnP_cons_eq_if_modifyHead, if_pos blank, words]
  rfl

theorem words_word (some : word ≠ []) (solid : ∀ c ∈ word, isBlank c = false)
    (ends : ∀ c ∈ rest.head?, isBlank c = true) : words (word ++ rest) = word :: words rest := by
  have alone : (word.splitOnP isBlank).filter (· ≠ []) = [word] := by
    rw [List.splitOnP_eq_singleton solid]
    simp [some]
  cases rest with
  | nil => rw [List.append_nil, words, alone, words, List.splitOnP_nil]; rfl
  | cons c rest =>
    have blank : isBlank c = true := ends c rfl
    rw [words, List.splitOnP_append_cons _ _ blank, List.filter_append, alone, words_blank blank]
    rfl

namespace Falls

/-- There is one way only for a text to fall into words. -/
theorem words_eq (falls : Falls text found) : words text = found := by
  induction falls with
  | nil => rfl
  | blank blank _ ih => rw [words_blank blank, ih]
  | word some solid ends _ ih => rw [words_word some solid ends, ih]

theorem exists_falls (text : List Char) : ∃ found, Falls text found := by
  induction text with
  | nil => exact ⟨[], .nil⟩
  | cons c rest ih =>
    obtain ⟨found, falls⟩ := ih
    by_cases blank : isBlank c = true
    · exact ⟨found, .blank blank falls⟩
    · have solid : isBlank c = false := by simpa using blank
      cases falls with
      | nil => exact ⟨[[c]], .word (List.cons_ne_nil c []) (by simpa) (by simp) .nil⟩
      | blank next falls =>
        exact ⟨[c] :: found, .word (List.cons_ne_nil c []) (by simpa) (by simpa)
          (.blank next falls)⟩
      | @word word _ words _ others ends falls =>
        exact ⟨(c :: word) :: words, .word (List.cons_ne_nil c word)
          (List.forall_mem_cons.mpr ⟨solid, others⟩) ends falls⟩

/-- Words are made of the characters of the text that are no blanks. -/
theorem mem (falls : Falls text found) (here : word ∈ found) :
    word ≠ [] ∧ ∀ c ∈ word, isBlank c = false ∧ c ∈ text := by
  induction falls with
  | nil => cases here
  | blank _ _ ih =>
    obtain ⟨some, chars⟩ := ih here
    exact ⟨some, fun c inside => ⟨(chars c inside).1, List.mem_cons_of_mem _ (chars c inside).2⟩⟩
  | word some solid _ _ ih =>
    rcases List.mem_cons.mp here with rfl | later
    · exact ⟨some, fun c inside => ⟨solid c inside, List.mem_append_left _ inside⟩⟩
    · obtain ⟨some, chars⟩ := ih later
      exact ⟨some, fun c inside => ⟨(chars c inside).1, List.mem_append_right _ (chars c inside).2⟩⟩

end Falls

theorem falls_words (text : List Char) : Falls text (words text) := by
  obtain ⟨found, falls⟩ := Falls.exists_falls text
  rwa [falls.words_eq]

end Text

namespace Shorthand
variable {c : Char} {pending word rest text : List Char}

/-! Words. -/

/-- What is left of a word: its characters of the alphabet. -/
def lettersOf (word : List Char) : List Char := word.filter (· ∈ alphabet)

theorem scan_solid (solid : ∀ c ∈ word, Text.isBlank c = false) :
    scan pending (word ++ rest) = scan (pending ++ lettersOf word) rest := by
  induction word generalizing pending with
  | nil => rw [lettersOf, List.filter_nil, List.append_nil, List.nil_append]
  | cons c word ih =>
    have later {pending : List Char} : scan pending (word ++ rest) =
        scan (pending ++ lettersOf word) rest :=
      ih fun d here => solid d (List.mem_cons_of_mem c here)
    rw [List.cons_append, scan, if_neg (by simp [solid c List.mem_cons_self]), later, later]
    by_cases letter : c ∈ alphabet <;> simp [lettersOf, letter]

/-- A token is over where the text is, and where a blank comes. -/
theorem scan_ends (ends : ∀ c ∈ rest.head?, Text.isBlank c = true) :
    scan pending rest = finish pending ++ scan [] rest := by
  cases rest with
  | nil => exact (List.append_nil _).symm
  | cons c rest =>
    have blank : Text.isBlank c = true := ends c rfl
    rw [scan, scan, if_pos blank, if_pos blank]
    rfl

theorem scan_falls {found : List (List Char)} (falls : Text.Falls text found) :
    scan [] text = (found.map lettersOf).filter (· ≠ []) := by
  induction falls with
  | nil => rfl
  | blank blank _ ih =>
    rw [scan, if_pos blank, ih]
    rfl
  | @word word rest words some solid ends _ ih =>
    rw [scan_solid solid, scan_ends ends, ih, List.map_cons, List.nil_append]
    cases letters : lettersOf word <;> simp [finish]

/-! Passes over the whole text. -/

/-- Every run of blanks made one space; the first argument tells whether one goes on. -/
def collapse : Bool → List Char → List Char
  | _, [] => []
  | within, c :: rest =>
    if Text.isBlank c then
      if within then collapse true rest else ' ' :: collapse true rest
    else c :: collapse false rest

/-- The tokens of a text by passes. It is trimmed, its blanks are collapsed, what is neither of the
alphabet nor a space is deleted, the rest is cut at the spaces, and pieces of blanks are dropped. -/
def passes (text : String) : List String :=
  let clean := (collapse false (Text.trimmed text)).filter fun c => c ∈ alphabet ∨ c = ' '
  ((clean.splitOn ' ').filter fun piece => Text.trim piece ≠ []).map String.ofList

theorem scan_trim (text : List Char) : scan [] (Text.trim text) = scan [] text := by
  obtain ⟨before, behind, whole, blank, also⟩ := Text.exists_trim text
  have front := congrArg (scan []) whole
  rw [List.append_assoc, scan_blanks blank] at front
  rw [front]
  cases behind with
  | nil => rw [List.append_nil]
  | cons c behind =>
    have last : scan [] (behind ++ []) = [] :=
      scan_blanks fun d here => also d (List.mem_cons_of_mem c here)
    rw [List.append_nil] at last
    rw [scan_blank (also c List.mem_cons_self), last, List.append_nil]

theorem scan_collapse (text : List Char) :
    (∀ pending, scan pending (collapse false text) = scan pending text) ∧
      scan [] (collapse true text) = scan [] text := by
  induction text with
  | nil => exact ⟨fun _ => rfl, rfl⟩
  | cons c rest ih =>
    by_cases blank : Text.isBlank c = true
    · have space : Text.isBlank ' ' = true := by decide
      constructor
      · intro pending
        rw [collapse, if_pos blank, if_neg (by simp), scan, if_pos space, scan, if_pos blank, ih.2]
      · rw [collapse, if_pos blank, if_pos rfl, scan, if_pos blank, ih.2]
        rfl
    · have letter (pending : List Char) :
          scan pending (c :: collapse false rest) = scan pending (c :: rest) := by
        rw [scan, scan, if_neg blank, if_neg blank, ih.1, ih.1]
      constructor
      · intro pending
        rw [collapse, if_neg blank, letter]
      · rw [collapse, if_neg blank, letter]

theorem collapse_blank (within : Bool) (text : List Char) :
    ∀ c ∈ collapse within text, Text.isBlank c = true → c = ' ' := by
  induction text generalizing within with
  | nil => simp [collapse]
  | cons c rest ih =>
    rw [collapse]
    split
    · split
      · exact ih true
      · exact List.forall_mem_cons.mpr ⟨fun _ => rfl, ih true⟩
    · rename_i solid
      exact List.forall_mem_cons.mpr ⟨fun blank => absurd blank solid, ih false⟩

/-- Deleting is no matter to the tokens as long as the spaces stay. -/
theorem scan_clean (single : ∀ c ∈ text, Text.isBlank c = true → c = ' ') :
    scan pending (text.filter fun c => c ∈ alphabet ∨ c = ' ') = scan pending text := by
  induction text generalizing pending with
  | nil => rfl
  | cons c rest ih =>
    obtain ⟨first, others⟩ := List.forall_mem_cons.mp single
    by_cases kept : c ∈ alphabet ∨ c = ' '
    · rw [List.filter_cons_of_pos (by simpa using kept), scan, scan, ih others, ih others,
        ih others]
    · obtain ⟨outside, solid⟩ := not_or.mp kept
      rw [List.filter_cons_of_neg (by simpa using kept), ih others, scan,
        if_neg fun blank => solid (first blank), if_neg outside]

theorem splitOn_space (single : ∀ c ∈ text, Text.isBlank c = true → c = ' ') :
    text.splitOn ' ' = text.splitOnP Text.isBlank := by
  rw [List.splitOn_eq_splitOnP]
  induction text with
  | nil => rw [List.splitOnP_nil, List.splitOnP_nil]
  | cons c rest ih =>
    obtain ⟨first, others⟩ := List.forall_mem_cons.mp single
    have alike : (c == ' ') = Text.isBlank c := by
      by_cases space : c = ' '
      · subst space
        decide
      · simp [space, Bool.eq_false_iff.mpr fun blank => space (first blank)]
    rw [List.splitOnP_cons_eq_if_modifyHead, List.splitOnP_cons_eq_if_modifyHead, alike, ih others]

/-- The pieces between spaces that are not blank are the words. -/
theorem pieces_eq_words (single : ∀ c ∈ text, Text.isBlank c = true → c = ' ') :
    (text.splitOn ' ').filter (fun piece => Text.trim piece ≠ []) = Text.words text := by
  rw [splitOn_space single, Text.words]
  apply List.filter_congr
  intro piece here
  cases piece with
  | nil => rfl
  | cons c rest =>
    have word : c :: rest ∈ Text.words text := List.mem_filter.mpr ⟨here, rfl⟩
    have solid := ((Text.falls_words text).mem word).2
    rw [Text.trim_of_not_blank fun d inside => (solid d inside).1]

/-- What is cut from a text of the alphabet and spaces is its tokens. -/
theorem words_clean (clean : ∀ c ∈ text, c ∈ alphabet ∨ c = ' ') :
    scan [] text = Text.words text := by
  have falls := Text.falls_words text
  have whole : ∀ word ∈ Text.words text, lettersOf word = word := by
    intro word here
    refine List.filter_eq_self.mpr fun c inside => ?_
    obtain ⟨solid, within⟩ := (falls.mem here).2 c inside
    rcases clean c within with letter | rfl
    · exact decide_eq_true letter
    · exact absurd solid (by decide)
  rw [scan_falls falls, List.map_congr_left whole, List.map_id']
  exact List.filter_eq_self.mpr fun word here => decide_eq_true (falls.mem here).1

theorem passes_eq (text : String) : passes text = tokens text := by
  let collapsed := collapse false (Text.trimmed text)
  let clean := collapsed.filter fun c => c ∈ alphabet ∨ c = ' '
  have single : ∀ c ∈ collapsed, Text.isBlank c = true → c = ' ' := collapse_blank false _
  have spaced : ∀ c ∈ clean, Text.isBlank c = true → c = ' ' := fun c here =>
    single c (List.mem_filter.mp here).1
  have letters : ∀ c ∈ clean, c ∈ alphabet ∨ c = ' ' := fun c here =>
    of_decide_eq_true (List.mem_filter.mp here).2
  have cut : (clean.splitOn ' ').filter (fun piece => Text.trim piece ≠ []) =
      scan [] text.toList := calc
    _ = Text.words clean := pieces_eq_words spaced
    _ = scan [] clean := (words_clean letters).symm
    _ = scan [] collapsed := scan_clean single
    _ = scan [] (Text.trimmed text) := (scan_collapse _).1 []
    _ = scan [] text.toList := scan_trim _
  exact congrArg (List.map String.ofList) cut

/-! What tokens are. -/

theorem scan_behind {other : List Char}
    (same : ∀ pending, scan pending rest = scan pending other) :
    scan pending (text ++ rest) = scan pending (text ++ other) := by
  induction text generalizing pending with
  | nil => exact same pending
  | cons c text ih => rw [List.cons_append, List.cons_append, scan, scan, ih, ih, ih]

/-- What is left out stands between its neighbours as if it were not there. -/
theorem tokens_dropped {dropped : String}
    (outside : ∀ c ∈ dropped.toList, Text.isBlank c = false ∧ c ∉ alphabet) (text rest : String) :
    tokens (text ++ dropped ++ rest) = tokens (text ++ rest) := by
  have nothing : lettersOf dropped.toList = [] :=
    List.filter_eq_nil_iff.mpr fun c here => by simpa using (outside c here).2
  have gone (pending : List Char) : scan pending (dropped.toList ++ rest.toList) =
      scan pending rest.toList := by
    rw [scan_solid fun c here => (outside c here).1, nothing, List.append_nil]
  rw [tokens, tokens, String.toList_append, String.toList_append, String.toList_append,
    List.append_assoc, scan_behind gone]

theorem IsToken.append {text rest : String} (first : IsToken text) (second : IsToken rest) :
    IsToken (text ++ rest) := by
  refine ⟨fun empty => first.1 (String.append_eq_empty_iff.mp empty).1, fun c here => ?_⟩
  rw [String.toList_append] at here
  exact (List.mem_append.mp here).elim (first.2 c) (second.2 c)

/-- The tokens of a text are what is left of its words, those without a character of the alphabet
dropped, and passes over the whole text give the same. Tokens are words of the alphabet, read back
when they are joined by spaces. Blanks of any kind keep what stands on both sides apart, and
whatever else is left out joins it. -/
theorem tokens_eq_words (text : String) :
    Text.Falls text.toList (Text.words text.toList) ∧
    tokens text = (((Text.words text.toList).map lettersOf).filter (· ≠ [])).map String.ofList ∧
    passes text = tokens text ∧
    (∀ token ∈ tokens text, IsToken token) ∧
    tokens (" ".intercalate (tokens text)) = tokens text ∧
    (∀ blanks rest : String, blanks ≠ "" → (∀ c ∈ blanks.toList, Text.isBlank c = true) →
      tokens (text ++ blanks ++ rest) = tokens text ++ tokens rest) ∧
    ∀ dropped rest : String, (∀ c ∈ dropped.toList, Text.isBlank c = false ∧ c ∉ alphabet) →
      tokens (text ++ dropped ++ rest) = tokens (text ++ rest) ∧
      (IsToken text → IsToken rest → tokens (text ++ dropped ++ rest) = [text ++ rest]) := by
  have falls := Text.falls_words text.toList
  refine ⟨falls, congrArg _ (scan_falls falls), passes_eq text, fun _ => isToken_of_mem_tokens,
    tokens_words fun _ => isToken_of_mem_tokens, fun blanks rest some blank =>
      tokens_blanks some blank text rest, fun dropped rest outside => ?_⟩
  have joined := tokens_dropped outside text rest
  exact ⟨joined, fun first second => joined.trans (tokens_word (first.append second))⟩

/-- A no-break space parts two tokens that a letter outside the alphabet joins. -/
theorem tokens_eq_words_parted :
    tokens ("c4" ++ "\u00a0" ++ "8n") = ["c4", "8n"] ∧ tokens ("c4" ++ "é" ++ "8n") = ["c48n"] := by
  obtain ⟨_, _, _, _, _, parted, joined⟩ := tokens_eq_words "c4"
  have word : IsToken "c4" := by decide
  have next : IsToken "8n" := by decide
  constructor
  · rw [parted "\u00a0" "8n" (by decide) (List.all_eq_true.mp (by decide)), tokens_word word,
      tokens_word next]
    rfl
  · have outside : "é".toList.all (fun c => !Text.isBlank c && decide (c ∉ alphabet)) = true := by
      decide
    refine (joined "é" "8n" fun c here => ?_).2 word next
    simpa using List.all_eq_true.mp outside c here

end Shorthand
end Solfege
