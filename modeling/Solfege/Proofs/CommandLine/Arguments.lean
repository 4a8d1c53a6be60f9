import Mathlib.Data.List.Basic
import Solfege.CommandLine.Arguments

/-! Taking arguments apart gives values only to options that have a spelling. -/
namespace Solfege.CommandLine
variable {spellings : List Spelling} {given : List (String × Given)} {needing : Option Spelling}

/-- Every option given is one that can be spelled. -/
def Known (spellings : List Spelling) (given : List (String × Given)) : Prop :=
  ∀ option ∈ given, ∃ spelling ∈ spellings, spelling.option = option.1

theorem Known.nil : Known spellings [] := by simp [Known]

theorem Known.cons {spelling : Spelling} (here : spelling ∈ spellings) (value : Given)
    (known : Known spellings given) : Known spellings ((spelling.option, value) :: given) :=
  List.forall_mem_cons.mpr ⟨⟨spelling, here, rfl⟩, known⟩

theorem mem_of_findSpelling? {text : List Char} {spelling : Spelling}
    (found : findSpelling? spellings text = some spelling) : spelling ∈ spellings :=
  List.mem_of_find?_eq_some found

theorem readShort_known {text : List Char}
    (read : readShort spellings text = .ok (given, needing)) :
    Known spellings given ∧ ∀ spelling ∈ needing, spelling ∈ spellings := by
  induction text generalizing given needing with
  | nil =>
    cases read
    exact ⟨.nil, by simp⟩
  | cons c rest ih =>
    rw [readShort] at read
    cases found : findSpelling? spellings ['-', c] with
    | none =>
      rw [found] at read
      cases read
    | some spelling =>
      rw [found] at read
      have here := mem_of_findSpelling? found
      dsimp only at read
      cases effect : spelling.effect with
      | takesValue =>
        rw [effect] at read
        dsimp only at read
        split at read
        · cases read
          exact ⟨.nil, by simpa using here⟩
        · cases read
          exact ⟨.cons here _ .nil, by simp⟩
      | sets value =>
        rw [effect] at read
        cases others : readShort spellings rest with
        | error fault =>
          rw [others] at read
          cases read
        | ok later =>
          rw [others] at read
          cases read
          obtain ⟨known, needs⟩ := ih others
          exact ⟨.cons here _ known, needs⟩

theorem readOption_known {argument : List Char}
    (read : readOption spellings argument = .ok (given, needing)) :
    Known spellings given ∧ ∀ spelling ∈ needing, spelling ∈ spellings := by
  unfold readOption at read
  dsimp only at read
  split at read
  · rename_i spelling found
    have here : spelling ∈ spellings :=
      (List.mem_filter.mp (mem_of_findSpelling? found)).1
    split at read
    · cases read
      exact ⟨.cons here _ .nil, by simp⟩
    · cases read
      exact ⟨.nil, by simpa using here⟩
    · cases read
    · cases read
      exact ⟨.cons here _ .nil, by simp⟩
  · split at read
    · cases read
    · exact readShort_known read

theorem Known.append {more : List (String × Given)} (first : Known spellings given)
    (second : Known spellings more) : Known spellings (given ++ more) :=
  List.forall_mem_append.mpr ⟨first, second⟩

theorem ok_of_return {outcome : Except UsageFault Parsed} {change : Parsed → Parsed}
    {parsed : Parsed} (returned : (do return change (← outcome)) = Except.ok parsed) :
    ∃ later, outcome = .ok later ∧ parsed = change later := by
  cases outcome with
  | error fault => cases returned
  | ok later =>
    cases returned
    exact ⟨later, rfl, rfl⟩

theorem parse_known {interspersed : Bool} {arguments : List String} {parsed : Parsed}
    (apart : parse spellings interspersed arguments = .ok parsed) :
    Known spellings parsed.options := by
  induction arguments using parse.induct spellings interspersed generalizing parsed with
  | case1 =>
    rw [parse] at apart
    cases apart
    exact .nil
  | case2 rest =>
    unfold parse at apart
    rw [if_pos rfl] at apart
    cases apart
    exact .nil
  | case3 argument rest ends dash fault read =>
    unfold parse at apart
    rw [if_neg ends, if_pos dash, read] at apart
    cases apart
  | case4 argument ends dash given rest read ih =>
    unfold parse at apart
    rw [if_neg ends, if_pos dash, read] at apart
    obtain ⟨later, others, rfl⟩ := ok_of_return apart
    exact (readOption_known read).1.append (ih others)
  | case5 argument ends dash given spelling read =>
    unfold parse at apart
    rw [if_neg ends, if_pos dash, read] at apart
    cases apart
  | case6 argument ends dash given spelling value rest read ih =>
    unfold parse at apart
    rw [if_neg ends, if_pos dash, read] at apart
    obtain ⟨later, others, rfl⟩ := ok_of_return apart
    obtain ⟨known, needs⟩ := readOption_known read
    exact (known.append (.cons (needs spelling rfl) _ .nil)).append (ih others)
  | case7 argument rest ends plain mixed ih =>
    unfold parse at apart
    rw [if_neg ends, if_neg plain, if_pos mixed] at apart
    obtain ⟨later, others, rfl⟩ := ok_of_return apart
    have known : Known spellings later.options := ih others
    exact known
  | case8 argument rest ends plain first =>
    unfold parse at apart
    rw [if_neg ends, if_neg plain, if_neg first] at apart
    cases apart
    exact .nil

end Solfege.CommandLine
