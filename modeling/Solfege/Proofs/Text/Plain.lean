import Solfege.Numeral.Printer
import Solfege.Proofs.Pitch.Name
import Solfege.Text.Styling

/-! Texts that stay on one line and have no style, numbers among them. -/
namespace Solfege

namespace Text
variable {text more : List Char} {s t : String}

/-- A text without line ends and escapes. -/
def Plain (text : List Char) : Prop := ∀ c ∈ text, c ≠ '\n' ∧ c ≠ '\x1b'

instance (text : List Char) : Decidable (Plain text) := List.decidableBAll _ text

theorem Plain.append (first : Plain text) (second : Plain more) : Plain (text ++ more) :=
  List.forall_mem_append.mpr ⟨first, second⟩

theorem Plain.join (first : Plain s.toList) (second : Plain t.toList) :
    Plain (s ++ t).toList := by
  rw [String.toList_append]
  exact first.append second

theorem plain_replicate {c : Char} (plain : Plain [c]) (n : Nat) : Plain (List.replicate n c) := by
  intro d here
  rw [List.eq_of_mem_replicate here]
  exact plain c (by simp)

theorem plain_digits {ds : List Char} (digits : ∀ c ∈ ds, c.isDigit) : Plain ds := by
  intro c here
  refine ⟨?_, ?_⟩
  all_goals
    rintro rfl
    exact absurd (digits _ here) (by decide)

theorem unstyledChars_eq (unescaped : ∀ c ∈ text, c ≠ '\x1b') : unstyledChars text = text := by
  induction text with
  | nil => rw [unstyledChars]
  | cons c rest ih =>
    have first : c ≠ '\x1b' := unescaped c (by simp)
    rw [unstyledChars.eq_3 _ _ fun _ same => absurd same first,
      ih fun d here => unescaped d (by simp [here])]

theorem unstyled_eq (unescaped : ∀ c ∈ s.toList, c ≠ '\x1b') : unstyled s = s := by
  rw [unstyled, unstyledChars_eq unescaped, String.ofList_toList]

end Text

theorem Pitch.plain_spell (n : Int) : Text.Plain (spell n).toList := by
  let p := ofNumber n
  have spelled : Text.Plain (p.letter.toChar :: p.accidental.sign) := by
    cases p.letter <;> cases p.accidental <;> decide
  have octave : Text.Plain (toString p.octave).toList := by
    intro c here
    rcases Text.mem_digits here with rfl | digit
    · decide
    · have digits : ∀ d ∈ [c], d.isDigit := by simpa using digit
      exact Text.plain_digits digits c (by simp)
  refine Text.Plain.join ?_ octave
  rw [String.toList_ofList]
  exact spelled

namespace Numeral
open Text

theorem plain_padZeros (width : Nat) {text : List Char} (plain : Plain text) :
    Plain (padZeros width text) :=
  (plain_replicate (by decide) _).append plain

theorem plain_withSign (negative : Bool) {text : List Char} (plain : Plain text) :
    Plain (withSign negative text) := by
  cases negative with
  | false => exact plain
  | true => exact .append (by decide : Plain ['-']) plain

theorem plain_fixedMagnitude (places units : Nat) : Plain (fixedMagnitude places units) := by
  have digits (n : Nat) : Plain (padZeros (places + 1) (Numeral.digits n)) :=
    plain_padZeros _ (plain_digits (toDigits_isDigit n))
  rw [fixedMagnitude]
  refine Plain.append ?_ (.append (by decide : Plain ['.']) ?_)
  · exact fun c here => digits _ c (List.mem_of_mem_take here)
  · exact fun c here => digits _ c (List.mem_of_mem_drop here)

theorem plain_fixed (places : Nat) (x : Binary64) : Plain (fixed places x).toList := by
  cases x with
  | nan => exact (by decide : Plain (real .nan).toList)
  | infinite negative =>
    have words : ∀ negative, Plain (real (.infinite negative)).toList := by decide
    exact words negative
  | finite negative units _ =>
    rw [fixed, String.toList_ofList]
    exact plain_withSign negative (plain_fixedMagnitude places units)

theorem plain_alignRight (width : Nat) {s : String} (plain : Plain s.toList) :
    Plain (alignRight width s).toList := by
  refine Plain.join ?_ plain
  rw [String.toList_ofList]
  exact plain_replicate (by decide) _

theorem plain_alignLeft (width : Nat) {s : String} (plain : Plain s.toList) :
    Plain (alignLeft width s).toList := by
  refine Plain.join plain ?_
  rw [String.toList_ofList]
  exact plain_replicate (by decide) _

end Numeral
end Solfege
