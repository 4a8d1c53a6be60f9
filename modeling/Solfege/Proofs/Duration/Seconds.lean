import Solfege.Duration.Seconds
import Solfege.Music.Tempo
import Solfege.Proofs.Binary64.Rounding
import Solfege.Proofs.Shorthand.Grammar

/-! Durations at a tempo that is a positive real, or a positive whole number that has a real. The
durations of the note grammar always have a length. -/
namespace Solfege
variable {tempo : Binary64}

theorem Number.isPositiveOrNaN_real (positive : 0 < tempo) :
    (Number.real tempo).isPositiveOrNaN = true := by
  obtain ⟨a, b, zero, rank, less⟩ := Binary64.lt_iff.mp positive
  rw [Binary64.zero_eq] at zero
  cases zero
  cases tempo with
  | nan => rfl
  | infinite negative =>
    cases rank
    cases negative with
    | false => rfl
    | true =>
      rw [Binary64.signed_false, Binary64.signed_true] at less
      omega
  | finite negative units representable =>
    cases rank
    have zero : (0 : Int) * Binary64.oneUnits = 0 := Int.zero_mul _
    exact decide_eq_true (zero.trans_lt less)

namespace Duration

theorem checkTempo_real (positive : 0 < tempo) : checkTempo (.real tempo) = .ok () :=
  if_pos (Number.isPositiveOrNaN_real positive)

theorem tempoScale_real (positive : 0 < tempo) :
    tempoScale (.real tempo) = .ok (120 / tempo) := by
  rw [tempoScale, checkTempo_real positive]
  rfl

/-! Whole tempos are read as reals. -/

section
variable {n : Int}

theorem checkTempo_whole (positive : 0 < n) : checkTempo (.whole n) = .ok () :=
  if_pos (decide_eq_true positive)

theorem tempoScale_whole (positive : 0 < n) (real : Binary64.ofWhole n = .ok tempo) :
    tempoScale (.whole n) = .ok (120 / tempo) := by
  have same : (Number.whole n).toReal = .ok tempo := real
  rw [tempoScale, checkTempo_whole positive, same]
  rfl

theorem codeSeconds_whole (positive : 0 < n) (real : Binary64.ofWhole n = .ok tempo)
    (above : 0 < tempo) (code : String) :
    codeSeconds code (.whole n) = codeSeconds code (.real tempo) := by
  have same : (Number.whole n).toReal = (Number.real tempo).toReal := real
  rw [codeSeconds, codeSeconds, checkTempo_whole positive, checkTempo_real above, same]

end

/-- The arithmetic of a duration, apart from the rounding, which must not be unfolded here. -/
theorem seconds_map (tempo : Binary64) (exact : Except Fault Rat)
    (rounded : Rat → Except Fault Binary64) :
    (do
      Except.ok ()
      let rate ← (Number.real tempo).toReal
      have quarterSeconds : Binary64 := 60 / rate
      let quarters ← exact
      let nearest ← rounded quarters
      pure (nearest * quarterSeconds)) = (exact >>= rounded).map (· * (60 / tempo)) := by
  cases exact with
  | error fault => rfl
  | ok quarters =>
    show (rounded quarters >>= fun x => .ok (x * (60 / tempo))) = (rounded quarters).map _
    cases rounded quarters with
    | error fault => rfl
    | ok x => rfl

theorem codeSeconds_eq (positive : 0 < tempo) (code : String) :
    codeSeconds code (.real tempo) =
      (Duration.quarters (Text.trimmed code) >>= quartersReal).map (· * (60 / tempo)) := by
  rw [codeSeconds, checkTempo_real positive]
  exact seconds_map tempo _ _

theorem trimmed_grammar {code : String} (valid : code.toList ∈ Shorthand.durations) :
    Text.trimmed code = code.toList := by
  have solid : ∀ code ∈ Shorthand.durations, code.all (fun c => !Text.isBlank c) = true := by
    decide
  exact Text.trim_of_not_blank (Text.not_blank_of_all (solid _ valid))

/-- A duration of the grammar is a real number of quarters. -/
theorem codeSeconds_grammar {code : String} (valid : code.toList ∈ Shorthand.durations) :
    ∃ quarters, ∀ tempo, 0 < tempo →
      codeSeconds code (.real tempo) = .ok (quarters * (60 / tempo)) := by
  have real : ∀ code ∈ Shorthand.durations,
      ((Duration.quarters code >>= quartersReal).toOption).isSome := by
    decide +kernel
  have found := real _ valid
  cases outcome : Duration.quarters code.toList >>= quartersReal with
  | error fault =>
    rw [outcome] at found
    cases found
  | ok quarters =>
    refine ⟨quarters, fun tempo positive => ?_⟩
    rw [codeSeconds_eq positive, trimmed_grammar valid, outcome, Except.map]

end Duration
end Solfege
