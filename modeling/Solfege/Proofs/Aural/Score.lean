import Solfege.Aural.Score
import Solfege.Proofs.Music.Transposing

/-! The score of an aural object. Whether its degrees, its root or the finished score are moved, the
same score comes of it, and chance is drawn on once at most. -/
namespace Solfege.Aural
variable {degrees : List Int} {options : Options} {chance : Chance}

/-- Options that have been made from values. -/
structure Options.Checked (options : Options) (values : Options.Values) : Prop where
  root : ∃ number, Pitch.numberOf options.root = .ok number
  transposition : Options.transpositionOf values.transposition = .ok options.transposition
  unitLength : Options.unitLengthOf values.unitLength = .ok options.unitLength

theorem Options.checked_of_check {values : Options.Values} (checked : values.check = .ok options) :
    options.Checked values := by
  obtain ⟨number, named, rest⟩ := bind_eq_ok.mp checked
  obtain ⟨transposition, moves, rest⟩ := bind_eq_ok.mp rest
  obtain ⟨unitLength, lasts, rest⟩ := bind_eq_ok.mp rest
  cases rest
  exact ⟨⟨number, named⟩, moves, lasts⟩

theorem Options.unitLengthOf_number {n : Number} (positive : n.isPositiveOrNaN = true) :
    Options.unitLengthOf (.number n) = .ok (.seconds n) := if_pos positive

theorem Options.unitLengthOf_seconds {length : Datum} {n : Number}
    (lasts : Options.unitLengthOf length = .ok (.seconds n)) :
    length = .number n ∧ n.isPositiveOrNaN = true := by
  unfold Options.unitLengthOf at lasts
  split at lasts
  · cases lasts
  · cases lasts
  · split at lasts
    · cases lasts
      exact ⟨rfl, ‹_›⟩
    · cases lasts
  · cases lasts

theorem Options.Values.check_eq {values : Options.Values} {number : Int}
    {transposition : Transposition} {unitLength : UnitLength}
    (named : Pitch.numberOf values.root = .ok number)
    (moves : Options.transpositionOf values.transposition = .ok transposition)
    (lasts : Options.unitLengthOf values.unitLength = .ok unitLength) :
    values.check =
      .ok ⟨values.root, transposition, values.arpeggio, values.chord, unitLength⟩ := by
  rw [check, named, moves, lasts]
  rfl

/-- The pitches of an object that is shifted from its root all have names. -/
def Options.Within (options : Options) (degrees : List Int) (shift : Int) : Prop :=
  ∀ root, Pitch.numberOf options.root = .ok root →
    ∀ degree ∈ degrees, Pitch.Nameable (root + shift + degree)

theorem Options.within_of_named {root shift : Int} (named : Pitch.numberOf options.root = .ok root)
    (nameable : ∀ degree ∈ degrees, Pitch.Nameable (root + shift + degree)) :
    options.Within degrees shift := by
  intro other named'
  obtain rfl := Except.ok.inj (named.symm.trans named')
  exact nameable

/-- An octave above the highest C that has a name there is none. -/
theorem Options.not_within_highestC (high : options.root = Pitch.highestC) :
    ¬ options.Within [12] 0 := by
  intro within
  have named : Pitch.numberOf options.root = .ok (12 * 10 ^ Numeral.digitLimit) :=
    high ▸ Pitch.numberOf_highestC
  exact Pitch.unnameable_of_le (by omega) (within _ named 12 List.mem_cons_self)

/-- What the units of a score sound, given the numbers of its pitches. -/
def sounds (options : Options) (numbers : List Int) : List Sound :=
  let names := numbers.map Pitch.spell
  (if options.arpeggio then names.map Sound.single else []) ++
    (if options.chord then [Sound.group names] else [])

/-- The score of an object whose pitches are shifted from the root, with the chance that is left. -/
def shifted (degrees : List Int) (options : Options) (shift : Int) (later : Chance) :
    Except Fault (Music × Chance) := do
  let root ← Pitch.numberOf options.root
  let names ← degrees.mapM fun degree => Pitch.nameOf (root + shift + degree)
  let seconds ← options.unitLength.toSeconds names.length
  let singles := if options.arpeggio then names.map Sound.single else []
  let together := if options.chord then [Sound.group names] else []
  return (units seconds (singles ++ together), later)

theorem score_eq (some : degrees ≠ []) (options : Options) (chance : Chance) :
    score degrees options chance = shifted degrees options
      (options.transposition.resolve chance).1 (options.transposition.resolve chance).2 := by
  have full : degrees.isEmpty = false := List.isEmpty_eq_false_iff.mpr some
  unfold score
  rw [full]
  rfl

/-- The names of a sound are those of pitches of the object. -/
theorem mem_sounds {numbers : List Int} {sound : Sound} {name : String}
    (here : sound ∈ sounds options numbers) (inside : name ∈ sound.names) :
    ∃ n ∈ numbers, Pitch.spell n = name := by
  rcases List.mem_append.mp here with single | group
  · split at single
    · obtain ⟨one, among, rfl⟩ := List.mem_map.mp single
      obtain rfl := List.mem_singleton.mp inside
      exact List.mem_map.mp among
    · cases single
  · split at group
    · obtain rfl := List.mem_singleton.mp group
      exact List.mem_map.mp inside
    · cases group

theorem units_moved (seconds : Binary64) (sounds : List Sound) (semitones : Int) :
    (units seconds sounds).moved semitones =
      units seconds (sounds.map (Sound.moved semitones)) := by
  apply List.ext_getElem
  · simp [units, Music.moved]
  · intro i _ _
    simp [units, Music.moved, Event.moved]

section
variable {numbers : List Int} (nameable : ∀ n ∈ numbers, Pitch.Nameable n)
include nameable

theorem sounds_moved (options : Options) (semitones : Int) :
    (sounds options numbers).map (Sound.moved semitones) =
      sounds options (numbers.map (· + semitones)) := by
  have names : (numbers.map Pitch.spell).map (Pitch.movedName semitones) =
      (numbers.map (· + semitones)).map Pitch.spell := by
    rw [List.map_map, List.map_map]
    refine List.map_congr_left fun n here => ?_
    rw [Function.comp_apply, Function.comp_apply,
      Pitch.movedName_eq (Pitch.numberOf_spell (nameable n here))]
  unfold sounds
  dsimp only
  rw [List.map_append, ← names]
  cases options.arpeggio <;> cases options.chord <;> simp [Sound.moved]

theorem pitched_sounds (options : Options) : ∀ sound ∈ sounds options numbers,
    ∀ name ∈ sound.names, ∃ number, Pitch.numberOf name = .ok number := by
  intro sound here name inside
  obtain ⟨n, among, rfl⟩ := mem_sounds here inside
  exact ⟨n, Pitch.numberOf_spell (nameable n among)⟩

theorem pitched_units (seconds : Binary64) (options : Options) :
    (units seconds (sounds options numbers)).Pitched := by
  intro event here
  obtain ⟨i, inside, rfl⟩ := List.mem_mapIdx.mp here
  exact pitched_sounds nameable options _ (List.getElem_mem inside)

/-- A score that is transposed is the score of pitches as far away. -/
theorem units_transposed (seconds : Binary64) (options : Options) {semitones : Int}
    (away : ∀ n ∈ numbers, Pitch.Nameable (n + semitones)) :
    Music.transpose semitones (units seconds (sounds options numbers)) =
      .ok (units seconds (sounds options (numbers.map (· + semitones)))) := by
  have movable : (units seconds (sounds options numbers)).Movable semitones := by
    intro event here name inside
    obtain ⟨i, _, rfl⟩ := List.mem_mapIdx.mp here
    obtain ⟨n, among, rfl⟩ := mem_sounds (List.getElem_mem _) inside
    exact ⟨n, Pitch.numberOf_spell (nameable n among), away n among⟩
  rw [Music.transpose_movable movable, units_moved, sounds_moved nameable]

end

/-! Every way to shift a score. -/

section
variable {root : Int} (named : Pitch.numberOf options.root = .ok root)
include named

theorem shifted_named {shift : Int} (within : options.Within degrees shift) (later : Chance) :
    shifted degrees options shift later =
      (options.unitLength.toSeconds degrees.length).map fun seconds =>
        (units seconds (sounds options (degrees.map (root + shift + ·))), later) := by
  have names : degrees.mapM (fun degree => Pitch.nameOf (root + shift + degree)) =
      .ok ((degrees.map (root + shift + ·)).map Pitch.spell) := by
    rw [List.map_map]
    exact mapM_of_forall fun degree here => Pitch.nameOf_nameable (within root named degree here)
  rw [shifted, named]
  dsimp only [Bind.bind, Except.bind]
  rw [names]
  dsimp only
  rw [List.length_map, List.length_map, sounds]
  cases options.unitLength.toSeconds degrees.length <;> rfl

theorem shifted_eq {shift : Int} {seconds : Binary64} (within : options.Within degrees shift)
    (lasts : options.unitLength.toSeconds degrees.length = .ok seconds) (later : Chance) :
    shifted degrees options shift later =
      .ok (units seconds (sounds options (degrees.map (root + shift + ·))), later) := by
  rw [shifted_named named within, lasts]
  rfl

theorem shifted_root {away : String} {semitones : Int}
    (named' : Pitch.numberOf away = .ok (root + semitones)) (degrees : List Int) (shift : Int)
    (later : Chance) : shifted degrees { options with root := away } shift later =
      shifted degrees options (shift + semitones) later := by
  have sum : root + semitones + shift = root + (shift + semitones) := by omega
  rw [shifted, shifted, named, named']
  dsimp only [Bind.bind, Except.bind]
  rw [sum]

end

/-- A pitch without a name keeps the object from having a score. -/
theorem shifted_beyond {shift : Int} (beyond : ¬ options.Within degrees shift) (later : Chance) :
    shifted degrees options shift later = .error (.tooManyDigits none) := by
  unfold Options.Within at beyond
  push Not at beyond
  obtain ⟨root, named, degree, here, unnameable⟩ := beyond
  let name (degree : Int) : Except Fault String := Pitch.nameOf (root + shift + degree)
  have fails : name degree = .error (.tooManyDigits none) := Pitch.nameOf_unnameable unnameable
  obtain ⟨fault, all⟩ : ∃ fault, degrees.mapM name = .error fault := mapM_error here fails
  obtain ⟨other, _, failed⟩ := exists_of_mapM_error all
  obtain ⟨_, rfl⟩ := Pitch.nameOf_eq_error.mp failed
  rw [shifted, named]
  exact bind_eq_error.mpr (.inr ⟨root, rfl, bind_eq_error.mpr (.inl all)⟩)

theorem shifted_degrees (degrees : List Int) (options : Options) (shift semitones : Int)
    (later : Chance) : shifted (degrees.map (· + semitones)) options shift later =
      shifted degrees options (shift + semitones) later := by
  have sums (root : Int) : (degrees.map (· + semitones)).mapM
      (fun degree => Pitch.nameOf (root + shift + degree)) =
      degrees.mapM fun degree => Pitch.nameOf (root + (shift + semitones) + degree) := by
    have sum (degree : Int) : root + shift + (degree + semitones) =
        root + (shift + semitones) + degree := by omega
    simp only [List.mapM_map, Function.comp_def, sum]
  rw [shifted, shifted]
  simp only [sums]

theorem shifted_transposed {shift : Int} {transposition : Transposition} {chance : Chance}
    (within : options.Within degrees shift)
    (within' : options.Within degrees (shift + (transposition.resolve chance).1)) :
    (shifted degrees options shift chance >>= fun built =>
      built.1.transposed transposition built.2) =
    shifted degrees options (shift + (transposition.resolve chance).1)
      (transposition.resolve chance).2 := by
  cases named : Pitch.numberOf options.root with
  | error fault =>
    rw [shifted, shifted, named]
    rfl
  | ok root =>
    rw [shifted_named named within, shifted_named named within']
    cases options.unitLength.toSeconds degrees.length with
    | error fault => rfl
    | ok seconds =>
      have sums : (degrees.map (root + shift + ·)).map (· + (transposition.resolve chance).1) =
          degrees.map (root + (shift + (transposition.resolve chance).1) + ·) := by
        rw [List.map_map]
        refine List.map_congr_left fun degree _ => ?_
        dsimp only [Function.comp]
        omega
      have nameable : ∀ n ∈ degrees.map (root + shift + ·), Pitch.Nameable n :=
        List.forall_mem_map.mpr (within root named)
      have away : ∀ n ∈ degrees.map (root + shift + ·),
          Pitch.Nameable (n + (transposition.resolve chance).1) := by
        refine List.forall_mem_map.mpr fun degree here => ?_
        have there := within' root named degree here
        rwa [← Int.add_assoc, Int.add_right_comm] at there
      rw [← sums]
      dsimp only [Bind.bind, Except.bind, Except.map]
      rw [Music.transposed, units_transposed nameable _ _ away]
      rfl

theorem shifted_map (degrees : List Int) (options : Options) (shift : Int) (chance later : Chance) :
    (shifted degrees options shift chance).map (fun built => (built.1, later)) =
      shifted degrees options shift later := by
  rw [shifted, shifted]
  cases Pitch.numberOf options.root with
  | error fault => rfl
  | ok root =>
    dsimp only [Bind.bind, Except.bind]
    cases degrees.mapM fun degree => Pitch.nameOf (root + shift + degree) with
    | error fault => rfl
    | ok names =>
      dsimp only
      cases options.unitLength.toSeconds names.length <;> rfl

theorem resolve_random (chance : Chance) :
    -5 ≤ (Transposition.random.resolve chance).1 ∧ (Transposition.random.resolve chance).1 ≤ 6 ∧
      (Transposition.random.resolve chance).2.draws = chance.draws + 1 := by
  have drawn : (Transposition.random.resolve chance).1 = -5 + chance.numbers.headD 0 % 12 := rfl
  rw [drawn]
  exact ⟨by omega, by omega, rfl⟩

/-- To transpose in the options, in the degrees or in the root is all the same. Where the pitches
of an object have names both before and after, so is to transpose its finished score. Chance is
drawn on once, and moves all the pitches by one number of semitones. -/
theorem score_transposed (degrees : List Int) (options : Options) (semitones : Int)
    (chance : Chance) :
    let plain := { options with transposition := .semitones 0 }
    let given (transposition : Transposition) :=
      score degrees { options with transposition := transposition } chance
    let moved (transposition : Transposition) :=
      score degrees plain chance >>= fun built => built.1.transposed transposition built.2
    score (degrees.map (· + semitones)) plain chance = given (.semitones semitones) ∧
    (∀ root number, Pitch.numberOf options.root = .ok number →
      Pitch.numberOf root = .ok (number + semitones) →
      score degrees { plain with root := root } chance = given (.semitones semitones)) ∧
    (options.Within degrees 0 → options.Within degrees semitones →
      given (.semitones semitones) = moved (.semitones semitones)) ∧
    (degrees ≠ [] → ∃ shift later, -5 ≤ shift ∧ shift ≤ 6 ∧ later.draws = chance.draws + 1 ∧
      given .random = (given (.semitones shift)).map (fun built => (built.1, later)) ∧
      (options.Within degrees 0 → options.Within degrees shift → given .random = moved .random)) ∧
    (∀ values, Options.Values.check values = .ok options → options.Within degrees semitones →
      (degrees ≠ [] → ∃ seconds, options.unitLength.toSeconds degrees.length = .ok seconds) →
      ∃ music, given (.semitones semitones) = .ok (music, chance)) ∧
    (¬ options.Within degrees semitones →
      given (.semitones semitones) = .error (.tooManyDigits none)) := by
  intro plain given moved
  by_cases none : degrees = []
  · subst none
    refine ⟨rfl, fun _ _ _ _ => rfl, fun _ _ => rfl, fun some => absurd rfl some,
      fun _ _ _ _ => ⟨[], rfl⟩, fun beyond => absurd (fun _ _ _ here => ?_) beyond⟩
    cases here
  have one (transposition : Transposition) : given transposition = shifted degrees options
      (transposition.resolve chance).1 (transposition.resolve chance).2 := score_eq none _ chance
  have two {transposition : Transposition} (within : options.Within degrees 0)
      (within' : options.Within degrees (transposition.resolve chance).1) :
      given transposition = moved transposition := by
    have start : score degrees plain chance = shifted degrees options 0 chance :=
      score_eq none plain chance
    change _ = score degrees plain chance >>= _
    rw [one, start, shifted_transposed within ((Int.zero_add _).symm ▸ within'), Int.zero_add]
  have still : (Transposition.semitones semitones).resolve chance = (semitones, chance) := rfl
  refine ⟨?_, ?_, fun within within' => two within within', fun _ => ?_, ?_, fun beyond => ?_⟩
  · have some : degrees.map (· + semitones) ≠ [] := by simpa using none
    rw [one, still, score_eq some]
    refine (shifted_degrees degrees options 0 semitones chance).trans ?_
    rw [Int.zero_add]
  · intro root number named away
    rw [one, still, score_eq none]
    refine (shifted_root named away degrees 0 chance).trans ?_
    rw [Int.zero_add]
  · obtain ⟨low, high, draws⟩ := resolve_random chance
    refine ⟨_, _, low, high, draws, ?_, two⟩
    rw [one, one]
    exact (shifted_map ..).symm
  · intro values checked within lasts
    obtain ⟨seconds, lasts⟩ := lasts none
    obtain ⟨root, named⟩ := (Options.checked_of_check checked).root
    rw [one]
    exact ⟨_, shifted_eq named within lasts chance⟩
  · rw [one]
    exact shifted_beyond beyond chance

/-- An open triad, over an octave lower and by chance. -/
theorem score_transposed_triad :
    let values : Options.Values := ⟨"Bb3", .text "random", false, true, .number (.real 0.5)⟩
    let options : Options := ⟨"Bb3", .random, false, true, .seconds (.real 0.5)⟩
    let plain := { options with transposition := .semitones 0 }
    let given (transposition : Transposition) :=
      score [0, -4, 7] { options with transposition := transposition } (.ofList [14, 3])
    values.check = .ok options ∧
    (∃ music, given (.semitones (-13)) = .ok (music, .ofList [14, 3])) ∧
    score [0, -4, 7] { plain with root := "a2" } (.ofList [14, 3]) = given (.semitones (-13)) ∧
    given (.semitones (-13)) = (score [0, -4, 7] plain (.ofList [14, 3]) >>= fun built =>
      built.1.transposed (.semitones (-13)) built.2) ∧
    ∃ shift later, -5 ≤ shift ∧ shift ≤ 6 ∧ later.draws = 1 ∧
      given .random = (given (.semitones shift)).map fun built => (built.1, later) := by
  intro values options plain given
  have high : Pitch.numberOf "Bb3" = .ok 58 := eq_ok_of_toOption (by decide +kernel)
  have low : Pitch.numberOf "a2" = .ok (58 + -13) := eq_ok_of_toOption (by decide +kernel)
  have positive : Number.isPositiveOrNaN (.real 0.5) = true := by decide +kernel
  have checked : values.check = .ok options :=
    Options.Values.check_eq high rfl (Options.unitLengthOf_number positive)
  have within : options.Within [0, -4, 7] 0 := Options.within_of_named high (by decide)
  have within' : options.Within [0, -4, 7] (-13) := Options.within_of_named high (by decide)
  obtain ⟨_, root, finished, chance, succeeds, _⟩ :=
    score_transposed [0, -4, 7] options (-13) (.ofList [14, 3])
  obtain ⟨shift, later, least, most, draws, random, _⟩ := chance (by decide)
  exact ⟨checked, succeeds values checked within' fun _ => ⟨0.5, rfl⟩, root "a2" 58 high low,
    finished within within', shift, later, least, most, draws, random⟩

/-- An octave above the highest C that has a name, taken back in the options and not in the finished
score, which there is none of. -/
theorem score_untransposed :
    let values : Options.Values :=
      ⟨Pitch.highestC, .number (.whole (-12)), true, true, .number (.real 0.5)⟩
    let options : Options := ⟨Pitch.highestC, .semitones (-12), true, true, .seconds (.real 0.5)⟩
    let plain := { options with transposition := .semitones 0 }
    values.check = .ok options ∧
    (∃ music, score [12] options (.ofList []) = .ok (music, .ofList [])) ∧
    (score [12] plain (.ofList []) >>= fun built =>
      built.1.transposed (.semitones (-12)) built.2) = .error (.tooManyDigits none) := by
  intro values options plain
  have named : Pitch.numberOf options.root = .ok (12 * 10 ^ Numeral.digitLimit) :=
    Pitch.numberOf_highestC
  have positive : Number.isPositiveOrNaN (.real 0.5) = true := by decide +kernel
  have checked : values.check = .ok options :=
    Options.Values.check_eq named rfl (Options.unitLengthOf_number positive)
  have within : options.Within [12] (-12) := by
    refine Options.within_of_named named fun degree here => ?_
    obtain rfl := List.mem_singleton.mp here
    rw [Int.neg_add_cancel_right]
    exact Pitch.nameable_highest
  have beyond : ¬ options.Within [12] 0 := Options.not_within_highestC rfl
  have built : score [12] options (.ofList []) = shifted [12] options (-12) (.ofList []) :=
    score_eq (by decide) ..
  have plainly : score [12] plain (.ofList []) = shifted [12] options 0 (.ofList []) :=
    score_eq (by decide) ..
  have lasts : options.unitLength.toSeconds [12].length = .ok 0.5 := rfl
  rw [built, plainly, shifted_beyond beyond]
  exact ⟨checked, ⟨_, shifted_eq named within lasts _⟩, rfl⟩

end Solfege.Aural
