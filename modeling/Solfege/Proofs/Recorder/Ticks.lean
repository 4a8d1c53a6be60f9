import Solfege.Proofs.Binary64.Exact
import Solfege.Proofs.Duration.Seconds
import Solfege.Recorder.Writing

/-! Where notes come to stand in a file. Times are stretched to a tempo and turned back into beats,
both with rounding, and then cut down to ticks. So a note stands where the exact time is, but for a
tick, and for the share of the time that a few roundings make up. Tempos that are a power of two
times sixty round nothing on the way. -/
namespace Solfege.Recorder
open Binary64
variable {n : ℕ} {x : Binary64} {q : ℚ}

/-- The beats in a time that is stretched from some tempo to another and read at that one. -/
def inBeats (time unit rate : Binary64) : Binary64 := time * (unit / rate) * (rate / 60)

def tickOf (beats : Binary64) : Except Fault Int := (beats * ofInt Midi.ticksPerBeat).truncated

/-! Tempos. -/

/-- The tempos that a file may be asked for. -/
structure Rate (n : ℕ) : Prop where
  low : 20 ≤ n
  high : n ≤ 300

theorem near_literal : Near 0 120 120 ∧ Near 0 60 60 ∧ Near 0 (ofInt Midi.ticksPerBeat) 960 := by
  refine ⟨?_, ?_, ?_⟩
  · exact mod_cast near_ofInt (m := 120) (by decide)
  · exact mod_cast near_ofInt (m := 60) (by decide)
  · exact mod_cast near_ofInt (m := 960) (by decide)

namespace Rate

theorem near (rate : Rate n) : Near 0 (ofInt n) n :=
  near_ofInt (Nat.le_trans rate.high (by decide))

theorem pos (rate : Rate n) : (0 : ℚ) < n :=
  Nat.cast_pos.mpr (Nat.lt_of_lt_of_le (by decide) rate.low)

theorem int_pos (rate : Rate n) : (0 : Int) < n := mod_cast rate.pos

theorem bounds (rate : Rate n) : (20 : ℚ) ≤ n ∧ (n : ℚ) ≤ 300 :=
  ⟨mod_cast rate.low, mod_cast rate.high⟩

/-- Quotients by a tempo are neither large nor small. -/
theorem div_bounds (rate : Rate n) {c : ℚ} (low : 1 ≤ c) (high : c ≤ 300) :
    1 ≤ c / n * 2 ^ 20 ∧ c / n ≤ 2 ^ 20 := by
  obtain ⟨least, most⟩ := rate.bounds
  rw [div_mul_eq_mul_div, one_le_div rate.pos, div_le_iff₀ rate.pos]
  constructor <;> linarith

theorem near_over {unit : Binary64} {c : ℚ} (rate : Rate n) (scale : Near 0 unit c) (low : 1 ≤ c)
    (high : c ≤ 300) : Near 1 (unit / ofInt n) (c / n) := by
  obtain ⟨least, most⟩ := rate.div_bounds low high
  have size : ModerateSize 1 := .inr (by norm_num)
  exact scale.div rate.near (by decide) (by linarith) rate.pos
    (one_mul (c / n : ℚ) ▸ size.mul least most)

theorem near_sixtieth (rate : Rate n) : Near 1 (ofInt n / 60) (n / 60) := by
  obtain ⟨least, most⟩ := rate.bounds
  refine rate.near.div near_literal.2.1 (by decide) rate.pos.le (by norm_num) (.inr ?_)
  constructor <;> linarith

end Rate

section
variable {k : ℕ} {unit : Binary64} {c : ℚ}

theorem stretched_near (rate : Rate n) (near : Near k x q) (few : k ≤ 10) (size : ModerateSize q)
    (scale : Near 0 unit c) (low : 1 ≤ c) (high : c ≤ 300) :
    Near (k + 2) (x * (unit / ofInt n)) (q * (c / n)) := by
  obtain ⟨least, most⟩ := rate.div_bounds low high
  have positive := rate.pos
  exact near.mul (rate.near_over scale low high) (by omega) size.nonneg (by positivity)
    (size.mul least most)

/-- A time comes to the same number of beats at every tempo, but for four roundings. -/
theorem inBeats_near (rate : Rate n) (near : Near k x q) (few : k ≤ 10) (size : ModerateSize q)
    (scale : Near 0 unit c) (low : 1 ≤ c) (high : c ≤ 300) :
    Near (k + 4) (inBeats x unit (ofInt n)) (q * (c / 60)) := by
  have nonneg := size.nonneg
  have positive := rate.pos
  have stretched := stretched_near rate near few size scale low high
  have whole : q * (c / n) * (n / 60) = q * (c / 60) := by field_simp
  have back := stretched.mul rate.near_sixtieth (by omega) (by positivity) (by positivity)
    (whole ▸ size.mul (by linarith) (by linarith))
  rw [whole] at back
  exact back

/-! Times. -/

/-- The ticks of an ordinary number of beats are those of a rational close by. -/
theorem tickOf_near (near : Near k x q) (few : k ≤ 16) (nonneg : 0 ≤ q)
    (size : Ordinary (q * 960)) :
    ∃ v, 0 ≤ v ∧ Within (k + 1) v (q * 960) ∧ tickOf x = .ok ⌊v⌋₊ :=
  (near.mul near_literal.2.2 few nonneg (by norm_num) size).truncated

end

/-- The tempos at which times are stretched and turned into beats by powers of two. -/
def evenTempos : List ℕ := [30, 60, 120, 240]

theorem evenTempos_shift (even : n ∈ evenTempos) :
    ∃ i j hi hi' hj, 60 / ofInt n = .finite false (1 <<< i) hi ∧
      120 / ofInt n = .finite false (1 <<< (i + 1)) hi' ∧
      ofInt n / 60 = .finite false (1 <<< j) hj ∧ i + j = 2148 ∧ 1072 ≤ i ∧ i ≤ 1075 := by
  simp only [evenTempos, List.mem_cons, List.not_mem_nil, or_false] at even
  rcases even with rfl | rfl | rfl | rfl
  · exact ⟨1075, 1073, by decide +kernel, by decide +kernel, by decide +kernel, by decide +kernel,
      by decide +kernel, by decide +kernel, rfl, by decide, by decide⟩
  · exact ⟨1074, 1074, by decide +kernel, by decide +kernel, by decide +kernel, by decide +kernel,
      by decide +kernel, by decide +kernel, rfl, by decide, by decide⟩
  · exact ⟨1073, 1075, by decide +kernel, by decide +kernel, by decide +kernel, by decide +kernel,
      by decide +kernel, by decide +kernel, rfl, by decide, by decide⟩
  · exact ⟨1072, 1076, by decide +kernel, by decide +kernel, by decide +kernel, by decide +kernel,
      by decide +kernel, by decide +kernel, rfl, by decide, by decide⟩

theorem shift_back {e i j k : ℕ} (sum : i + j = 2148 + k) (low : 1074 ≤ e + i) :
    e + i - 1074 + j - 1074 = e + k := by omega

/-- Nothing is rounded on the way at an even tempo. -/
theorem inBeats_even (moderate : Moderate x) :
    ∃ y, (∀ n ∈ evenTempos, inBeats x 60 (ofInt n) = x ∧ inBeats x 120 (ofInt n) = y) ∧
      ∀ q, 0 ≤ q → Near 0 x q → Near 0 y (q * 2) := by
  obtain ⟨m, e, few, low, high, rfl⟩ := moderate.shift
  refine ⟨.finite false (m <<< (e + 1)) (representable_shift few (by omega)), ?_, ?_⟩
  · intro n even
    obtain ⟨i, j, hi, hi', hj, once, twice, back, sum, least, most⟩ := evenTempos_shift even
    rw [inBeats, inBeats, once, twice, back, mul_shift few (by omega) (by omega),
      mul_shift few (by omega) (by omega), mul_shift few (by omega) (by omega),
      mul_shift few (by omega) (by omega)]
    have same : e + i - 1074 + j - 1074 = e := shift_back (k := 0) (by omega) (by omega)
    have double : e + (i + 1) - 1074 + j - 1074 = e + 1 := shift_back (by omega) (by omega)
    exact ⟨finite_congr (congrArg (m <<< ·) same) _ _, finite_congr (congrArg (m <<< ·) double) _ _⟩
  · rintro q nonneg ⟨units, representable, same, within⟩
    cases same
    refine ⟨_, _, rfl, ?_⟩
    have double : m <<< (e + 1) = m <<< e * 2 := by
      rw [Nat.shiftLeft_eq, Nat.shiftLeft_eq, Nat.pow_succ, Nat.mul_assoc]
    rw [double, Nat.cast_mul, mul_div_right_comm, Nat.cast_two]
    exact within.mul (Within.refl 2) (div_nonneg (Nat.cast_nonneg _) (Nat.cast_nonneg _))
      nonneg (by norm_num) (by norm_num)

/-- A note that starts at some tick at one tempo starts beside it at another, as far as a tick and
the share that roundings make up go. -/
theorem tickOf_start (rate : Rate n) (moderate : Moderate x) :
    ∃ tick reference : ℕ, tickOf (inBeats x 120 (ofInt n)) = .ok tick ∧
      tickOf (inBeats x 120 (ofInt (120 : ℕ))) = .ok reference ∧
      2 ^ 50 * |(tick : Int) - reference| ≤ 2 ^ 50 + reference ∧
      (n ∈ evenTempos → tick = reference) := by
  obtain ⟨q, near, size⟩ := moderate.near
  have nonneg := size.nonneg
  have ordinary : Ordinary (q * 2 * 960) := by
    rw [mul_assoc]
    exact size.mul (by norm_num) (by norm_num)
  obtain ⟨y, even, twice⟩ := inBeats_even moderate
  have some := inBeats_near rate near (by decide) size near_literal.1 (by norm_num) (by norm_num)
  rw [(by norm_num : (120 : ℚ) / 60 = 2)] at some
  obtain ⟨v, hv, within, tick⟩ := tickOf_near some (by decide) (by linarith) ordinary
  obtain ⟨w, hw, exact, reference⟩ := tickOf_near (twice q nonneg near) (by decide) (by linarith)
    ordinary
  refine ⟨⌊v⌋₊, ⌊w⌋₊, tick, ?_, (within.trans exact.symm).floors (by decide) hv hw, fun here => ?_⟩
  · rw [(even 120 (by decide)).2, reference]
  · rw [(even n here).2, reference] at tick
    exact (Int.ofNat_inj.mp (Except.ok.inj tick)).symm

/-- A moderate number of quarters, brief at the reference tempo, that is a whole number of ticks. -/
structure OnTicks (q : ℚ) (k : ℕ) : Prop where
  moderate : Moderate (ofRatio q.num q.den)
  brief : Brief (ofRatio q.num q.den * (60 / 120))
  tick : (tickOf (ofRatio q.num q.den)).toOption = some (k : Int)
  whole : (q * 960).num = k ∧ (q * 960).den = 1
  small : k < 2 ^ 49
  size : q = 0 ∨ 1 ≤ q * 64 ∧ q ≤ 8

instance (q : ℚ) (k : ℕ) : Decidable (OnTicks q k) :=
  decidable_of_iff (Moderate (ofRatio q.num q.den) ∧ Brief (ofRatio q.num q.den * (60 / 120)) ∧
      (tickOf (ofRatio q.num q.den)).toOption = some (k : Int) ∧
      ((q * 960).num = k ∧ (q * 960).den = 1) ∧ k < 2 ^ 49 ∧ (q = 0 ∨ 1 ≤ q * 64 ∧ q ≤ 8))
    ⟨fun ⟨moderate, brief, tick, whole, small, size⟩ =>
        ⟨moderate, brief, tick, whole, small, size⟩,
      fun h => ⟨h.moderate, h.brief, h.tick, h.whole, h.small, h.size⟩⟩

theorem onTicks_grammar {code : List Char} (valid : code ∈ Shorthand.durations) :
    ∃ q k, Duration.quarters code = .ok q ∧ OnTicks q k := by
  have all : ∀ code ∈ Shorthand.durations, (Duration.quarters code).toOption.any (fun q : ℚ =>
      decide (OnTicks q (q * 960).num.toNat)) = true := by
    decide +kernel
  have here := all code valid
  cases found : Duration.quarters code with
  | error fault =>
    rw [found] at here
    exact absurd here Bool.false_ne_true
  | ok q =>
    rw [found, Except.toOption, Option.any_some] at here
    exact ⟨q, _, rfl, of_decide_eq_true here⟩

namespace OnTicks
variable {k : ℕ}

theorem moderateSize (grid : OnTicks q k) : ModerateSize q := by
  rcases grid.size with none | ⟨large, small⟩
  · exact .inl none
  · exact .inr ⟨by linarith, by linarith⟩

theorem near (grid : OnTicks q k) : Near 1 (ofRatio q.num q.den) q :=
  near_ofRat grid.moderateSize.ordinary

theorem exact (grid : OnTicks q k) : q * 960 = k := by
  have same := Rat.num_div_den (q * 960)
  rw [grid.whole.1, grid.whole.2, Nat.cast_one, div_one, Int.cast_natCast] at same
  exact same.symm

end OnTicks

/-- A length that is a whole number of ticks is kept or loses one. -/
theorem tickOf_length {k : ℕ} (rate : Rate n) (grid : OnTicks q k) :
    ∃ tick : ℕ, tickOf (inBeats (ofRatio q.num q.den) 60 (ofInt n)) = .ok tick ∧
      (tick = k ∨ tick + 1 = k) ∧ (n ∈ evenTempos → tick = k) := by
  have size := grid.moderateSize
  have long := inBeats_near rate grid.near (by decide) size near_literal.2.1 (by norm_num)
    (by norm_num)
  rw [div_self (by norm_num), mul_one] at long
  obtain ⟨v, hv, within, tick⟩ := tickOf_near long (by decide) size.nonneg
    (size.mul (by norm_num) (by norm_num))
  rw [grid.exact] at within
  refine ⟨⌊v⌋₊, tick, within.floor_whole (by decide) hv grid.small, fun even => ?_⟩
  obtain ⟨y, same, _⟩ := inBeats_even grid.moderate
  have exact := grid.tick
  rw [(same n even).1] at tick
  rw [tick] at exact
  exact Int.ofNat_inj.mp (Option.some.inj exact)

end Solfege.Recorder
