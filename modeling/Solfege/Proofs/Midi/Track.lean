import Mathlib.Data.List.Sort
import Solfege.Midi.Track

/-! The order of a note track. Every event of the notes is in it once, and at one tick the notes
that end come before those that begin. So a note that has a length ends after it began, and one
that has none ends before it begins. -/
namespace Solfege.Midi
variable {x y : Timed} {events : List Timed} {notes : List Note} {pitch : UInt8}

/-! Sorting. -/

def Timed.Before (x y : Timed) : Prop := x.before y = true

namespace Timed

instance : DecidableRel Before := fun x y => inferInstanceAs (Decidable (x.before y = true))

theorem before_iff :
    x.Before y ↔ x.tick < y.tick ∨ x.tick = y.tick ∧ x.message.rank ≤ y.message.rank := by
  simp [Before, before]

instance : Std.Total Before where
  total x y := by
    rw [before_iff, before_iff]
    omega

instance : IsTrans Timed Before where
  trans x y z first second := by
    rw [before_iff] at *
    omega

end Timed

theorem inOrder_eq (events : List Timed) : inOrder events = events.insertionSort Timed.Before := by
  have place_eq (x : Timed) (sorted : List Timed) :
      place x sorted = sorted.orderedInsert Timed.Before x := by
    induction sorted with
    | nil => rfl
    | cons y rest ih =>
      rw [place, ih]
      rfl
  induction events with
  | nil => rfl
  | cons x rest ih => rw [inOrder, ih, place_eq, List.insertionSort_cons]

theorem inOrder_sorted (events : List Timed) : (inOrder events).Pairwise Timed.Before := by
  rw [inOrder_eq]
  exact List.pairwise_insertionSort _ _

theorem inOrder_perm (events : List Timed) : (inOrder events).Perm events := by
  rw [inOrder_eq]
  exact List.perm_insertionSort _ _

/-! Notes that begin and notes that end. -/

namespace Message

def begins (pitch : UInt8) : Message → Bool
  | .noteOn sounding _ => sounding == pitch
  | _ => false

def ends (pitch : UInt8) : Message → Bool
  | .noteOff sounding _ => sounding == pitch
  | _ => false

theorem rank_of_begins {message : Message} (here : message.begins pitch = true) :
    message.rank = 3 := by
  cases message with
  | noteOn sounding volume => rfl
  | _ => cases here

theorem rank_of_ends {message : Message} (here : message.ends pitch = true) :
    message.rank = 2 := by
  cases message with
  | noteOff sounding volume => rfl
  | _ => cases here

end Message

def begun (pitch : UInt8) (events : List Timed) : Nat :=
  events.countP (·.message.begins pitch)

def ended (pitch : UInt8) (events : List Timed) : Nat :=
  events.countP (·.message.ends pitch)

/-- However far a track has been played, no more notes of a pitch have ended than have begun. -/
def Sustained (pitch : UInt8) (events : List Timed) : Prop :=
  ∀ n, ended pitch (events.take n) ≤ begun pitch (events.take n)

/-- The notes of a pitch that begin before a tick. -/
def begunBefore (pitch : UInt8) (tick : Int) (events : List Timed) : Nat :=
  events.countP fun event => event.message.begins pitch && event.tick < tick

/-- The notes of a pitch that have ended at a tick. -/
def endedBy (pitch : UInt8) (tick : Int) (events : List Timed) : Nat :=
  events.countP fun event => event.message.ends pitch && event.tick ≤ tick

/-! Notes that have ended at a tick and notes begun before it are those of the part of a track up to
and with what ends at the tick. -/

/-- In a sorted list what satisfies a condition that passes to earlier elements comes first. -/
theorem takeWhile_eq_filter {α : Type} {r : α → α → Prop} {p : α → Bool} {l : List α}
    (sorted : l.Pairwise r) (down : ∀ x y, r x y → p y = true → p x = true) :
    l.takeWhile p = l.filter p := by
  induction l with
  | nil => rfl
  | cons x rest ih =>
    obtain ⟨first, later⟩ := List.pairwise_cons.mp sorted
    by_cases here : p x = true
    · rw [List.takeWhile_cons_of_pos here, List.filter_cons_of_pos here, ih later]
    · have none : ∀ y ∈ rest, ¬ p y = true :=
        fun y there holds => here (down x y (first y there) holds)
      rw [List.takeWhile_cons_of_neg here, List.filter_cons_of_neg here,
        List.filter_eq_nil_iff.mpr none]

/-- Whether an event comes before the notes that begin at a tick. -/
def Timed.early (tick : Int) (event : Timed) : Bool :=
  event.tick < tick || (event.tick == tick && event.message.rank ≤ 2)

theorem Timed.early_iff {tick : Int} :
    x.early tick = true ↔ x.tick < tick ∨ x.tick = tick ∧ x.message.rank ≤ 2 := by
  simp [early]

theorem ended_early (pitch : UInt8) (tick : Int) (events : List Timed) :
    ended pitch (events.filter (Timed.early tick)) = endedBy pitch tick events := by
  rw [ended, List.countP_filter, endedBy]
  refine List.countP_congr fun event _ => ?_
  rw [Bool.and_eq_true, Bool.and_eq_true, Timed.early_iff, decide_eq_true_eq]
  constructor
  · rintro ⟨here, early⟩
    exact ⟨here, by omega⟩
  · rintro ⟨here, reached⟩
    have rank := Message.rank_of_ends here
    exact ⟨here, by omega⟩

theorem begun_early (pitch : UInt8) (tick : Int) (events : List Timed) :
    begun pitch (events.filter (Timed.early tick)) = begunBefore pitch tick events := by
  rw [begun, List.countP_filter, begunBefore]
  refine List.countP_congr fun event _ => ?_
  rw [Bool.and_eq_true, Bool.and_eq_true, Timed.early_iff, decide_eq_true_eq]
  constructor
  · rintro ⟨here, early⟩
    have rank := Message.rank_of_begins here
    exact ⟨here, by omega⟩
  · rintro ⟨here, before⟩
    exact ⟨here, by omega⟩

theorem Sustained.balanced (sustained : Sustained pitch events)
    (sorted : events.Pairwise Timed.Before) (tick : Int) :
    endedBy pitch tick events ≤ begunBefore pitch tick events := by
  have first : events.takeWhile (Timed.early tick) = events.filter (Timed.early tick) := by
    refine takeWhile_eq_filter sorted fun x y before there => ?_
    rw [Timed.before_iff] at before
    rw [Timed.early_iff] at *
    omega
  have part := sustained (events.takeWhile (Timed.early tick)).length
  rwa [← List.prefix_iff_eq_take.mp (List.takeWhile_prefix _), first, ended_early, begun_early]
    at part

/-- Where a note ends in a track, all that ended so far did so by its tick, and what begins before
its tick has begun. -/
theorem ended_le_begun {before after : List Timed} {event : Timed}
    (sorted : (before ++ [event] ++ after).Pairwise Timed.Before)
    (balanced : endedBy pitch event.tick (before ++ [event] ++ after) ≤
      begunBefore pitch event.tick (before ++ [event] ++ after)) :
    ended pitch (before ++ [event]) ≤ begun pitch (before ++ [event]) := by
  obtain ⟨upTo, _, across⟩ := List.pairwise_append.mp sorted
  obtain ⟨_, _, earlier⟩ := List.pairwise_append.mp upTo
  have reached : ended pitch (before ++ [event]) =
      endedBy pitch event.tick (before ++ [event]) := by
    refine List.countP_congr fun other there => ?_
    have tick : other.tick ≤ event.tick := by
      rcases List.mem_append.mp there with there | last
      · have order := Timed.before_iff.mp (earlier other there event (by simp))
        omega
      · rw [List.mem_singleton.mp last]
    simp [tick]
  have late : begunBefore pitch event.tick after = 0 := by
    refine List.countP_eq_zero.mpr fun other there => ?_
    have order := Timed.before_iff.mp (across event (by simp) other there)
    simp only [Bool.and_eq_true, decide_eq_true_eq]
    omega
  calc ended pitch (before ++ [event])
      = endedBy pitch event.tick (before ++ [event]) := reached
    _ ≤ endedBy pitch event.tick (before ++ [event] ++ after) :=
        (List.sublist_append_left _ _).countP_le
    _ ≤ begunBefore pitch event.tick (before ++ [event] ++ after) := balanced
    _ = begunBefore pitch event.tick (before ++ [event]) := by
        rw [begunBefore, List.countP_append, ← begunBefore, ← begunBefore, late, Nat.add_zero]
    _ ≤ begun pitch (before ++ [event]) :=
        List.countP_mono_left fun _ _ begins => (Bool.and_eq_true_iff.mp begins).1

/-- It is enough to look at a track between the notes that end at a tick and those that begin at
it. -/
theorem sustained_iff (sorted : events.Pairwise Timed.Before) :
    Sustained pitch events ↔
      ∀ tick, endedBy pitch tick events ≤ begunBefore pitch tick events := by
  refine ⟨fun sustained => sustained.balanced sorted, fun balanced n => ?_⟩
  induction n with
  | zero => exact Nat.le_refl 0
  | succ n ih =>
    rw [List.take_add_one]
    cases found : events[n]? with
    | none => rwa [Option.toList_none, List.append_nil]
    | some event =>
      rw [Option.toList_some]
      by_cases here : event.message.ends pitch = true
      · have whole : events.take n ++ [event] ++ events.drop (n + 1) = events := by
          rw [← Option.toList_some, ← found, ← List.take_add_one, List.take_append_drop]
        exact ended_le_begun (whole.symm ▸ sorted) (whole.symm ▸ balanced event.tick)
      · rw [ended, begun, List.countP_append, List.countP_append, ← ended, ← begun,
          List.countP_singleton, if_neg here]
        omega

/-! The notes of a track. -/

variable (name : List UInt8) (program : UInt8)

/-- Of a property that names and programs lack, a track has what its notes have at their beginnings
and at their ends. -/
theorem countP_noteTrack {p : Timed → Bool} (named : p ⟨0, .trackName name⟩ = false)
    (played : p ⟨0, .program program⟩ = false) (notes : List Note) :
    (noteTrack name program notes).countP p =
      notes.countP (fun note => p ⟨note.tick, .noteOn note.pitch note.volume⟩) +
        notes.countP (fun note =>
          p ⟨note.tick + note.length, .noteOff note.pitch note.volume⟩) := by
  rw [noteTrack, (inOrder_perm _).countP_eq, List.countP_cons_of_neg (by simp [named]),
    List.countP_cons_of_neg (by simp [played])]
  induction notes with
  | nil => rfl
  | cons note rest ih =>
    rw [List.flatMap_cons, List.countP_append, ih]
    simp only [Note.messages, List.countP_cons, List.countP_nil]
    omega

theorem countP_begins (q : Int → Bool) (notes : List Note) :
    (noteTrack name program notes).countP
        (fun event => event.message.begins pitch && q event.tick) =
      notes.countP fun note => note.pitch == pitch && q note.tick := by
  rw [countP_noteTrack name program rfl rfl]
  simp [Message.begins]

theorem countP_ends (q : Int → Bool) (notes : List Note) :
    (noteTrack name program notes).countP
        (fun event => event.message.ends pitch && q event.tick) =
      notes.countP fun note => note.pitch == pitch && q (note.tick + note.length) := by
  rw [countP_noteTrack name program rfl rfl]
  simp [Message.ends]

/-- Every note begins once. -/
theorem begun_noteTrack (notes : List Note) :
    begun pitch (noteTrack name program notes) = notes.countP (·.pitch == pitch) := by
  simpa [begun] using countP_begins name program (fun _ => true) notes

/-- Every note ends once. -/
theorem ended_noteTrack (notes : List Note) :
    ended pitch (noteTrack name program notes) = notes.countP (·.pitch == pitch) := by
  simpa [ended] using countP_ends name program (fun _ => true) notes

/-- The notes of a pitch that have no length and stand at a tick. -/
def emptyAt (pitch : UInt8) (tick : Int) (notes : List Note) : Nat :=
  notes.countP fun note => note.pitch == pitch && (note.tick == tick && note.length == 0)

/-- The notes of a pitch that sound on both sides of a tick. -/
def soundingAt (pitch : UInt8) (tick : Int) (notes : List Note) : Nat :=
  notes.countP fun note =>
    note.pitch == pitch && (note.tick < tick && tick < note.tick + note.length)

/-- What has ended by a tick began before it or is empty there; what began before it has ended or
sounds on. -/
theorem ended_add_sounding (pitch : UInt8) (tick : Int)
    (lengths : ∀ note ∈ notes, 0 ≤ note.length) :
    notes.countP (fun note => note.pitch == pitch && decide (note.tick + note.length ≤ tick)) +
        soundingAt pitch tick notes =
      notes.countP (fun note => note.pitch == pitch && decide (note.tick < tick)) +
        emptyAt pitch tick notes := by
  induction notes with
  | nil => rfl
  | cons note rest ih =>
    have long := lengths note (by simp)
    have later := ih fun other there => lengths other (List.mem_cons_of_mem _ there)
    unfold soundingAt emptyAt at *
    simp only [List.countP_cons]
    by_cases here : note.pitch == pitch
    · simp only [here, Bool.true_and, Bool.and_eq_true, decide_eq_true_eq, beq_iff_eq]
      split_ifs <;> omega
    · simp only [here, Bool.false_and, Bool.false_eq_true, if_false]
      omega

/-- Notes with lengths are sustained. At a tick where one without a length stands, its end is taken
for that of another note of the pitch, and there has to be one that sounds on. -/
theorem sustained_noteTrack (lengths : ∀ note ∈ notes, 0 ≤ note.length) :
    Sustained pitch (noteTrack name program notes) ↔
      ∀ tick, emptyAt pitch tick notes ≤ soundingAt pitch tick notes := by
  have sorted : (noteTrack name program notes).Pairwise Timed.Before := inOrder_sorted _
  rw [sustained_iff sorted]
  refine forall_congr' fun tick => ?_
  rw [endedBy, begunBefore, countP_ends name program (fun t => decide (t ≤ tick)),
    countP_begins name program (fun t => decide (t < tick))]
  have sum := ended_add_sounding pitch tick lengths
  omega

end Solfege.Midi
