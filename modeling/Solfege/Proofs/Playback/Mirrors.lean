import Mathlib.Data.List.Forall2
import Solfege.Proofs.Playback.Orderly

/-! Two stages, one of which lacks some of the playbacks of the other. What the two have in common
looks the same on both, and goes on doing so whatever becomes of the others, as long as these raise
nothing and none of the engines that they make is used. -/
namespace Solfege

/-- A playback whose end raises nothing and makes engines only under names that are given up. -/
structure Face.Harmless (lost : String → Bool) (f : Face) : Prop where
  calm : f.outcome = .ok ()
  makes : ∀ clock id, lost id = false → f.makes clock id = none

namespace Face.Harmless
variable {lost : String → Bool} {f : Face}

theorem of_notified (notified : f.notified = true) : f.Harmless lost :=
  ⟨if_pos notified, fun _ _ _ => if_pos notified⟩

theorem ended (harmless : f.Harmless lost) : f.ended.Harmless lost := by
  unfold Face.ended
  split
  · exact harmless
  · exact of_notified rfl

theorem after (harmless : f.Harmless lost) (task : Task) : (f.after task).Harmless lost := by
  cases task with
  | unit => exact harmless
  | completion => exact harmless.ended

theorem answers (harmless : f.Harmless lost) (task : Task) : f.answers task = .ok () := by
  cases task with
  | unit => rfl
  | completion => exact harmless.calm

theorem renames (harmless : f.Harmless lost) (clock : Binary64) (task : Task) (id : String)
    (used : lost id = false) : f.renames clock id task = none := by
  cases task with
  | unit => rfl
  | completion => exact harmless.makes clock id used

end Face.Harmless

/-- A timer of a playback that is kept, and the one in its place on the other stage. The playbacks
there are numbered by their places among those that are kept. -/
structure Timer.Twin (kept : List Nat) (timer twin : Timer) : Prop where
  due : twin.due = timer.due
  task : twin.task = timer.task
  owner : kept[twin.owner]? = some timer.owner

namespace Timer.Twin
variable {kept : List Nat} {timers others older newer : List Timer} {timer : Timer}

theorem split (twins : List.Forall₂ (Twin kept) (older ++ timer :: newer) others) :
    ∃ old twin new, others = old ++ twin :: new ∧ List.Forall₂ (Twin kept) older old ∧
      Twin kept timer twin ∧ List.Forall₂ (Twin kept) newer new := by
  induction older generalizing others with
  | nil =>
    obtain ⟨twin, new, same, news, rfl⟩ := List.forall₂_cons_left_iff.mp twins
    exact ⟨[], twin, new, rfl, .nil, same, news⟩
  | cons first rest ih =>
    obtain ⟨twin, more, same, rests, rfl⟩ := List.forall₂_cons_left_iff.mp twins
    obtain ⟨old, next, new, rfl, olds, like, news⟩ := ih rests
    exact ⟨twin :: old, next, new, rfl, .cons same olds, like, news⟩

/-- Every twin is that of a timer. -/
theorem model (twins : List.Forall₂ (Twin kept) timers others) :
    ∀ twin ∈ others, ∃ timer ∈ timers, Twin kept timer twin := by
  induction twins with
  | nil => exact fun twin here => nomatch here
  | cons same _ ih =>
    intro twin here
    rcases List.mem_cons.mp here with rfl | later
    · exact ⟨_, List.mem_cons_self, same⟩
    · obtain ⟨timer, waits, like⟩ := ih twin later
      exact ⟨timer, List.mem_cons_of_mem _ waits, like⟩

/-- Timers that are made alike, for a playback and for the one in its place, are twins. -/
theorem of_alike {n m : Nat} (link : kept[m]? = some n)
    (alike : timers.map (fun timer => (timer.due, timer.task)) =
      others.map fun timer => (timer.due, timer.task))
    (owner : ∀ timer ∈ timers, timer.owner = n) (place : ∀ twin ∈ others, twin.owner = m) :
    List.Forall₂ (Twin kept) timers others := by
  induction timers generalizing others with
  | nil =>
    rw [List.map_eq_nil_iff.mp alike.symm]
    exact .nil
  | cons timer rest ih =>
    obtain ⟨twin, more, rfl, same, rests⟩ := List.map_eq_cons_iff.mp alike.symm
    injection same with due task
    refine .cons ⟨due, task, ?_⟩ (ih rests.symm
      (fun timer here => owner timer (List.mem_cons_of_mem _ here))
      fun twin here => place twin (List.mem_cons_of_mem _ here))
    rw [place twin List.mem_cons_self, owner timer List.mem_cons_self, link]

end Timer.Twin

namespace Stage

/-- One stage has the playbacks that are kept of the other, in their order, and no others. -/
structure Mirrors (gone lost : String → Bool) (kept : List Nat) (s t : Stage) : Prop where
  once : kept.Nodup
  inside : ∀ i ∈ kept, ∃ f, s.face i = some f
  faces : ∀ j, t.face j = kept[j]?.bind s.face
  hidden : ∀ i f, i ∉ kept → s.face i = some f → f.Harmless lost
  timers : List.Forall₂ (Timer.Twin kept) (s.timers.filter (·.owner ∈ kept)) t.timers
  names : ∀ id, gone id = false →
    (t.playbackNames.lookup id).map (kept[·]?) = (s.playbackNames.lookup id).map some
  goneNames : ∀ id i, gone id = true → s.playbackNames.lookup id = some i →
    i ∉ kept ∧ ∃ f, s.face i = some f
  origins : ∀ id, lost id = false → t.namedOrigin id = s.namedOrigin id

/-- A single playback has changed, and perhaps the timers and what engines go by. -/
structure Alters (i : Nat) (g : Face) (left : List Timer) (made : String → Option Binary64)
    (s t : Stage) : Prop where
  timers : t.timers = left
  playbackNames : t.playbackNames = s.playbackNames
  face : t.face i = some g
  others : ∀ k ≠ i, t.face k = s.face k
  origins : ∀ id, t.namedOrigin id = (made id).or (s.namedOrigin id)

variable {gone lost : String → Bool} {kept : List Nat} {s t u v : Stage} {i j : Nat} {f g : Face}
  {left fewer : List Timer} {made : String → Option Binary64} {timer : Timer}

theorem Ends.alters (ends : Ends i f left s t) :
    Alters i f.ended left (f.makes s.clock ·) s t :=
  ⟨ends.timers, ends.playbackNames, ends.face, ends.others, ends.origins⟩

theorem Fires.alters (fires : Fires timer f s t) :
    Alters timer.owner (f.after timer.task) (s.timers.filter (·.id ≠ timer.id))
      (f.renames timer.due · timer.task) s t :=
  ⟨fires.timers, fires.playbackNames, fires.face, fires.others, fires.origins⟩

theorem Alters.exists_face (alters : Alters i g left made s t) {k : Nat}
    (seen : ∃ f, s.face k = some f) : ∃ f, t.face k = some f := by
  by_cases here : k = i
  · exact ⟨g, here ▸ alters.face⟩
  · rw [alters.others k here]
    exact seen

theorem Starts.face_old {id : String} {tasks : List (Binary64 × Task)} {k : Nat}
    (starts : Starts id f tasks s t) (seen : s.face k = some g) : t.face k = some g := by
  have old : k ≠ s.playbacks.length := by
    rintro rfl
    rw [face_eq_none.mpr (Nat.le_refl _)] at seen
    cases seen
  rw [starts.others k old, seen]

namespace Mirrors

theorem initial : Mirrors gone lost [] .initial .initial := by
  constructor <;> simp [Stage.initial, face]

theorem tick (mirrors : Mirrors gone lost kept s t) (time later : Binary64) :
    Mirrors gone lost kept { s with clock := time } { t with clock := later } :=
  ⟨mirrors.once, mirrors.inside, mirrors.faces, mirrors.hidden, mirrors.timers, mirrors.names,
    mirrors.goneNames, mirrors.origins⟩

theorem face_eq (mirrors : Mirrors gone lost kept s t) (link : kept[j]? = some i) :
    t.face j = s.face i := by
  rw [mirrors.faces, link, Option.bind_some]

/-- The next playback to be started is not among those that are kept. -/
theorem fresh (mirrors : Mirrors gone lost kept s t) : s.playbacks.length ∉ kept := by
  intro here
  obtain ⟨f, seen⟩ := mirrors.inside _ here
  rw [face_eq_none.mpr (Nat.le_refl _)] at seen
  cases seen

theorem size (mirrors : Mirrors gone lost kept s t) : t.playbacks.length = kept.length := by
  apply Nat.le_antisymm
  · apply face_eq_none.mp
    rw [mirrors.faces, List.getElem?_eq_none (Nat.le_refl _), Option.bind_none]
  · apply Nat.le_of_not_lt
    intro less
    obtain ⟨f, seen⟩ := mirrors.inside _ (List.getElem_mem less)
    have missing := mirrors.face_eq (List.getElem?_eq_getElem less)
    rw [face_eq_none.mpr (Nat.le_refl _), seen] at missing
    cases missing

theorem place_eq (mirrors : Mirrors gone lost kept s t) {k : Nat} (link : kept[j]? = some i)
    (other : kept[k]? = some i) : k = j := by
  have less := (List.getElem?_eq_some_iff.mp other).1
  exact (List.getElem?_inj less mirrors.once).mp (other.trans link.symm)

/-- What becomes of a playback that is not kept goes unseen on the other stage. -/
theorem unseen (mirrors : Mirrors gone lost kept s t) (alters : Alters i g left made s u)
    (away : i ∉ kept) (harmless : g.Harmless lost)
    (unused : ∀ id, lost id = false → made id = none)
    (same : left.filter (·.owner ∈ kept) = s.timers.filter (·.owner ∈ kept)) :
    Mirrors gone lost kept u t := by
  have others (k : Nat) (here : k ∈ kept) : u.face k = s.face k :=
    alters.others k fun here' => away (here' ▸ here)
  refine ⟨mirrors.once, fun k here => ?_, fun k => ?_, fun k f hidden seen => ?_, ?_, fun id => ?_,
    fun id k given named => ?_, fun id used => ?_⟩
  · exact alters.exists_face (mirrors.inside k here)
  · rw [mirrors.faces]
    cases link : kept[k]? with
    | none => rfl
    | some k' => exact (others k' (List.mem_of_getElem? link)).symm
  · by_cases here : k = i
    · rw [here, alters.face] at seen
      cases seen
      exact harmless
    · rw [alters.others k here] at seen
      exact mirrors.hidden k f hidden seen
  · rw [alters.timers, same]
    exact mirrors.timers
  · rw [alters.playbackNames]
    exact mirrors.names id
  · rw [alters.playbackNames] at named
    obtain ⟨hidden, seen⟩ := mirrors.goneNames id k given named
    exact ⟨hidden, alters.exists_face seen⟩
  · rw [alters.origins, unused id used, Option.none_or]
    exact mirrors.origins id used

/-- A playback that is kept changes on both stages. -/
theorem alters (mirrors : Mirrors gone lost kept s t) (link : kept[j]? = some i)
    (here : Alters i g left made s u) (there : Alters j g fewer made t v)
    (twins : List.Forall₂ (Timer.Twin kept) (left.filter (·.owner ∈ kept)) fewer) :
    Mirrors gone lost kept u v := by
  refine ⟨mirrors.once, fun k mine => ?_, fun k => ?_, fun k f hidden seen => ?_, ?_, fun id => ?_,
    fun id k given named => ?_, fun id used => ?_⟩
  · exact here.exists_face (mirrors.inside k mine)
  · by_cases same : k = j
    · rw [same, there.face, link, Option.bind_some, here.face]
    · rw [there.others k same, mirrors.faces]
      cases other : kept[k]? with
      | none => rfl
      | some k' =>
        have different : k' ≠ i := fun equal => same (mirrors.place_eq link (equal ▸ other))
        exact (here.others k' different).symm
  · have different : k ≠ i := fun equal => hidden (equal ▸ List.mem_of_getElem? link)
    rw [here.others k different] at seen
    exact mirrors.hidden k f hidden seen
  · rw [here.timers, there.timers]
    exact twins
  · rw [here.playbackNames, there.playbackNames]
    exact mirrors.names id
  · rw [here.playbackNames] at named
    obtain ⟨hidden, seen⟩ := mirrors.goneNames id k given named
    exact ⟨hidden, here.exists_face seen⟩
  · rw [here.origins, there.origins, mirrors.origins id used]

/-- The timer that is due first, if it is that of a playback that is kept, has a twin that is due
first on the other stage. -/
theorem first_twin (mirrors : Mirrors gone lost kept s t) (here : s.Tracks) (there : t.Tracks)
    (first : timer.First s.timers) (mine : timer.owner ∈ kept) :
    ∃ twin : Timer, twin.First t.timers ∧ timer.Twin kept twin ∧
      List.Forall₂ (Timer.Twin kept)
        ((s.timers.filter (·.id ≠ timer.id)).filter (·.owner ∈ kept))
        (t.timers.filter (·.id ≠ twin.id)) := by
  have twins := mirrors.timers
  have aged : (s.timers.filter (·.owner ∈ kept)).Pairwise fun a b => a.id < b.id :=
    (Tracked.aged here).sublist List.filter_sublist
  have ages : t.timers.Pairwise fun a b => a.id < b.id := Tracked.aged there
  obtain ⟨older, newer, parts, before, after⟩ :=
    (first.filter (p := fun timer => timer.owner ∈ kept) (decide_eq_true mine)).place
  rw [parts] at twins aged
  obtain ⟨old, twin, new, whole, olds, same, news⟩ := Timer.Twin.split twins
  rw [whole] at ages
  refine ⟨twin, ⟨?_, old, new, whole, ?_, ?_⟩, same, ?_⟩
  · rw [same.due]
    exact first.comes
  · intro other waiting
    obtain ⟨model, here, like⟩ := Timer.Twin.model olds other waiting
    rw [like.due, same.due]
    exact before model here
  · intro other waiting
    obtain ⟨model, here, like⟩ := Timer.Twin.model news other waiting
    rw [like.due, same.due]
    exact after model here
  · rw [List.filter_comm, parts, filter_ids aged, whole, filter_ids ages]
    exact List.rel_append olds news

/-- A timer that is not kept leaves no gap. -/
theorem filter_away (tracks : s.Tracks) (waiting : timer ∈ s.timers) (away : timer.owner ∉ kept) :
    (s.timers.filter (·.id ≠ timer.id)).filter (·.owner ∈ kept) =
      s.timers.filter (·.owner ∈ kept) := by
  rw [List.filter_comm]
  apply List.filter_eq_self.mpr
  intro other here
  obtain ⟨there, mine⟩ := List.mem_filter.mp here
  refine decide_eq_true fun same => away ?_
  rw [← Tracked.eq_of_id tracks there waiting same]
  exact of_decide_eq_true mine

theorem leaves_away (f : Face) (timers : List Timer) (away : i ∉ kept) :
    (f.leaves i timers).filter (·.owner ∈ kept) = timers.filter (·.owner ∈ kept) := by
  unfold Face.leaves
  split
  · rfl
  · rw [List.filter_comm]
    apply List.filter_eq_self.mpr
    intro other here
    have mine : other.owner ∈ kept := of_decide_eq_true (List.mem_filter.mp here).2
    exact decide_eq_true fun same => away (same ▸ mine)

theorem leaves_twins (mirrors : Mirrors gone lost kept s t) (link : kept[j]? = some i) (f : Face) :
    List.Forall₂ (Timer.Twin kept) ((f.leaves i s.timers).filter (·.owner ∈ kept))
      (f.leaves j t.timers) := by
  unfold Face.leaves
  split
  · exact mirrors.timers
  · rw [List.filter_comm]
    refine List.rel_filter (fun timer twin same => ?_) mirrors.timers
    have owners : timer.owner = i ↔ twin.owner = j := by
      constructor
      · intro mine
        exact mirrors.place_eq link (mine ▸ same.owner)
      · intro mine
        have owner := same.owner
        rw [mine, link] at owner
        exact (Option.some.inj owner).symm
    simp [owners]

/-- A playback that is started under a name that is given up goes unseen on the other stage. -/
theorem starts_unseen {id : String} {tasks : List (Binary64 × Task)}
    (mirrors : Mirrors gone lost kept s t) (given : gone id = true)
    (starts : Starts id f tasks s u) (harmless : f.Harmless lost) :
    Mirrors gone lost kept u t := by
  have fresh := mirrors.fresh
  have same (k : Nat) (here : k ∈ kept) : u.face k = s.face k :=
    starts.others k fun last => fresh (last ▸ here)
  refine ⟨mirrors.once, fun k here => ?_, fun k => ?_, fun k f hidden seen => ?_, ?_,
    fun other used => ?_, fun other k gone named => ?_, fun other used => ?_⟩
  · rw [same k here]
    exact mirrors.inside k here
  · rw [mirrors.faces]
    cases link : kept[k]? with
    | none => rfl
    | some k' => exact (same k' (List.mem_of_getElem? link)).symm
  · by_cases last : k = s.playbacks.length
    · rw [last, starts.face] at seen
      cases seen
      exact harmless
    · rw [starts.others k last] at seen
      exact mirrors.hidden k f hidden seen
  · obtain ⟨added, timers, _, owned⟩ := starts.timers
    have none : added.filter (·.owner ∈ kept) = [] := by
      apply List.filter_eq_nil_iff.mpr
      intro timer here
      rw [(owned timer here).1, decide_eq_true_eq]
      exact fresh
    rw [timers, List.filter_append, none, List.append_nil]
    exact mirrors.timers
  · have different : other ≠ id := by
      rintro rfl
      rw [given] at used
      cases used
    rw [starts.playbackNames, if_neg different]
    exact mirrors.names other used
  · rw [starts.playbackNames] at named
    split at named
    · cases named
      exact ⟨fresh, f, starts.face⟩
    · obtain ⟨hidden, f, seen⟩ := mirrors.goneNames other k gone named
      exact ⟨hidden, f, starts.face_old seen⟩
  · rw [starts.origins]
    exact mirrors.origins other used

/-! A playback that is started on both stages is kept from then on: it has the next place. -/

theorem link_concat {n : Nat} (link : kept[j]? = some i) : (kept ++ [n])[j]? = some i := by
  rw [List.getElem?_append_left (List.getElem?_eq_some_iff.mp link).1, link]

section
variable {id : String} {tasks : List (Binary64 × Task)} (mirrors : Mirrors gone lost kept s t)
  (here : Starts id f tasks s u) (there : Starts id f tasks t v)
include mirrors here there

theorem starts_faces (k : Nat) :
    v.face k = (kept ++ [s.playbacks.length])[k]?.bind u.face := by
  have size := mirrors.size
  by_cases new : k = kept.length
  · rw [new, List.getElem?_concat_length, Option.bind_some, here.face, ← size, there.face]
  · rw [there.others k (size ▸ new), mirrors.faces]
    cases link : kept[k]? with
    | some i =>
      obtain ⟨g, seen⟩ := mirrors.inside i (List.mem_of_getElem? link)
      rw [link_concat link, Option.bind_some, Option.bind_some, seen, here.face_old seen]
    | none =>
      have beyond := List.getElem?_eq_none_iff.mp link
      rw [List.getElem?_eq_none (by rw [List.length_append, List.length_singleton]; omega)]
      rfl

theorem starts_timers (tracks : s.Tracks) :
    List.Forall₂ (Timer.Twin (kept ++ [s.playbacks.length]))
      (u.timers.filter (·.owner ∈ kept ++ [s.playbacks.length])) v.timers := by
  obtain ⟨added, timers, tasks, owned⟩ := here.timers
  obtain ⟨more, twins, likewise, places⟩ := there.timers
  have before : s.timers.filter (·.owner ∈ kept ++ [s.playbacks.length]) =
      s.timers.filter (·.owner ∈ kept) := by
    apply List.filter_congr
    intro timer waiting
    have old : timer.owner ≠ s.playbacks.length :=
      Nat.ne_of_lt (Tracked.owned tracks timer waiting)
    simp [old]
  have all : added.filter (·.owner ∈ kept ++ [s.playbacks.length]) = added := by
    apply List.filter_eq_self.mpr
    intro timer new
    simp [(owned timer new).1]
  rw [timers, twins, List.filter_append, before, all]
  apply List.rel_append
  · exact mirrors.timers.imp fun timer twin same =>
      ⟨same.due, same.task, link_concat same.owner⟩
  · exact Timer.Twin.of_alike List.getElem?_concat_length (tasks.trans likewise.symm)
      (fun timer new => (owned timer new).1)
      fun twin new => (places twin new).1.trans mirrors.size

theorem starts_names (other : String) (used : gone other = false) :
    (v.playbackNames.lookup other).map ((kept ++ [s.playbacks.length])[·]?) =
      (u.playbackNames.lookup other).map some := by
  rw [here.playbackNames, there.playbackNames]
  split
  · rw [Option.map_some, mirrors.size, List.getElem?_concat_length, Option.map_some]
  · have names := mirrors.names other used
    cases place : t.playbackNames.lookup other with
    | none =>
      rw [place] at names
      exact names
    | some j =>
      rw [place] at names
      obtain ⟨i, named, link⟩ := Option.map_eq_some_iff.mp names.symm
      rw [named, Option.map_some, Option.map_some, link_concat link.symm]

theorem starts (tracks : s.Tracks) (used : gone id = false) :
    Mirrors gone lost (kept ++ [s.playbacks.length]) u v := by
  have fresh := mirrors.fresh
  refine ⟨?_, fun k member => ?_, mirrors.starts_faces here there, fun k g hidden seen => ?_,
    mirrors.starts_timers here there tracks, mirrors.starts_names here there,
    fun other k given named => ?_, fun other used => ?_⟩
  · exact mirrors.once.append (List.nodup_singleton _) (by simpa using fresh)
  · rcases List.mem_append.mp member with before | now
    · obtain ⟨g, seen⟩ := mirrors.inside k before
      exact ⟨g, here.face_old seen⟩
    · exact ⟨f, List.mem_singleton.mp now ▸ here.face⟩
  · rw [List.mem_append, List.mem_singleton, not_or] at hidden
    rw [here.others k hidden.2] at seen
    exact mirrors.hidden k g hidden.1 seen
  · have different : other ≠ id := by
      rintro rfl
      rw [given] at used
      cases used
    rw [here.playbackNames, if_neg different] at named
    obtain ⟨hidden, g, seen⟩ := mirrors.goneNames other k given named
    refine ⟨?_, g, here.face_old seen⟩
    intro member
    rcases List.mem_append.mp member with before | now
    · exact hidden before
    · rw [List.mem_singleton.mp now, face_eq_none.mpr (Nat.le_refl _)] at seen
      cases seen
  · rw [here.origins, there.origins, mirrors.origins other used]

end

/-- What playbacks do not go by may change on both stages alike. -/
theorem bystands (mirrors : Mirrors gone lost kept s t) (faces : s.Faces) (others : t.Faces)
    (here : Bystands made s u) (there : Bystands made t v) : Mirrors gone lost kept u v := by
  have looks := here.idles.face faces
  have same := there.idles.face others
  refine ⟨mirrors.once, ?_, ?_, ?_, ?_, ?_, ?_, fun id used => ?_⟩
  · rw [looks]
    exact mirrors.inside
  · rw [looks, same]
    exact mirrors.faces
  · rw [looks]
    exact mirrors.hidden
  · rw [here.idles.timers, there.idles.timers]
    exact mirrors.timers
  · rw [here.idles.playbackNames, there.idles.playbackNames]
    exact mirrors.names
  · rw [here.idles.playbackNames, looks]
    exact mirrors.goneNames
  · rw [here.origins, there.origins, mirrors.origins id used]

theorem place_named (mirrors : Mirrors gone lost kept s t) {id : String} (used : gone id = false)
    (named : s.playbackNames.lookup id = some i) :
    ∃ j, t.playbackNames.lookup id = some j ∧ kept[j]? = some i := by
  have names := mirrors.names id used
  rw [named] at names
  exact Option.map_eq_some_iff.mp names

theorem named_face (mirrors : Mirrors gone lost kept s t) {id : String} (used : gone id = false) :
    (t.playbackNames.lookup id).bind t.face = (s.playbackNames.lookup id).bind s.face := by
  have names := mirrors.names id used
  cases there : t.playbackNames.lookup id with
  | none =>
    rw [there] at names
    rw [Option.map_eq_none_iff.mp names.symm]
    rfl
  | some j =>
    rw [there] at names
    obtain ⟨i, here, link⟩ := Option.map_eq_some_iff.mp names.symm
    rw [here, Option.bind_some, Option.bind_some, mirrors.face_eq link.symm]

end Mirrors
end Stage
end Solfege
