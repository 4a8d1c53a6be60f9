import Mathlib.Data.List.Forall2
import Solfege.Fault

/-! Outcomes in a row. A sequence succeeds when each of its parts does, and fails as the first of
them that fails. -/
namespace Solfege
variable {α β γ : Type}

theorem eq_ok_of_toOption {outcome : Except Fault α} {a : α}
    (made : outcome.toOption = some a) : outcome = .ok a := by
  cases outcome with
  | error fault => cases made
  | ok b => exact congrArg Except.ok (Option.some.inj made)

theorem bind_eq_ok {outcome : Except Fault α} {f : α → Except Fault β} {b : β} :
    outcome >>= f = .ok b ↔ ∃ a, outcome = .ok a ∧ f a = .ok b := by
  cases outcome with
  | error fault =>
    refine ⟨fun made => ?_, fun ⟨_, made, _⟩ => ?_⟩ <;> cases made
  | ok a =>
    refine ⟨fun made => ⟨a, rfl, made⟩, fun ⟨_, same, made⟩ => ?_⟩
    cases same
    exact made

theorem bind_eq_error {outcome : Except Fault α} {f : α → Except Fault β} {fault : Fault} :
    outcome >>= f = .error fault ↔
      outcome = .error fault ∨ ∃ a, outcome = .ok a ∧ f a = .error fault := by
  cases outcome with
  | error other =>
    refine ⟨fun failed => .inl ?_, ?_⟩
    · cases failed
      rfl
    · rintro (failed | ⟨a, made, _⟩)
      · cases failed
        rfl
      · cases made
  | ok a =>
    refine ⟨fun failed => .inr ⟨a, rfl, failed⟩, ?_⟩
    rintro (failed | ⟨_, made, failed⟩)
    · cases failed
    · cases made
      exact failed

theorem map_eq_error {outcome : Except Fault α} {g : α → β} {fault : Fault} :
    outcome.map g = .error fault ↔ outcome = .error fault := by
  cases outcome with
  | error other =>
    constructor <;> intro failed <;> cases failed <;> rfl
  | ok a =>
    constructor <;> intro failed <;> cases failed

theorem return_eq_error {outcome : Except Fault α} {g : α → β} {fault : Fault} :
    (outcome >>= fun a => return g a) = .error fault ↔ outcome = .error fault := by
  cases outcome with
  | error other =>
    constructor <;> intro failed <;> cases failed <;> rfl
  | ok a =>
    constructor <;> intro failed <;> cases failed

/-- Outcomes that fail alike succeed alike. -/
theorem ok_iff_of_error_iff {outcome : Except Fault α} {other : Except Fault β}
    (alike : ∀ fault, outcome = .error fault ↔ other = .error fault) :
    (∃ a, outcome = .ok a) ↔ ∃ b, other = .ok b := by
  cases outcome with
  | error fault => simp [(alike fault).mp rfl]
  | ok a =>
    cases other with
    | error fault => cases (alike fault).mpr rfl
    | ok b => exact ⟨fun _ => ⟨b, rfl⟩, fun _ => ⟨a, rfl⟩⟩

/-! Lists related place by place. -/

theorem exists_of_mem_left {R : α → β → Prop} {given : List α} {made : List β} {a : α}
    (pairs : List.Forall₂ R given made) (here : a ∈ given) : ∃ b ∈ made, R a b := by
  induction pairs with
  | nil => cases here
  | cons first _ ih =>
    rcases List.mem_cons.mp here with rfl | later
    · exact ⟨_, List.mem_cons_self, first⟩
    · obtain ⟨b, there, related⟩ := ih later
      exact ⟨b, List.mem_cons_of_mem _ there, related⟩

theorem exists_of_mem_right {R : α → β → Prop} {given : List α} {made : List β} {b : β}
    (pairs : List.Forall₂ R given made) (here : b ∈ made) : ∃ a ∈ given, R a b :=
  exists_of_mem_left pairs.flip here

theorem mapM_eq_ok {f : α → Except Fault β} {given : List α} {made : List β} :
    given.mapM f = .ok made ↔ List.Forall₂ (fun a b => f a = .ok b) given made := by
  induction given generalizing made with
  | nil =>
    rw [List.forall₂_nil_left_iff]
    exact ⟨fun same => (Except.ok.inj same).symm, fun same => congrArg Except.ok same.symm⟩
  | cons a rest ih =>
    rw [List.mapM_cons, bind_eq_ok]
    constructor
    · rintro ⟨b, first, made⟩
      obtain ⟨later, others, same⟩ := bind_eq_ok.mp made
      cases same
      exact .cons first (ih.mp others)
    · intro pairs
      cases pairs with
      | cons first others => exact ⟨_, first, bind_eq_ok.mpr ⟨_, ih.mpr others, rfl⟩⟩

theorem mapM_of_forall {f : α → Except Fault β} {g : α → β} {given : List α}
    (each : ∀ a ∈ given, f a = .ok (g a)) : given.mapM f = .ok (given.map g) :=
  mapM_eq_ok.mpr (List.forall₂_map_right_iff.mpr (List.forall₂_same.mpr each))

theorem mapM_of_exists {f : α → Except Fault β} {R : α → β → Prop} {given : List α}
    (each : ∀ a ∈ given, ∃ b, f a = .ok b ∧ R a b) :
    ∃ made, given.mapM f = .ok made ∧ List.Forall₂ R given made := by
  induction given with
  | nil => exact ⟨[], rfl, .nil⟩
  | cons a rest ih =>
    simp only [List.forall_mem_cons] at each
    obtain ⟨⟨b, first, related⟩, others⟩ := each
    obtain ⟨made, later, pairs⟩ := ih others
    refine ⟨b :: made, ?_, .cons related pairs⟩
    simp only [List.mapM_cons, first, later]
    rfl

theorem mapM_congr {f g : α → Except Fault β} {given : List α} (same : ∀ a ∈ given, f a = g a) :
    given.mapM f = given.mapM g := by
  induction given with
  | nil => rfl
  | cons a rest ih =>
    obtain ⟨first, others⟩ := List.forall_mem_cons.mp same
    rw [List.mapM_cons, List.mapM_cons, first, ih others]

/-- What is made of each in two steps is made of what the first step made of them. -/
theorem mapM_bind {f : α → Except Fault β} {g : β → Except Fault γ} {given : List α}
    {made : List β} (first : given.mapM f = .ok made) :
    given.mapM (fun a => f a >>= g) = made.mapM g := by
  have pairs := mapM_eq_ok.mp first
  clear first
  induction pairs with
  | nil => rfl
  | cons here _ ih =>
    rw [List.mapM_cons, List.mapM_cons, here, ih]
    rfl

theorem mapM_ok_iff {f : α → Except Fault β} {given : List α} :
    (∃ made, given.mapM f = .ok made) ↔ ∀ a ∈ given, ∃ b, f a = .ok b := by
  constructor
  · rintro ⟨made, all⟩ a here
    obtain ⟨b, _, one⟩ := exists_of_mem_left (mapM_eq_ok.mp all) here
    exact ⟨b, one⟩
  · intro each
    obtain ⟨made, all, _⟩ := mapM_of_exists fun a here => (each a here).imp fun _ one => ⟨one, one⟩
    exact ⟨made, all⟩

theorem mapM_eq_error {f : α → Except Fault β} {given : List α} {fault : Fault} :
    given.mapM f = .error fault ↔ ∃ before a after, given = before ++ a :: after ∧
      (∀ b ∈ before, ∃ c, f b = .ok c) ∧ f a = .error fault := by
  induction given with
  | nil =>
    constructor
    · intro failed
      cases failed
    · rintro ⟨before, a, after, same, _⟩
      cases List.append_eq_nil_iff.mp same.symm |>.2
  | cons a rest ih =>
    rw [List.mapM_cons, bind_eq_error]
    constructor
    · rintro (failed | ⟨b, first, later⟩)
      · exact ⟨[], a, rest, rfl, List.forall_mem_nil _, failed⟩
      · obtain ⟨before, c, after, rfl, fine, failed⟩ := ih.mp (return_eq_error.mp later)
        exact ⟨a :: before, c, after, rfl, List.forall_mem_cons.mpr ⟨⟨b, first⟩, fine⟩, failed⟩
    · rintro ⟨before, c, after, same, fine, failed⟩
      cases before with
      | nil =>
        cases same
        exact .inl failed
      | cons first before =>
        cases same
        obtain ⟨⟨b, made⟩, others⟩ := List.forall_mem_cons.mp fine
        have later := ih.mpr ⟨before, c, after, rfl, others, failed⟩
        exact .inr ⟨b, made, return_eq_error.mpr later⟩

theorem exists_of_mapM_error {f : α → Except Fault β} {given : List α} {fault : Fault}
    (failed : given.mapM f = .error fault) : ∃ a ∈ given, f a = .error fault := by
  obtain ⟨before, a, after, rfl, _, fails⟩ := mapM_eq_error.mp failed
  exact ⟨a, List.mem_append_right _ List.mem_cons_self, fails⟩

/-- What keeps one of many from succeeding keeps them all. -/
theorem mapM_error {f : α → Except Fault β} {given : List α} {a : α} {fault : Fault}
    (here : a ∈ given) (fails : f a = .error fault) : ∃ other, given.mapM f = .error other := by
  cases outcome : given.mapM f with
  | error other => exact ⟨other, rfl⟩
  | ok made =>
    obtain ⟨b, made⟩ := mapM_ok_iff.mp ⟨made, outcome⟩ a here
    cases fails.symm.trans made

end Solfege
