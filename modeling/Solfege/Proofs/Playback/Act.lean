import Solfege.Playback.Session

/-! What an act comes to on a given stage. Sequences are opened one act at a time; a fault skips the
rest and keeps the stage as it is by then. -/
namespace Solfege.Act
variable {α β : Type} {s t : Stage}

@[simp] theorem pure_apply (a : α) (s : Stage) : (pure a : Act α) s = (.ok a, s) := rfl

@[simp] theorem throw_apply (fault : Fault) (s : Stage) :
    (throw fault : Act α) s = (.error fault, s) := rfl

@[simp] theorem get_apply (s : Stage) : (get : Act Stage) s = (.ok s, s) := rfl

@[simp] theorem set_apply (s t : Stage) : (set t : Act PUnit) s = (.ok (), t) := rfl

@[simp] theorem modify_apply (f : Stage → Stage) (s : Stage) :
    (modify f : Act PUnit) s = (.ok (), f s) := rfl

@[simp] theorem ofExcept_apply (outcome : Except Fault α) (s : Stage) :
    ofExcept outcome s = (outcome, s) := rfl

@[simp] theorem record_apply (happenings : List Happening) (s : Stage) :
    record happenings s = (.ok (), { s with journal := s.journal ++ happenings }) := rfl

theorem bind_apply (act : Act α) (f : α → Act β) (s : Stage) :
    (act >>= f) s = match act s with
      | (.ok a, t) => f a t
      | (.error fault, t) => (.error fault, t) := by
  show ExceptT.bindCont f (act s).1 (act s).2 = _
  rcases act s with ⟨_ | a, t⟩ <;> rfl

/-- The stage after a sequence, whatever its answer. -/
theorem bind_stage (act : Act α) (f : α → Act β) (s : Stage) :
    ((act >>= f) s).2 = match (act s).1 with
      | .ok a => (f a (act s).2).2
      | .error _ => (act s).2 := by
  rw [bind_apply]
  rcases act s with ⟨_ | a, t⟩ <;> rfl

theorem bind_answer (act : Act α) (f : α → Act β) (s : Stage) :
    ((act >>= f) s).1 = match (act s).1 with
      | .ok a => (f a (act s).2).1
      | .error fault => .error fault := by
  rw [bind_apply]
  rcases act s with ⟨_ | a, t⟩ <;> rfl

theorem return_stage (act : Act α) (g : α → β) (s : Stage) :
    ((act >>= fun a => return g a) s).2 = (act s).2 := by
  rw [bind_stage]
  cases (act s).1 <;> rfl

theorem bind_of_ok {act : Act α} {a : α} (h : act s = (.ok a, t)) (f : α → Act β) :
    (act >>= f) s = f a t := by rw [bind_apply, h]

@[simp] theorem get_bind (f : Stage → Act β) (s : Stage) : (get >>= f) s = f s s := rfl

@[simp] theorem set_bind (t : Stage) (f : PUnit → Act β) (s : Stage) :
    ((set t : Act PUnit) >>= f) s = f () t := rfl

@[simp] theorem modify_bind (g : Stage → Stage) (f : PUnit → Act β) (s : Stage) :
    ((modify g : Act PUnit) >>= f) s = f () (g s) := rfl

@[simp] theorem ofExcept_bind_ok (a : α) (f : α → Act β) (s : Stage) :
    (ofExcept (.ok a) >>= f) s = f a s := rfl

theorem of_bind_ok {act : Act α} {f : α → Act β} {b : β} (done : (act >>= f) s = (.ok b, t)) :
    ∃ a u, act s = (.ok a, u) ∧ f a u = (.ok b, t) := by
  rw [bind_apply] at done
  cases first : act s with
  | mk outcome u =>
    rw [first] at done
    cases outcome with
    | error fault => cases done
    | ok a => exact ⟨a, u, rfl, done⟩

theorem attempt_apply (act : Act α) (s : Stage) : attempt act s = (.ok (act s).1, (act s).2) := rfl

theorem playback_apply (i : Nat) (s : Stage) :
    playback i s = match s.playbacks[i]? with
      | some p => (.ok p, s)
      | none => (.error .noSuchHandle, s) := by
  simp only [playback, get_bind]
  cases s.playbacks[i]? <;> rfl

theorem engine_apply (e : Nat) (s : Stage) :
    engine e s = match s.engines[e]? with
      | some recorder => (.ok recorder, s)
      | none => (.error .noSuchEngine, s) := by
  simp only [engine, get_bind]
  cases s.engines[e]? <;> rfl

end Solfege.Act
