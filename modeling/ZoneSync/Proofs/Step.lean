/-!
Computations with a state and an error, taken apart at their binds.
-/

namespace ZoneSync

variable {ε σ α β : Type}

theorem bind_eq_ok {x : EStateM ε σ α} {f : α → EStateM ε σ β} {s s' : σ} {b : β} :
    (x >>= f) s = .ok b s' ↔ ∃ a middle, x s = .ok a middle ∧ f a middle = .ok b s' := by
  change EStateM.bind x f s = .ok b s' ↔ _
  rw [EStateM.bind]
  cases x s with
  | error e middle => simp
  | ok a middle => simp [and_assoc]

theorem bind_eq_error {x : EStateM ε σ α} {f : α → EStateM ε σ β} {s s' : σ} {e : ε} :
    (x >>= f) s = .error e s' ↔
      x s = .error e s' ∨ ∃ a middle, x s = .ok a middle ∧ f a middle = .error e s' := by
  change EStateM.bind x f s = .error e s' ↔ _
  rw [EStateM.bind]
  cases x s with
  | error e middle => simp
  | ok a middle => simp [and_assoc]

theorem bind_of_ok {x : EStateM ε σ α} {f : α → EStateM ε σ β} {s middle : σ} {a : α}
    (h : x s = .ok a middle) : (x >>= f) s = f a middle := by
  change EStateM.bind x f s = _
  simp only [EStateM.bind, h]

theorem bind_of_error {x : EStateM ε σ α} {f : α → EStateM ε σ β} {s middle : σ} {e : ε}
    (h : x s = .error e middle) : (x >>= f) s = .error e middle := by
  change EStateM.bind x f s = _
  simp only [EStateM.bind, h]

theorem adaptExcept_eq_ok {ε' : Type} {f : ε → ε'} {x : EStateM ε σ α} {s s' : σ} {a : α} :
    (x.adaptExcept f) s = .ok a s' ↔ x s = .ok a s' := by
  rw [EStateM.adaptExcept]
  cases x s <;> simp

theorem get_bind (f : σ → EStateM ε σ α) (s : σ) : (get >>= f) s = f s s := rfl

theorem set_bind (x : EStateM ε σ α) (s s' : σ) : (set s' >>= fun _ => x) s = x s' := rfl

theorem throw_eq (e : ε) (s : σ) : (throw e : EStateM ε σ α) s = .error e s := rfl

end ZoneSync
