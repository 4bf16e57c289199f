/-! # Runs

What may fail and keeps a state takes the state so far and gives an outcome with the state after it.
A failure ends a run: what was done up to it stays. -/

namespace WasmReceipt

variable {ε σ α β : Type} {x : ExceptT ε (StateM σ) α} {f : α → ExceptT ε (StateM σ) β}
  {before after : σ}

/-- Another name for a failure makes no success. -/
theorem eq_ok_of_mapError {ε' : Type} {x : Except ε α} {rename : ε → ε'} {a : α}
    (h : x.mapError rename = .ok a) : x = .ok a := by
  cases x with
  | ok b =>
    cases h
    rfl
  | error e => cases h

/-- A success of two steps in a row is one of the second, on what the first gave. -/
theorem bind_eq_ok {x : Except ε α} {f : α → Except ε β} {b : β} (h : x >>= f = .ok b) :
    ∃ a, x = .ok a ∧ f a = .ok b := by
  cases x with
  | ok a => exact ⟨a, rfl, h⟩
  | error e => cases h

/-- A failure of two steps in a row is one of the first, or of the second on what the first gave. -/
theorem bind_eq_error {x : Except ε α} {f : α → Except ε β} {e : ε} (h : x >>= f = .error e) :
    x = .error e ∨ ∃ a, x = .ok a ∧ f a = .error e := by
  cases x with
  | ok a => exact .inr ⟨a, rfl, h⟩
  | error cause =>
    cases h
    exact .inl rfl

theorem run_bind_of_ok {a : α} (h : x.run.run before = (.ok a, after)) :
    (x >>= f).run.run before = (f a).run.run after := by
  rw [ExceptT.run_bind, StateT.run_bind, h]
  rfl

theorem run_bind_of_error {e : ε} (h : x.run.run before = (.error e, after)) :
    (x >>= f).run.run before = (.error e, after) := by
  rw [ExceptT.run_bind, StateT.run_bind, h]
  rfl

/-- What came back from two steps in a row came from the second, run on what the first gave. -/
theorem run_bind_eq_ok {b : β} (h : (x >>= f).run.run before = (.ok b, after)) :
    ∃ a between, x.run.run before = (.ok a, between) ∧ (f a).run.run between = (.ok b, after) := by
  cases hx : x.run.run before with
  | mk outcome between =>
    cases outcome with
    | ok a => exact ⟨a, between, rfl, by rwa [run_bind_of_ok hx] at h⟩
    | error e =>
      rw [run_bind_of_error hx] at h
      cases h

theorem run_tryCatch_of_ok {handle : ε → ExceptT ε (StateM σ) α} {a : α}
    (h : x.run.run before = (.ok a, after)) :
    (tryCatch x handle).run.run before = (.ok a, after) :=
  congrArg (fun found : Except ε α × σ =>
    (match found.1 with
      | .ok a => pure (.ok a)
      | .error e => (handle e).run : StateM σ (Except ε α)).run found.2) h

/-- What is done about a failure goes on from the state that the failure left. -/
theorem run_tryCatch_of_error {handle : ε → ExceptT ε (StateM σ) α} {e : ε}
    (h : x.run.run before = (.error e, after)) :
    (tryCatch x handle).run.run before = (handle e).run.run after :=
  congrArg (fun found : Except ε α × σ =>
    (match found.1 with
      | .ok a => pure (.ok a)
      | .error e => (handle e).run : StateM σ (Except ε α)).run found.2) h

end WasmReceipt
