import WasmReceipt.Execution
import WasmReceipt.Proofs.Run

/-! # Runs of an execution

A run of an execution takes the steps so far and gives an outcome with the steps after it. -/

namespace WasmReceipt.Execution

variable {α : Type} {steps after : List Step}

@[simp] theorem run_call (c : Call) :
    (call c).run.run steps = (.ok (), steps ++ [.call c]) := rfl

@[simp] theorem run_report (e : Event) :
    (report e).run.run steps = (.ok (), steps ++ [.event e]) := rfl

@[simp] theorem run_pure (a : α) : (pure a : Execution α).run.run steps = (.ok a, steps) := rfl

@[simp] theorem run_lift_ok (a : α) :
    (liftM (Except.ok a : Except Failure α) : Execution α).run.run steps = (.ok a, steps) := rfl

/-- What is worked out without a step leaves the steps as they are. -/
theorem run_lift_eq_ok {x : Except Failure α} {a : α}
    (h : (liftM x : Execution α).run.run steps = (.ok a, after)) : x = .ok a ∧ steps = after := by
  cases x with
  | ok b =>
    cases h
    exact ⟨rfl, rfl⟩
  | error failure => cases h

end WasmReceipt.Execution
