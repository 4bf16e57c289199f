import WasmReceipt.Client
import WasmReceipt.Proofs.Execution.Run
import WasmReceipt.Proofs.Receipt.Fields

/-! # Runs of a runner

A runner that starts and ends gives a result, as long as its numbers fit into a receipt. Whatever
result there is, its output is read from what the runner wrote. -/

namespace WasmReceipt

namespace Runner

/-- The runner starts and ends, and its exit code and its clocks fit into a receipt. -/
structure Finishes (runner : Runner) (wallTimeMs : Int) : Prop where
  start : runner.start = .ok ()
  milliseconds : milliseconds runner.before runner.after = .ok wallTimeMs
  minExitCode_le : Receipt.minExitCode ≤ runner.exitCode
  le_maxExitCode : runner.exitCode ≤ Receipt.maxExitCode
  wallTimeMs_nonneg : 0 ≤ wallTimeMs
  wallTimeMs_le : wallTimeMs ≤ Receipt.maxTime
  now_nonneg : 0 ≤ runner.now
  now_le : runner.now ≤ Receipt.maxTime

def resultOf (runner : Runner) (moduleHash : Text) (wallTimeMs : Int) : Result :=
  ⟨ModuleOutput.ofBytes runner.stdout, Utf8.decodeReplacing runner.stderr,
    ⟨Receipt.currentVersion, moduleHash, runner.exitCode, wallTimeMs, runner.now,
      Receipt.localMarker, Receipt.unsignedMarker⟩⟩

def stepsOf (runnerPath : Text) (p : Path) (input : Option Bytes) : List Step :=
  [.event .spawning, .call (.spawn (command runnerPath p)), .call (.communicate input),
    .event .localComplete]

variable {runner : Runner} {runnerPath : Text} {p : Path} {manifest : Manifest}
  {input : Option Bytes} {wallTimeMs : Int} {steps after : List Step} {result : Result}

theorem Finishes.ofLocal (h : runner.Finishes wallTimeMs) (moduleHash : Text) :
    Receipt.ofLocal moduleHash runner.exitCode wallTimeMs runner.now =
      .ok (runner.resultOf moduleHash wallTimeMs).receipt :=
  Receipt.ofLocal_eq_ok_iff.mpr ⟨rfl, h.minExitCode_le, h.le_maxExitCode, h.wallTimeMs_nonneg,
    h.wallTimeMs_le, h.now_nonneg, h.now_le⟩

/-- A runner that ends gives its result. -/
theorem run_execute (h : runner.Finishes wallTimeMs) :
    (runner.execute runnerPath p manifest input).run.run steps =
      (.ok (runner.resultOf manifest.moduleHash wallTimeMs),
        steps ++ stepsOf runnerPath p input) := by
  unfold execute
  rw [run_bind_of_ok (Execution.run_report _), run_bind_of_ok (Execution.run_call _), h.start]
  dsimp only
  rw [run_bind_of_ok (Execution.run_call _), h.milliseconds]
  dsimp only [Except.mapError]
  rw [run_bind_of_ok (Execution.run_lift_ok _), h.ofLocal manifest.moduleHash,
    run_bind_of_ok (Execution.run_lift_ok _), run_bind_of_ok (Execution.run_report _),
    Execution.run_pure]
  simp [resultOf, stepsOf]

/-- There is a result only of a runner that ended. -/
theorem finishes_of_run_execute
    (h : (runner.execute runnerPath p manifest input).run.run steps = (.ok result, after)) :
    ∃ wallTimeMs, runner.Finishes wallTimeMs ∧
      result = runner.resultOf manifest.moduleHash wallTimeMs := by
  unfold execute at h
  rw [run_bind_of_ok (Execution.run_report _), run_bind_of_ok (Execution.run_call _)] at h
  cases hs : runner.start with
  | error failure =>
    rw [hs] at h
    dsimp only at h
    split at h
    · rw [run_bind_of_ok (Execution.run_report _)] at h
      cases h
    · cases h
  | ok started =>
    rw [hs] at h
    dsimp only at h
    rw [run_bind_of_ok (Execution.run_call _)] at h
    obtain ⟨wallTimeMs, between, hclocks, h⟩ := run_bind_eq_ok h
    obtain ⟨receipt, between, hreceipt, h⟩ := run_bind_eq_ok h
    rw [run_bind_of_ok (Execution.run_report _)] at h
    cases h
    have hclocks := eq_ok_of_mapError (Execution.run_lift_eq_ok hclocks).1
    obtain ⟨rfl, hr⟩ := Receipt.ofLocal_eq_ok_iff.mp (Execution.run_lift_eq_ok hreceipt).1
    exact ⟨wallTimeMs, ⟨hs, hclocks, hr.minExitCode_le, hr.le_maxExitCode, hr.wallTimeMs_nonneg,
      hr.wallTimeMs_le, hr.timestamp_nonneg, hr.timestamp_le⟩, rfl⟩

end Runner

namespace Transport

variable {runnerPath : Text} {outside : Surroundings} {p : Path} {manifest : Manifest}
  {content : Option Content} {input : Option Bytes} {wallTimeMs : Int} {result : Result}
  {steps : List Step}

/-- A module run by the caller gives a result when its input can be encoded and the runner ends. -/
theorem execute_runner_of_finishes (hi : Execution.input content = .ok input)
    (h : outside.runner.Finishes wallTimeMs) :
    ((runner runnerPath).execute outside p manifest content).transcript =
      (.ok (outside.runner.resultOf manifest.moduleHash wallTimeMs),
        Runner.stepsOf runnerPath p input) := by
  unfold Execution.transcript execute
  rw [hi, run_bind_of_ok (Execution.run_lift_ok _), run_bind_of_ok (Runner.run_execute h)]
  dsimp only [Execution.bind]
  rw [if_neg (by simp [Runner.resultOf]), Execution.run_pure, List.nil_append]

/-- **A module run by the caller gives a result exactly when its input can be encoded and the runner
ends.** What the file holds plays no part in it. -/
theorem execute_runner_eq_ok_iff :
    ((runner runnerPath).execute outside p manifest content).transcript = (.ok result, steps) ↔
      ∃ input wallTimeMs, Execution.input content = .ok input ∧
        outside.runner.Finishes wallTimeMs ∧
        result = outside.runner.resultOf manifest.moduleHash wallTimeMs ∧
        steps = Runner.stepsOf runnerPath p input := by
  constructor
  · intro h
    have hrun := h
    unfold Execution.transcript execute at hrun
    obtain ⟨input, between, hi, hrun⟩ := run_bind_eq_ok hrun
    dsimp only at hrun
    obtain ⟨given, between, hgiven, -⟩ := run_bind_eq_ok hrun
    have hi := (Execution.run_lift_eq_ok hi).1
    obtain ⟨wallTimeMs, hf, -⟩ := Runner.finishes_of_run_execute hgiven
    -- what a runner that ended gives is known
    rw [execute_runner_of_finishes hi hf] at h
    cases h
    exact ⟨input, wallTimeMs, hi, hf, rfl, rfl⟩
  · rintro ⟨input, wallTimeMs, hi, hf, rfl, rfl⟩
    exact execute_runner_of_finishes hi hf

/-- A result that a module run by the caller gives holds what the runner wrote. -/
theorem stdout_of_execute_runner
    (h : ((runner runnerPath).execute outside p manifest content).transcript.1 = .ok result) :
    result.stdout = ModuleOutput.ofBytes outside.runner.stdout := by
  obtain ⟨_, _, -, -, rfl, -⟩ := execute_runner_eq_ok_iff.mp (Prod.ext h rfl)
  rfl

end Transport

end WasmReceipt
