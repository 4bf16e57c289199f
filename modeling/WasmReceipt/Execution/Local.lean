import WasmReceipt.Execution
import WasmReceipt.ModuleOutput

/-! # Executions by the caller

A module is run by starting a runner on it. The receipt carries the marker of local executions:
it means something only to whoever started the runner. -/

namespace WasmReceipt

/-- What happens when a runner is started: it fails to start, or it ends with an exit code and has
written to its two streams. Around it a monotonic clock is read twice, and afterwards the wall
clock in whole seconds. -/
structure Runner where
  start : Except Failure Unit
  stdout : Bytes
  stderr : Bytes
  exitCode : Int
  before : Binary64
  after : Binary64
  now : Int

namespace Runner

def command (runnerPath : Text) (p : Path) : List Text := [runnerPath, "run", "--quiet", p.text]

/-- The time between two readings of a clock in seconds, in whole milliseconds. -/
def milliseconds (before after : Binary64) : Except Binary64.NotFinite Int :=
  ((after.sub before).scale 1000).truncate

def execute (runner : Runner) (runnerPath : Text) (p : Path) (manifest : Manifest)
    (input : Option Bytes) : Execution Result := do
  Execution.report .spawning
  Execution.call (.spawn (command runnerPath p))
  match runner.start with
  | .error failure =>
    if failure.kind.isA .os then
      Execution.report .spawnFailed
      throw (.spawn failure.message)
    else throw failure
  | .ok () =>
    Execution.call (.communicate input)
    let wallTimeMs ← (milliseconds runner.before runner.after).mapError Failure.notFinite
    let receipt ← Receipt.ofLocal manifest.moduleHash runner.exitCode wallTimeMs runner.now
    Execution.report .localComplete
    return ⟨ModuleOutput.ofBytes runner.stdout, Utf8.decodeReplacing runner.stderr, receipt⟩

end Runner

end WasmReceipt
