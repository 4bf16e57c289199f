import WasmReceipt.Config
import WasmReceipt.Execution.Local
import WasmReceipt.Execution.Remote

/-! # Clients and jobs

A client decides once, from its configuration, where its jobs run. A job is a module file with its
manifest; a change of resources gives another job and leaves the first as it was. -/

namespace WasmReceipt

/-- How a client runs modules: with a runner of the caller, or on worker nodes, with a bound on the
waiting if there is to be one other than that of the manifest. -/
inductive Transport where
  | runner (path : Text)
  | nodes (waitTimeout : Option Seconds)
deriving DecidableEq

/-- What lies outside of a client: files, a runner, collaborators on the network, and an identifier
that no job has yet. -/
structure Surroundings where
  files : FileTree
  runner : Runner
  collaborators : Collaborators
  freshId : Text

/-- Runs a module that a manifest describes. The receipt of the result is bound to the content hash
of the manifest, whichever way the module was run. -/
def Transport.execute (transport : Transport) (outside : Surroundings) (p : Path)
    (manifest : Manifest) (content : Option Content) : Execution Result := do
  let input ← Execution.input content
  let result ← match transport with
    | .runner path => outside.runner.execute path p manifest input
    | .nodes waitTimeout =>
      outside.collaborators.execute waitTimeout outside.files outside.freshId p manifest input
  Execution.bind manifest result

/-- A client: its configuration and what it made of it. -/
structure Client where
  config : Config
  transport : Transport
deriving DecidableEq

/-- A module file and its manifest. -/
structure Job where
  path : Path
  manifest : Manifest
deriving DecidableEq

namespace Client

/-- The client of a configuration. Worker nodes are out of reach unless there is somebody to find
them and somebody to send jobs to them. -/
def ofConfig (config : Config) (hasDiscovery hasSubmitter : Bool) : Except Failure Client :=
  match config.mode with
  | .here => .ok ⟨config, .runner config.runnerPath⟩
  | .remote =>
    if hasDiscovery && hasSubmitter then .ok ⟨config, .nodes (config.waitTimeout.map .whole)⟩
    else .error .noCollaborators

/-- The names that no option may have. -/
def reservedNames : List Text := ["self", "config", "discovery", "submitter"]

/-- The client of a ready configuration or of options, but not of both. -/
def make (config : Option Config) (options : Json.Members) (hasDiscovery hasSubmitter : Bool) :
    Except Failure Client := do
  Config.refuse "Client.__init__" reservedNames options
  match config with
  | some config =>
    if options.isEmpty then ofConfig config hasDiscovery hasSubmitter
    else .error .configAndOptions
  | none => ofConfig (← Config.ofOptions options) hasDiscovery hasSubmitter

end Client

namespace Job

/-- The job of a module file, which asks for the standard resources. -/
def ofModuleFile (tree : FileTree) (p : Path) : Except Failure Job := do
  return ⟨p, ← Manifest.ofModuleFile tree p .standard⟩

def withLimits (job : Job) (changes : Json.Members) : Except Failure Job := do
  Config.refuse "Job.with_limits" [Manifest.reservedName] changes
  return ⟨job.path, ← job.manifest.withLimits changes⟩

def withCpu (job : Job) (cores : Json) : Except Failure Job :=
  job.withLimits [("cpu_cores", cores)]

def withMemory (job : Job) (megabytes : Json) : Except Failure Job :=
  job.withLimits [("memory_mb", megabytes)]

def withTimeout (job : Job) (seconds : Json) : Except Failure Job :=
  job.withLimits [("timeout_seconds", seconds)]

/-- Runs a job. There is nothing to wait for afterwards. -/
def submit (job : Job) (transport : Transport) (outside : Surroundings)
    (content : Option Content) : Execution Result :=
  transport.execute outside job.path job.manifest content

end Job

end WasmReceipt
