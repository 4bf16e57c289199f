import WasmReceipt.Proofs.ContentHash
import WasmReceipt.Proofs.Execution.Local

/-! # Jobs and the modules that their receipts name

A job keeps the content hash that its file had when the job was made, whatever becomes of the file.
A runner of the caller is started on the path alone, so the receipt names the module as it was, and
that is what ran only if the file is what it was. -/

namespace WasmReceipt

/-- A receipt names the module that a path leads to: it has the content hash of what the file there
holds. -/
def Receipt.NamesModule (r : Receipt) (files : FileTree) (p : Path) : Prop :=
  ∃ content, files.HoldsFile p content ∧ r.moduleHash = ContentHash.ofBytes content

theorem Receipt.namesModule_iff {r : Receipt} {files : FileTree} {p : Path} {hashed : Bytes}
    (h : r.moduleHash = ContentHash.ofBytes hashed) :
    r.NamesModule files p ↔
      ∃ content, files.HoldsFile p content ∧ Sha256.digest content = Sha256.digest hashed := by
  simp only [NamesModule, h, ContentHash.ofBytes_inj, eq_comm]

namespace Client

variable {config : Option Config} {ready : Config} {options : Json.Members}
  {hasDiscovery hasSubmitter : Bool} {client : Client}

theorem transport_of_ofConfig (h : ofConfig ready hasDiscovery hasSubmitter = .ok client)
    (hmode : client.config.mode = .here) :
    client.transport = .runner client.config.runnerPath := by
  unfold ofConfig at h
  split at h
  · cases h
    rfl
  · rename_i hremote
    split at h
    · cases h
      rw [hremote] at hmode
      cases hmode
    · cases h

/-- A client of the local mode has a runner, the one of its configuration. -/
theorem transport_of_make (h : make config options hasDiscovery hasSubmitter = .ok client)
    (hmode : client.config.mode = .here) :
    client.transport = .runner client.config.runnerPath := by
  unfold make at h
  obtain ⟨-, -, h⟩ := bind_eq_ok h
  cases config with
  | some ready =>
    dsimp only at h
    split at h
    · exact transport_of_ofConfig h hmode
    · cases h
  | none =>
    obtain ⟨ready, -, h⟩ := bind_eq_ok h
    exact transport_of_ofConfig h hmode

end Client

theorem Manifest.exists_of_withLimits {m changed : Manifest} {changes : Json.Members}
    (h : m.withLimits changes = .ok changed) :
    ∃ limits, changed = { m with limits := limits } := by
  unfold withLimits at h
  dsimp only at h
  split at h
  · cases h
  · obtain ⟨limits, -, h⟩ := bind_eq_ok h
    cases h
    exact ⟨limits, rfl⟩

namespace Job

section History

variable {origin now files : FileTree} {p : Path} {job changed : Job}
  {changes : Json.Members}

theorem ofModuleFile_eq_ok_iff :
    ofModuleFile files p = .ok job ↔
      ∃ content, files.HoldsReadable p content ∧
        job = ⟨p, Manifest.currentVersion, ContentHash.ofBytes content, .standard⟩ := by
  constructor
  · intro h
    unfold ofModuleFile at h
    obtain ⟨manifest, hmanifest, h⟩ := bind_eq_ok h
    obtain ⟨content, hcontent, rfl⟩ := Manifest.ofModuleFile_eq_ok_iff.mp hmanifest
    cases h
    exact ⟨content, hcontent, rfl⟩
  · rintro ⟨content, hcontent, rfl⟩
    rw [ofModuleFile, Manifest.ofModuleFile_eq_ok_iff.mpr ⟨content, hcontent, rfl⟩]
    rfl

/-- Other resources leave a job with its path and the content hash of its module. -/
theorem keeps_of_withLimits (h : job.withLimits changes = .ok changed) :
    changed.path = job.path ∧ changed.manifest.moduleHash = job.manifest.moduleHash := by
  unfold withLimits at h
  obtain ⟨-, -, h⟩ := bind_eq_ok h
  obtain ⟨manifest, hmanifest, h⟩ := bind_eq_ok h
  obtain ⟨limits, rfl⟩ := Manifest.exists_of_withLimits hmanifest
  cases h
  exact ⟨rfl, rfl⟩

/-! ## What happens before a job runs -/

/-- How a job came about, and how the files are after that: it was made from a file, other resources
were asked for, and in between anything was done to the files. -/
inductive History (origin : FileTree) (p : Path) : FileTree → Job → Prop
  | made {job : Job} : ofModuleFile origin p = .ok job → History origin p origin job
  | limits {now : FileTree} {job changed : Job} {changes : Json.Members} :
      History origin p now job → job.withLimits changes = .ok changed →
      History origin p now changed
  | cpu {now : FileTree} {job changed : Job} {cores : Json} :
      History origin p now job → job.withCpu cores = .ok changed → History origin p now changed
  | memory {now : FileTree} {job changed : Job} {megabytes : Json} :
      History origin p now job → job.withMemory megabytes = .ok changed →
      History origin p now changed
  | timeout {now : FileTree} {job changed : Job} {seconds : Json} :
      History origin p now job → job.withTimeout seconds = .ok changed →
      History origin p now changed
  | files {now later : FileTree} {job : Job} :
      History origin p now job → History origin p later job

/-- **A job has the content hash of what its file held when the job was made.** -/
theorem History.exists_hashed (h : History origin p now job) :
    ∃ hashed, origin.HoldsReadable p hashed ∧ job.path = p ∧
      job.manifest.moduleHash = ContentHash.ofBytes hashed := by
  induction h with
  | made h =>
    obtain ⟨hashed, hheld, rfl⟩ := ofModuleFile_eq_ok_iff.mp h
    exact ⟨hashed, hheld, rfl, rfl⟩
  | limits _ hc ih | cpu _ hc ih | memory _ hc ih | timeout _ hc ih =>
    obtain ⟨hashed, hheld, hpath, hhash⟩ := ih
    obtain ⟨hpath', hhash'⟩ := keeps_of_withLimits hc
    exact ⟨hashed, hheld, hpath'.trans hpath, hhash'.trans hhash⟩
  | files _ ih => exact ih

/-- **With a runner of the caller, a receipt names the module as it was when the job was made**,
and the module that ran exactly when what the file holds as the runner is started on it has the same
digest. -/
theorem submit_names_module {config : Option Config} {options : Json.Members}
    {hasDiscovery hasSubmitter : Bool} {client : Client} {outside : Surroundings}
    {content : Option Content} {result : Result} {steps : List Step}
    (hclient : Client.make config options hasDiscovery hasSubmitter = .ok client)
    (hmode : client.config.mode = .here) (hhistory : History origin p outside.files job)
    (hresult : (job.submit client.transport outside content).transcript = (.ok result, steps)) :
    Step.call (.spawn (Runner.command client.config.runnerPath p)) ∈ steps ∧
      ∃ hashed, origin.HoldsReadable p hashed ∧
        result.receipt.moduleHash = ContentHash.ofBytes hashed ∧
        (result.receipt.NamesModule outside.files p ↔
          ∃ ran, outside.files.HoldsFile p ran ∧ Sha256.digest ran = Sha256.digest hashed) := by
  obtain ⟨hashed, hheld, hpath, hhash⟩ := hhistory.exists_hashed
  rw [submit, Client.transport_of_make hclient hmode, hpath] at hresult
  obtain ⟨input, wallTimeMs, -, -, rfl, rfl⟩ := Transport.execute_runner_eq_ok_iff.mp hresult
  refine ⟨by simp [Runner.stepsOf], hashed, hheld, hhash, ?_⟩
  exact Receipt.namesModule_iff hhash

end History

/-! ## A file that is restored and a file that is rewritten -/

namespace Sample

def module : Bytes := [0x00, 0x61, 0x73, 0x6D]

def modulePath : Path := ⟨[], ["module.wasm"]⟩

def tree (content : Bytes) : FileTree := ⟨[], [(["module.wasm"], .file content false)], []⟩

def runner : Runner := ⟨.ok (), [], [], 0, .zero, .zero, 1762663835⟩

def outside (content : Bytes) : Surroundings := ⟨tree content, runner, .nobody, "5f3a"⟩

def job (seconds : Int) : Job :=
  ⟨modulePath, Manifest.currentVersion, ContentHash.ofBytes module, ⟨1, 128, seconds⟩⟩

def client : Client := ⟨⟨.here, Config.defaultRunner, none⟩, .runner Config.defaultRunner⟩

theorem make_client : Client.make none [] false false = .ok client := rfl

theorem holdsReadable_tree (content : Bytes) :
    (tree content).HoldsReadable modulePath content :=
  ⟨["module.wasm"], false, rfl, rfl, rfl⟩

/-- The job is made, and the file is rewritten. -/
theorem history_rewritten (now : FileTree) : History (tree module) modulePath now (job 300) :=
  .files (.made (ofModuleFile_eq_ok_iff.mpr ⟨module, holdsReadable_tree module, rfl⟩))

/-- The job is made, the file is emptied, less time is given, and the file is written again. -/
theorem history_restored (now : FileTree) : History (tree module) modulePath now (job 30) := by
  have htimeout : (job 300).withTimeout (.int 30) = .ok (job 30) := rfl
  exact .files (.timeout (history_rewritten (tree [])) htimeout)

theorem finishes_runner : runner.Finishes 0 :=
  ⟨rfl, rfl, by decide, by decide, by decide, by decide, by decide, by decide⟩

theorem submit_job (seconds : Int) (content : Bytes) :
    ((job seconds).submit client.transport (outside content) none).transcript =
      (.ok (runner.resultOf (ContentHash.ofBytes module) 0),
        Runner.stepsOf Config.defaultRunner modulePath none) :=
  Transport.execute_runner_eq_ok_iff.mpr ⟨none, 0, rfl, finishes_runner, rfl, rfl⟩

end Sample

open Sample in
/-- A file that holds again what it held when the job was made: the receipt names what ran. -/
theorem submit_names_module_restored :
    History (tree module) modulePath (outside module).files (job 30) ∧
      ∃ result steps,
        ((job 30).submit client.transport (outside module) none).transcript =
          (.ok result, steps) ∧
        result.receipt.NamesModule (outside module).files modulePath := by
  have hhistory := history_restored (outside module).files
  refine ⟨hhistory, _, _, submit_job 30 module, ?_⟩
  obtain ⟨-, hashed, hheld, -, hnames⟩ :=
    submit_names_module make_client rfl hhistory (submit_job 30 module)
  exact hnames.mpr ⟨hashed, hheld.holdsFile, rfl⟩

open Sample in
/-- A file that holds something else when the job runs: there is a result, and its receipt does not
name what ran. -/
theorem submit_names_stale_module :
    Client.make none [] false false = .ok client ∧ client.config.mode = .here ∧
      History (tree module) modulePath (outside [0x00]).files (job 300) ∧
      ∃ result steps,
        ((job 300).submit client.transport (outside [0x00]) none).transcript =
          (.ok result, steps) ∧
        (outside [0x00]).files.HoldsFile modulePath [0x00] ∧
        result.receipt.moduleHash ≠ ContentHash.ofBytes [0x00] ∧
        ¬ result.receipt.NamesModule (outside [0x00]).files modulePath := by
  have hdigest : Sha256.digest module ≠ Sha256.digest [0x00] := by decide +kernel
  have hhash : ContentHash.ofBytes module ≠ ContentHash.ofBytes [0x00] :=
    mt ContentHash.ofBytes_inj.mp hdigest
  refine ⟨make_client, rfl, history_rewritten _, _, _, submit_job 300 [0x00],
    (holdsReadable_tree [0x00]).holdsFile, hhash, ?_⟩
  rintro ⟨ran, hran, hnamed⟩
  rw [hran.unique (holdsReadable_tree [0x00]).holdsFile] at hnamed
  exact hhash hnamed

end Job

end WasmReceipt
