import WasmReceipt.Proofs.Execution.Job
import WasmReceipt.Proofs.Manifest.Changes

/-! # Jobs with other resources

A job is asked for other resources step by step. Its path and the content hash of its module
stay, and every resource is as the last step has it that gives it. A step with a bad value ends
the whole. -/

namespace WasmReceipt

open Manifest (Changes)

namespace Job

/-- A way to ask for other resources. -/
inductive Change where
  | limits (changes : Changes)
  | cpu (cores : Json)
  | memory (megabytes : Json)
  | timeout (seconds : Json)

namespace Change

def given : Change → Changes
  | limits changes => changes
  | cpu cores => .single "cpu_cores" cores (by decide)
  | memory megabytes => .single "memory_mb" megabytes (by decide)
  | timeout seconds => .single "timeout_seconds" seconds (by decide)

def apply (job : Job) : Change → Except Failure Job
  | limits changes => job.withLimits changes.members
  | cpu cores => job.withCpu cores
  | memory megabytes => job.withMemory megabytes
  | timeout seconds => job.withTimeout seconds

/-- The value that a name is given last, if any of the steps gives it one. -/
def last? (steps : List Change) (name : Text) : Option Json :=
  steps.reverse.findSome? fun c => c.given.get? name

theorem last?_cons (c : Change) (steps : List Change) :
    last? (c :: steps) = fun name => (last? steps name).or (c.given.get? name) := by
  funext name
  rw [last?, List.reverse_cons, List.findSome?_append, List.findSome?_singleton]
  rfl

end Change

variable {job final : Job} {steps : List Change} {failure : Failure}

theorem withLimits_eq (job : Job) (a : Changes) :
    job.withLimits a.members =
      job.manifest.withLimits a.members >>= fun manifest => .ok ⟨job.path, manifest⟩ := by
  have hfree : a.members.find? (fun m => [Manifest.reservedName].contains m.1) = none := by
    rw [List.find?_eq_none]
    intro m hm hname
    have hm : m.1 = Manifest.reservedName := by simpa using hname
    exact a.unreserved (hm ▸ List.mem_map_of_mem ‹_›)
  rw [withLimits, Config.refuse, hfree]
  rfl

theorem apply_eq (c : Change) (job : Job) : c.apply job = job.withLimits c.given.members := by
  cases c <;> rfl

def change : List Change → Job → Except Failure Job
  | [], job => .ok job
  | c :: steps, job => c.apply job >>= change steps

/-- What one step does to a job with a sound manifest. -/
theorem apply_eq_ok_iff (hjob : job.manifest.IsSound) {c : Change} :
    c.apply job = .ok final ↔
      c.given.Accepted ∧ final.path = job.path ∧
        job.manifest.ChangedBy c.given.get? final.manifest := by
  rw [apply_eq, withLimits_eq]
  constructor
  · intro h
    obtain ⟨manifest, hmanifest, h⟩ := bind_eq_ok h
    cases h
    obtain ⟨haccepted, hchanged⟩ := (Manifest.withLimits_eq_ok_iff hjob).mp hmanifest
    exact ⟨haccepted, rfl, hchanged⟩
  · rintro ⟨haccepted, hpath, hchanged⟩
    rw [(Manifest.withLimits_eq_ok_iff hjob).mpr ⟨haccepted, hchanged⟩, ← hpath]
    rfl

/-- **What all steps do to a job with a sound manifest**: they are made if each of them is accepted,
and then every resource is as it was given last. -/
theorem change_eq_ok_iff (hjob : job.manifest.IsSound) :
    change steps job = .ok final ↔
      (∀ c ∈ steps, c.given.Accepted) ∧ final.path = job.path ∧
        job.manifest.ChangedBy (Change.last? steps) final.manifest := by
  induction steps generalizing job with
  | nil =>
    have hnone : job.manifest.ChangedBy (Change.last? []) job.manifest :=
      ⟨rfl, rfl, fun _ _ => rfl⟩
    constructor
    · rintro ⟨⟩
      exact ⟨List.forall_mem_nil _, rfl, hnone⟩
    · rintro ⟨-, hpath, hchanged⟩
      cases job
      cases final
      cases hpath
      cases hnone.unique hchanged
      rfl
  | cons c steps ih =>
    rw [change, List.forall_mem_cons, Change.last?_cons]
    constructor
    · intro h
      obtain ⟨next, hnext, h⟩ := bind_eq_ok h
      obtain ⟨hc, hpath, hchanged⟩ := (apply_eq_ok_iff hjob).mp hnext
      obtain ⟨hsteps, hpath', hchanged'⟩ := (ih (hchanged.isSound hjob hc.givesAmounts)).mp h
      exact ⟨⟨hc, hsteps⟩, hpath'.trans hpath, hchanged.trans_iff.mp hchanged'⟩
    · rintro ⟨⟨hc, hsteps⟩, hpath, hchanged'⟩
      obtain ⟨next, hchanged⟩ := Manifest.exists_changedBy hjob hc.givesAmounts
      have hnext : c.apply job = .ok ⟨job.path, next⟩ :=
        (apply_eq_ok_iff hjob).mpr ⟨hc, rfl, hchanged⟩
      have hsound := hchanged.isSound hjob hc.givesAmounts
      rw [hnext]
      exact (ih hsound).mpr ⟨hsteps, hpath, hchanged.trans_iff.mpr hchanged'⟩

theorem Change.givesAmounts_last? (h : ∀ c ∈ steps, c.given.Accepted) :
    Manifest.GivesAmounts (last? steps) := by
  intro name v hlast
  obtain ⟨c, hc, hget⟩ := List.exists_of_findSome?_eq_some hlast
  exact (h c (List.mem_reverse.mp hc)).givesAmounts name v hget

theorem exists_change_iff (hjob : job.manifest.IsSound) :
    (∃ final, change steps job = .ok final) ↔ ∀ c ∈ steps, c.given.Accepted := by
  simp only [change_eq_ok_iff hjob]
  constructor
  · rintro ⟨final, hsteps, -⟩
    exact hsteps
  · intro hsteps
    obtain ⟨manifest, hchanged⟩ := Manifest.exists_changedBy hjob (Change.givesAmounts_last? hsteps)
    exact ⟨⟨job.path, manifest⟩, hsteps, rfl, hchanged⟩

/-- Steps that are refused are at fault in their form. -/
theorem kind_of_change (h : change steps job = .error failure) : failure.kind = .format := by
  induction steps generalizing job with
  | nil => cases h
  | cons c steps ih =>
    rcases bind_eq_error h with h | ⟨next, -, h⟩
    · rw [apply_eq, withLimits_eq] at h
      rcases bind_eq_error h with h | ⟨manifest, -, h⟩
      · exact Manifest.kind_of_withLimits h
      · cases h
    · exact ih h

/-- A step that is refused ends the whole, whatever follows it. -/
theorem change_of_not_accepted (hjob : job.manifest.IsSound) {c : Change} (hc : c ∈ steps)
    (h : ¬ c.given.Accepted) :
    ∃ failure, change steps job = .error failure ∧ failure.kind = .format := by
  cases hchange : change steps job with
  | ok final => exact absurd ((exists_change_iff hjob).mp ⟨final, hchange⟩ c hc) h
  | error failure => exact ⟨failure, rfl, kind_of_change hchange⟩

theorem moduleHash_of_ofModuleFile {tree : FileTree} {p : Path}
    (h : ofModuleFile tree p = .ok job) :
    ∃ content, tree.HoldsReadable p content ∧
      job.manifest.moduleHash = ContentHash.ofBytes content := by
  obtain ⟨content, hcontent, rfl⟩ := ofModuleFile_eq_ok_iff.mp h
  exact ⟨content, hcontent, rfl⟩

end Job

/-- **The algebra of changes.** Changes of a sound manifest are taken exactly if each of them gives
a resource, an integer from one on; otherwise they are at fault in their form. Changes in a row are
changes at once, and changes of different resources commute. So whatever way a job is asked for
resources, each is as it was given last, or else as it was at first, and one step with a bad value
ends it all. -/
theorem change_resources (m : Manifest) (hm : m.IsSound) :
    (∀ a : Changes,
      ((∃ changed, m.withLimits a.members = .ok changed) ↔ a.Accepted) ∧
      (¬ a.Accepted →
        ∃ failure, m.withLimits a.members = .error failure ∧ failure.kind = .format) ∧
      ∀ changed, m.withLimits a.members = .ok changed →
        m.ChangedBy a.get? changed ∧ changed.IsSound) ∧
    (∀ a b : Changes, a.Accepted → b.Accepted →
      (m.withLimits a.members >>= fun changed => changed.withLimits b.members) =
        m.withLimits (a.merge b).members ∧
      (a.Disjoint b →
        (m.withLimits a.members >>= fun changed => changed.withLimits b.members) =
          m.withLimits b.members >>= fun changed => changed.withLimits a.members)) ∧
    ∀ (p : Path) (steps : List Job.Change),
      ((∃ final, Job.change steps ⟨p, m⟩ = .ok final) ↔ ∀ c ∈ steps, c.given.Accepted) ∧
      ((∃ c ∈ steps, ¬ c.given.Accepted) →
        ∃ failure, Job.change steps ⟨p, m⟩ = .error failure ∧ failure.kind = .format) ∧
      ∀ final, Job.change steps ⟨p, m⟩ = .ok final →
        final.path = p ∧ m.ChangedBy (Job.Change.last? steps) final.manifest ∧
          final.manifest.IsSound ∧
          ∀ tree, Job.ofModuleFile tree p = .ok ⟨p, m⟩ → ∃ content, tree.HoldsReadable p content ∧
            final.manifest.moduleHash = ContentHash.ofBytes content := by
  refine ⟨fun a => ⟨Manifest.exists_withLimits_iff hm, Manifest.withLimits_of_not_accepted hm, ?_⟩,
    fun a b ha hb => ⟨Manifest.withLimits_withLimits hm ha hb, Manifest.withLimits_comm hm ha hb⟩,
    fun p steps => ⟨Job.exists_change_iff hm, ?_, ?_⟩⟩
  · intro changed h
    obtain ⟨ha, hchanged⟩ := (Manifest.withLimits_eq_ok_iff hm).mp h
    exact ⟨hchanged, hchanged.isSound hm ha.givesAmounts⟩
  · rintro ⟨c, hc, hrefused⟩
    exact Job.change_of_not_accepted hm hc hrefused
  · intro final h
    obtain ⟨hsteps, hpath, hchanged⟩ := (Job.change_eq_ok_iff hm).mp h
    refine ⟨hpath, hchanged, hchanged.isSound hm (Job.Change.givesAmounts_last? hsteps), ?_⟩
    intro tree hmade
    obtain ⟨content, hcontent, hhash⟩ := Job.moduleHash_of_ofModuleFile hmade
    exact ⟨content, hcontent, hchanged.moduleHash.trans hhash⟩

namespace Job.Sample

def steps : List Change := [.cpu (.int 2), .timeout (.int 1000), .cpu (.int 1)]

end Job.Sample

open Job.Sample in
/-- A job that is asked for other resources three times, and one that is asked for no cores and then
for one. -/
theorem change_resources_twice_cpu :
    (job 300).manifest.IsSound ∧
      Job.change steps (job 300) = .ok (job 1000) ∧
      (job 300).manifest.ChangedBy (Job.Change.last? steps) (job 1000).manifest ∧
      ∃ failure, Job.change [.cpu (.int 0), .cpu (.int 1)] (job 300) = .error failure ∧
        failure.kind = .format := by
  have hsound : (job 300).manifest.IsSound :=
    Manifest.isSound_of_ofBytes ⟨by decide, by decide, by decide⟩
  have hchange : Job.change steps (job 300) = .ok (job 1000) := rfl
  obtain ⟨-, -, hsteps⟩ := change_resources _ hsound
  obtain ⟨-, hrefused, -⟩ := hsteps modulePath [.cpu (.int 0), .cpu (.int 1)]
  obtain ⟨-, -, hfinal⟩ := hsteps modulePath steps
  refine ⟨hsound, hchange, (hfinal _ hchange).2.1, hrefused ⟨.cpu (.int 0), by simp, ?_⟩⟩
  intro haccepted
  obtain ⟨-, n, hn, hle⟩ := haccepted _ List.mem_cons_self
  cases hn
  omega

end WasmReceipt
