import WasmReceipt.Proofs.Execution.Backing

/-! # The order of calls and the mapping of failures

Whatever the collaborators answer, they are called in one order, each at most once, and each only
after the one before has answered as it should. A failure of the network becomes a failure of the
execution, and any other failure of a collaborator passes as it is. -/

namespace WasmReceipt

namespace Collaborators

variable {co : Collaborators} {waitTimeout : Option Seconds} {tree : FileTree} {p : Path}
  {manifest : Manifest} {fresh : Text} {input given : Option Bytes} {request : JobRequest}
  {node : Node} {job : Text} {seconds : Seconds} {fetched : JobResult}
  {outcome : Except Failure Result} {steps : List Step} {failure : Failure} {calls : List Call}
  {c last : Call}

/-! ## How far the calls get -/

@[simp] theorem calls_append (s t : List Step) :
    Step.calls (s ++ t) = Step.calls s ++ Step.calls t := List.filterMap_append

@[simp] theorem calls_event (e : Event) : Step.calls [.event e] = [] := rfl

@[simp] theorem calls_stepsToFind : Step.calls (stepsToFind manifest) = [.findNode manifest] := rfl

@[simp] theorem calls_stepsToSubmit :
    Step.calls (stepsToSubmit manifest node request input) =
      [.findNode manifest, .submit node request input] := rfl

@[simp] theorem calls_stepsToWait :
    Step.calls (stepsToWait manifest node request input job seconds) =
      [.findNode manifest, .submit node request input, .wait job seconds] := rfl

@[simp] theorem calls_stepsToFetch :
    Step.calls (stepsToFetch manifest node request input job seconds) =
      [.findNode manifest, .submit node request input, .wait job seconds, .fetchResult job] := rfl

/-- How far the calls get, and what has been answered by then. -/
inductive Progress (co : Collaborators) (waitTimeout : Option Seconds) (tree : FileTree) (p : Path)
    (manifest : Manifest) (fresh : Text) (input : Option Bytes) : List Call → Prop
  | nothing : Progress co waitTimeout tree p manifest fresh input []
  | asked {request : JobRequest} : prepare tree p manifest fresh = .ok request →
      Progress co waitTimeout tree p manifest fresh input [.findNode manifest]
  | submitted {request : JobRequest} {node : Node} :
      co.Finds tree p manifest fresh request node →
      Progress co waitTimeout tree p manifest fresh input
        [.findNode manifest, .submit node request input]
  | awaited {request : JobRequest} {node : Node} {job : Text} :
      co.Takes tree p manifest fresh input request node job →
      Progress co waitTimeout tree p manifest fresh input
        [.findNode manifest, .submit node request input, .wait job (patience waitTimeout manifest)]
  | fetched {request : JobRequest} {node : Node} {job : Text} :
      co.Takes tree p manifest fresh input request node job →
      co.wait job (patience waitTimeout manifest) = .ok true →
      Progress co waitTimeout tree p manifest fresh input
        [.findNode manifest, .submit node request input, .wait job (patience waitTimeout manifest),
          .fetchResult job]

theorem Course.progress (h : co.Course waitTimeout tree p manifest fresh input outcome steps) :
    co.Progress waitTimeout tree p manifest fresh input (Step.calls steps) := by
  cases h with
  | refused _ => exact .nothing
  | undiscovered hp _ => exact .asked hp
  | nobody hp _ => exact .asked hp
  | marked hp _ _ => exact .asked hp
  | unsubmitted h _ => exact .submitted h
  | unawaited h _ => exact .awaited h
  | late h _ => exact .awaited h
  | unfetched h hw _ => exact .fetched h hw
  | unaccepted h _ => exact .fetched h.toTakes h.finished
  | accepted h _ => exact .fetched h.toTakes h.finished

/-- The calls are a beginning of one sequence. -/
theorem Progress.sequence (h : co.Progress waitTimeout tree p manifest fresh input calls) :
    ∃ node request job, calls <+: [.findNode manifest, .submit node request input,
      .wait job (patience waitTimeout manifest), .fetchResult job] := by
  cases h with
  | nothing => exact ⟨⟨[], [], [], []⟩, manifest.request [] [], [], List.nil_prefix⟩
  | asked _ => exact ⟨⟨[], [], [], []⟩, manifest.request [] [], [], _, rfl⟩
  | @submitted request node _ => exact ⟨node, request, [], _, rfl⟩
  | @awaited request node job _ => exact ⟨node, request, job, _, rfl⟩
  | @fetched request node job _ _ => exact ⟨node, request, job, List.prefix_rfl⟩

/-- Nobody is called before there is a request that may leave. -/
theorem Progress.prepared (h : co.Progress waitTimeout tree p manifest fresh input calls)
    (hc : c ∈ calls) : ∃ request, prepare tree p manifest fresh = .ok request := by
  cases h with
  | nothing => cases hc
  | asked hp => exact ⟨_, hp⟩
  | submitted h => exact ⟨_, h.prepared⟩
  | awaited h => exact ⟨_, h.prepared⟩
  | fetched h _ => exact ⟨_, h.prepared⟩

/-- A job goes to the node that was found, with the input. -/
theorem Progress.submits (h : co.Progress waitTimeout tree p manifest fresh input calls)
    (hc : Call.submit node request given ∈ calls) :
    co.Finds tree p manifest fresh request node ∧ given = input := by
  cases h with
  | nothing => cases hc
  | asked _ => simp at hc
  | submitted h =>
    obtain ⟨rfl, rfl, rfl⟩ : _ ∧ _ ∧ _ := by simpa using hc
    exact ⟨h, rfl⟩
  | awaited h =>
    obtain ⟨rfl, rfl, rfl⟩ : _ ∧ _ ∧ _ := by simpa using hc
    exact ⟨h.toFinds, rfl⟩
  | fetched h _ =>
    obtain ⟨rfl, rfl, rfl⟩ : _ ∧ _ ∧ _ := by simpa using hc
    exact ⟨h.toFinds, rfl⟩

/-- What is waited for is the job that a node took. -/
theorem Progress.awaits (h : co.Progress waitTimeout tree p manifest fresh input calls)
    (hc : Call.wait job seconds ∈ calls) :
    seconds = patience waitTimeout manifest ∧ ∃ node request,
      Call.submit node request input ∈ calls ∧ co.submit node request input = .ok job := by
  cases h with
  | nothing => cases hc
  | asked _ => simp at hc
  | submitted _ => simp at hc
  | awaited h =>
    obtain ⟨rfl, rfl⟩ : _ ∧ _ := by simpa using hc
    exact ⟨rfl, _, _, by simp, h.submitted⟩
  | fetched h _ =>
    obtain ⟨rfl, rfl⟩ : _ ∧ _ := by simpa using hc
    exact ⟨rfl, _, _, by simp, h.submitted⟩

/-- What is fetched is the result of a job that finished. -/
theorem Progress.fetches (h : co.Progress waitTimeout tree p manifest fresh input calls)
    (hc : Call.fetchResult job ∈ calls) :
    Call.wait job (patience waitTimeout manifest) ∈ calls ∧
      co.wait job (patience waitTimeout manifest) = .ok true := by
  cases h with
  | nothing => cases hc
  | asked _ => simp at hc
  | submitted _ => simp at hc
  | awaited _ => simp at hc
  | fetched h hw =>
    obtain rfl : _ = _ := by simpa using hc
    exact ⟨by simp, hw⟩

/-! ## Failures of the collaborators -/

/-- A collaborator raises a failure when it is called. -/
def Raises (co : Collaborators) (failure : Failure) : Call → Prop
  | .findNode manifest => co.findNode manifest = .error failure
  | .submit node request input => co.submit node request input = .error failure
  | .wait job seconds => co.wait job seconds = .error failure
  | .fetchResult job => co.fetchResult job = .error failure
  | .spawn _ | .communicate _ => False

def Untroubled (co : Collaborators) (calls : List Call) : Prop :=
  ∀ c ∈ calls, ∀ failure, ¬ co.Raises failure c

theorem untroubled_find {found : Option Node} (h : co.findNode manifest = .ok found) :
    co.Untroubled [.findNode manifest] := by
  simp [Untroubled, Raises, h]

theorem Takes.untroubled (h : co.Takes tree p manifest fresh input request node job) :
    co.Untroubled [.findNode manifest, .submit node request input] := by
  simp [Untroubled, Raises, h.found, h.submitted]

theorem Takes.untroubled_wait {finished : Bool}
    (h : co.Takes tree p manifest fresh input request node job)
    (hw : co.wait job seconds = .ok finished) :
    co.Untroubled [.findNode manifest, .submit node request input, .wait job seconds] := by
  simp [Untroubled, Raises, h.found, h.submitted, hw]

theorem HandsBack.untroubled
    (h : co.HandsBack waitTimeout tree p manifest fresh input request node job fetched) :
    co.Untroubled [.findNode manifest, .submit node request input,
      .wait job (patience waitTimeout manifest), .fetchResult job] := by
  simp [Untroubled, Raises, h.found, h.submitted, h.finished, h.handedBack]

/-- When all calls but the last have been answered, only the last can raise anything. -/
theorem eq_last_of_raises (hu : co.Untroubled calls) (hc : c ∈ calls ++ [last])
    (hr : co.Raises failure c) : c = last := by
  rcases List.mem_append.mp hc with hc | hc
  · exact absurd hr (hu c hc failure)
  · exact List.mem_singleton.mp hc

/-- The failure that a failure of a collaborator becomes is told by who it was. -/
inductive Blames (co : Collaborators) (manifest : Manifest) : Call → (Text → Failure) → Prop
  | discovery : Blames co manifest (.findNode manifest) .discovery
  | node {c : Call} {node : Node} : c ≠ .findNode manifest →
      co.findNode manifest = .ok (some node) → Blames co manifest c (.unreachable node.peerId)

/-- What a collaborator raises ends the execution at once. -/
theorem Course.raised (h : co.Course waitTimeout tree p manifest fresh input outcome steps)
    (hc : c ∈ Step.calls steps) (hr : co.Raises failure c) :
    (Step.calls steps).getLast? = some c ∧
      ∃ wrap, co.Blames manifest c wrap ∧ outcome = .error (blame wrap failure) := by
  cases h with
  | refused _ => cases hc
  | undiscovered _ hf =>
    obtain rfl := List.mem_singleton.mp hc
    obtain rfl := Except.error.inj (hf.symm.trans hr)
    exact ⟨rfl, _, .discovery, rfl⟩
  | nobody _ hf => exact absurd hr (untroubled_find hf c hc failure)
  | marked _ hf _ => exact absurd hr (untroubled_find hf c hc failure)
  | unsubmitted h hs =>
    obtain rfl := eq_last_of_raises (untroubled_find h.found) hc hr
    obtain rfl := Except.error.inj (hs.symm.trans hr)
    exact ⟨rfl, _, .node (by simp) h.found, rfl⟩
  | unawaited h hw =>
    obtain rfl := eq_last_of_raises h.untroubled hc hr
    obtain rfl := Except.error.inj (hw.symm.trans hr)
    exact ⟨rfl, _, .node (by simp) h.found, rfl⟩
  | late h hw => exact absurd hr (h.untroubled_wait hw c hc failure)
  | unfetched h hw hf =>
    obtain rfl := eq_last_of_raises (h.untroubled_wait hw) hc hr
    obtain rfl := Except.error.inj (hf.symm.trans hr)
    exact ⟨rfl, _, .node (by simp) h.found, rfl⟩
  | unaccepted h _ => exact absurd hr (h.untroubled c hc failure)
  | accepted h _ =>
    refine absurd hr (h.untroubled c ?_ failure)
    simpa using hc

/-! ## Failures of the execution itself -/

/-- The two failures that only the execution itself makes. -/
def ownKinds : List FailureKind := [.noEligibleNode, .jobTimeout]

theorem Refusal.kind (h : Refusal tree p manifest fresh failure) :
    failure.kind = .fileNotFound ∨ failure.kind = .format ∨
      ∃ trouble, failure = .path trouble p ∧ tree.Refuses p trouble := by
  cases h with
  | refused hrefuses => exact .inr (.inr ⟨_, rfl, hrefuses⟩)
  | noFile _ => exact .inl rfl
  | noId _ => exact .inr (.inl rfl)
  | empty _ => exact .inr (.inl rfl)
  | otherModule _ _ => exact .inr (.inl rfl)

theorem Refusal.notMem_ownKinds (h : Refusal tree p manifest fresh failure) :
    failure.kind ∉ ownKinds := by
  rcases h.kind with hk | hk | ⟨trouble, rfl, -⟩
  · simp [hk, ownKinds]
  · simp [hk, ownKinds]
  · cases trouble <;> simp [Failure.kind, ownKinds]

theorem Rejects.notMem_ownKinds (h : Rejects node job fetched failure) :
    failure.kind ∉ ownKinds := by
  cases h with
  | otherJob _ => simp [Failure.kind, ownKinds]
  | unreadable hread =>
    have hk := Receipt.kind_of_ofDocument hread
    simp only [Receipt.readingKinds, List.mem_cons, List.not_mem_nil, or_false] at hk
    rcases hk with hk | hk | hk | hk <;> simp [hk, ownKinds]
  | localReceipt _ _ => simp [Failure.kind, ownKinds]
  | otherSigner _ _ => simp [Failure.kind, ownKinds]
  | otherExitCode _ _ =>
    unfold Failure.ifWritable
    split
    · simp [Failure.kind, ownKinds]
    · simp [Failure.kind, ownKinds]

/-- A failure is told as what it is when the numbers in its message can be written. -/
theorem kind_ifWritable_iff {writable : Bool} (hv : failure.kind ≠ .value) :
    (Failure.ifWritable writable failure).kind = failure.kind ↔ writable = true := by
  cases writable with
  | true => simp [Failure.ifWritable]
  | false =>
    have hkind : Failure.longIntegerText.kind ≠ failure.kind := hv.symm
    simpa [Failure.ifWritable] using hkind

theorem kind_ifWritable_ne {writable : Bool} {kind : FailureKind} (hf : failure.kind ≠ kind)
    (hv : kind ≠ .value) : (Failure.ifWritable writable failure).kind ≠ kind := by
  cases writable with
  | true => exact hf
  | false => exact hv.symm

theorem kind_noNode_iff :
    (noNode manifest).kind = .noEligibleNode ↔
      Decimal.isWritable manifest.limits.cpuCores = true ∧
        Decimal.isWritable manifest.limits.memoryMb = true := by
  rw [← Bool.and_eq_true]
  exact kind_ifWritable_iff (by simp [Failure.kind])

theorem kind_timedOut_iff :
    (timedOut job seconds).kind = .jobTimeout ↔ seconds.isWritable = true :=
  kind_ifWritable_iff (by simp [Failure.kind])

/-- Where a failure comes from that nobody outside has raised: from a search that found no node,
from waiting too long, or from something else, which is told by another kind. -/
theorem Course.own (h : co.Course waitTimeout tree p manifest fresh input outcome steps)
    (hu : co.Untroubled (Step.calls steps))
    (ho : outcome >>= Transport.bound manifest = .error failure) :
    (failure = noNode manifest ∧ Call.findNode manifest ∈ Step.calls steps ∧
        co.findNode manifest = .ok none) ∨
      (∃ job, failure = timedOut job (patience waitTimeout manifest) ∧
        Call.wait job (patience waitTimeout manifest) ∈ Step.calls steps ∧
        co.wait job (patience waitTimeout manifest) = .ok false) ∨
      failure.kind ∉ ownKinds := by
  cases h with
  | refused hp =>
    obtain rfl := Except.error.inj ho
    exact .inr (.inr (refusal_of_prepare hp).notMem_ownKinds)
  | undiscovered _ hf => exact absurd hf (hu (.findNode manifest) (by simp) _)
  | nobody _ hf =>
    obtain rfl := Except.error.inj ho
    exact .inl ⟨rfl, by simp, hf⟩
  | marked _ _ _ =>
    obtain rfl := Except.error.inj ho
    exact .inr (.inr (by simp [Failure.kind, ownKinds]))
  | @unsubmitted request node _ _ hs =>
    exact absurd hs (hu (.submit node request input) (by simp) _)
  | @unawaited _ _ job _ _ hw =>
    exact absurd hw (hu (.wait job (patience waitTimeout manifest)) (by simp) _)
  | @late _ _ job h hw =>
    obtain rfl := Except.error.inj ho
    exact .inr (.inl ⟨job, rfl, by simp, hw⟩)
  | @unfetched _ _ job _ _ _ hf => exact absurd hf (hu (.fetchResult job) (by simp) _)
  | unaccepted _ ha =>
    obtain rfl := Except.error.inj ho
    exact .inr (.inr (rejects_of_accept ha).notMem_ownKinds)
  | @accepted _ _ _ _ result _ _ =>
    refine .inr (.inr ?_)
    have hb : Transport.bound manifest result = .error failure := ho
    unfold Transport.bound at hb
    split at hb
    · cases hb
    · obtain rfl := Except.error.inj hb
      simp [Failure.kind, ownKinds]

/-- Without a request that may leave nothing is done. -/
theorem Course.refusal (h : co.Course waitTimeout tree p manifest fresh input outcome steps)
    (hnone : ∀ request, prepare tree p manifest fresh ≠ .ok request) :
    ∃ failure, outcome = .error failure ∧ steps = [] ∧ Refusal tree p manifest fresh failure := by
  cases h with
  | refused hp => exact ⟨_, rfl, rfl, refusal_of_prepare hp⟩
  | undiscovered hp _ => exact (hnone _ hp).elim
  | nobody hp _ => exact (hnone _ hp).elim
  | marked hp _ _ => exact (hnone _ hp).elim
  | unsubmitted h _ => exact (hnone _ h.prepared).elim
  | unawaited h _ => exact (hnone _ h.prepared).elim
  | late h _ => exact (hnone _ h.prepared).elim
  | unfetched h _ _ => exact (hnone _ h.prepared).elim
  | unaccepted h _ => exact (hnone _ h.prepared).elim
  | accepted h _ => exact (hnone _ h.prepared).elim

/-- A search that finds no node ends the execution. -/
theorem Course.nobodyFound (h : co.Course waitTimeout tree p manifest fresh input outcome steps)
    (hc : Call.findNode manifest ∈ Step.calls steps) (hn : co.findNode manifest = .ok none) :
    outcome = .error (noNode manifest) ∧ co.Untroubled (Step.calls steps) := by
  have hsome {node : Node} (hf : co.findNode manifest = .ok (some node)) : False := by
    rw [hn] at hf
    cases hf
  cases h with
  | refused _ => cases hc
  | undiscovered _ hf =>
    rw [hn] at hf
    cases hf
  | nobody _ _ => exact ⟨rfl, untroubled_find hn⟩
  | marked _ hf _ => exact (hsome hf).elim
  | unsubmitted h _ => exact (hsome h.found).elim
  | unawaited h _ => exact (hsome h.found).elim
  | late h _ => exact (hsome h.found).elim
  | unfetched h _ _ => exact (hsome h.found).elim
  | unaccepted h _ => exact (hsome h.found).elim
  | accepted h _ => exact (hsome h.found).elim

/-- So does waiting for a job that does not finish in time. -/
theorem Course.tooLate (h : co.Course waitTimeout tree p manifest fresh input outcome steps)
    (hc : Call.wait job (patience waitTimeout manifest) ∈ Step.calls steps)
    (hw : co.wait job (patience waitTimeout manifest) = .ok false) :
    outcome = .error (timedOut job (patience waitTimeout manifest)) ∧
      co.Untroubled (Step.calls steps) := by
  have htrue (h : co.wait job (patience waitTimeout manifest) = .ok true) : False := by
    rw [hw] at h
    cases h
  cases h with
  | refused _ => cases hc
  | undiscovered _ _ => simp at hc
  | nobody _ _ => simp at hc
  | marked _ _ _ => simp at hc
  | unsubmitted _ _ => simp at hc
  | unawaited _ hf =>
    obtain rfl : job = _ := by simpa using hc
    rw [hw] at hf
    cases hf
  | late h _ =>
    obtain rfl : job = _ := by simpa using hc
    refine ⟨rfl, ?_⟩
    have hu := h.untroubled_wait hw
    simpa using hu
  | unfetched _ hf _ =>
    obtain rfl : job = _ := by simpa using hc
    exact (htrue hf).elim
  | unaccepted h _ =>
    obtain rfl : job = _ := by simpa using hc
    exact (htrue h.finished).elim
  | accepted h _ =>
    obtain rfl : job = _ := by simpa using hc
    exact (htrue h.finished).elim

end Collaborators

namespace Transport

open Collaborators (patience noNode timedOut)

/-- What is kept to on the outside, and what an execution on a node comes to when something goes
wrong there. -/
structure KeepsProtocol (outside : Surroundings) (waitTimeout : Option Seconds) (p : Path)
    (manifest : Manifest) (input : Option Bytes) (outcome : Except Failure Result)
    (calls : List Call) : Prop where
  /-- The calls are a beginning of one sequence. -/
  sequence : ∃ node request job, calls <+: [.findNode manifest, .submit node request input,
    .wait job (patience waitTimeout manifest), .fetchResult job]
  /-- A node is asked for only when there is the module of the manifest. -/
  asks : Call.findNode manifest ∈ calls → ∃ content, outside.files.HoldsModule p manifest content
  /-- Else nobody is called, and the failure says what is wrong with the file. -/
  refuses : (∀ content, ¬ outside.files.HoldsModule p manifest content) →
    calls = [] ∧ ∃ failure, outcome = .error failure ∧
      (failure.kind = .fileNotFound ∨ failure.kind = .format ∨
        ∃ trouble, failure = .path trouble p ∧ outside.files.Refuses p trouble)
  /-- A job goes to the node that was found, which has no marker in place of its key. -/
  submits : ∀ node request given, Call.submit node request given ∈ calls →
    outside.collaborators.findNode manifest = .ok (some node) ∧ node.key ≠ Receipt.localMarker ∧
      given = input ∧ ∃ content, outside.files.HoldsModule p manifest content ∧
        request = manifest.request outside.freshId content
  /-- What is waited for is the job that the node took. -/
  awaits : ∀ job seconds, Call.wait job seconds ∈ calls →
    seconds = patience waitTimeout manifest ∧ ∃ node request,
      Call.submit node request input ∈ calls ∧
        outside.collaborators.submit node request input = .ok job
  /-- A result is fetched only when waiting for its job came to an end in time. -/
  fetches : ∀ job, Call.fetchResult job ∈ calls →
    Call.wait job (patience waitTimeout manifest) ∈ calls ∧
      outside.collaborators.wait job (patience waitTimeout manifest) = .ok true
  /-- A search that finds no node ends the execution, -/
  nobody : Call.findNode manifest ∈ calls → outside.collaborators.findNode manifest = .ok none →
    outcome = .error (noNode manifest)
  /-- and nothing else makes it end by itself with a failure of this kind. -/
  noEligibleNode : (outside.collaborators.Untroubled calls ∧
      ∃ failure, outcome = .error failure ∧ failure.kind = .noEligibleNode) ↔
    Call.findNode manifest ∈ calls ∧ outside.collaborators.findNode manifest = .ok none ∧
      Decimal.isWritable manifest.limits.cpuCores = true ∧
      Decimal.isWritable manifest.limits.memoryMb = true
  /-- A job that does not finish in time ends the execution, -/
  late : ∀ job, Call.wait job (patience waitTimeout manifest) ∈ calls →
    outside.collaborators.wait job (patience waitTimeout manifest) = .ok false →
    outcome = .error (timedOut job (patience waitTimeout manifest))
  /-- and nothing else makes it end by itself with a failure of this kind. -/
  jobTimeout : (outside.collaborators.Untroubled calls ∧
      ∃ failure, outcome = .error failure ∧ failure.kind = .jobTimeout) ↔
    (∃ job, Call.wait job (patience waitTimeout manifest) ∈ calls ∧
      outside.collaborators.wait job (patience waitTimeout manifest) = .ok false) ∧
      (patience waitTimeout manifest).isWritable = true
  /-- What a collaborator raises ends the execution at once. -/
  stops : ∀ c ∈ calls, ∀ failure, outside.collaborators.Raises failure c →
    calls.getLast? = some c
  /-- A failure of the network becomes a failure of the execution that tells who was called. -/
  wraps : ∀ c ∈ calls, ∀ failure, outside.collaborators.Raises failure c →
    failure.kind.isA .os = true →
    ∃ blamed, outcome = .error blamed ∧ blamed.kind = .transport ∧
      ((c = .findNode manifest ∧ blamed = .discovery failure.message) ∨
        (c ≠ .findNode manifest ∧ ∃ node,
          outside.collaborators.findNode manifest = .ok (some node) ∧
            blamed = .unreachable node.peerId failure.message))
  /-- Any other failure of a collaborator passes as it is. -/
  passes : ∀ c ∈ calls, ∀ failure, outside.collaborators.Raises failure c →
    failure.kind.isA .os = false → outcome = .error failure

theorem keepsProtocol_of_course {waitTimeout : Option Seconds} {outside : Surroundings} {p : Path}
    {manifest : Manifest} {input : Option Bytes} {outcome : Except Failure Result}
    {steps : List Step}
    (h : outside.collaborators.Course waitTimeout outside.files p manifest outside.freshId input
      outcome steps) :
    KeepsProtocol outside waitTimeout p manifest input (outcome >>= bound manifest)
      (Step.calls steps) where
  sequence := h.progress.sequence
  asks hc := by
    obtain ⟨request, hp⟩ := h.progress.prepared hc
    obtain ⟨-, content, hmodule, -⟩ := Collaborators.prepare_eq_ok_iff.mp hp
    exact ⟨content, hmodule⟩
  refuses hnone := by
    have hunprepared : ∀ request,
        Collaborators.prepare outside.files p manifest outside.freshId ≠ .ok request := by
      intro request hp
      obtain ⟨-, content, hmodule, -⟩ := Collaborators.prepare_eq_ok_iff.mp hp
      exact hnone content hmodule
    obtain ⟨failure, rfl, rfl, hrefusal⟩ := h.refusal hunprepared
    exact ⟨rfl, failure, rfl, hrefusal.kind⟩
  submits node request given hc := by
    obtain ⟨hfinds, hgiven⟩ := h.progress.submits hc
    obtain ⟨-, hmodule⟩ := Collaborators.prepare_eq_ok_iff.mp hfinds.prepared
    exact ⟨hfinds.found, hfinds.key_ne, hgiven, hmodule⟩
  awaits job seconds hc := h.progress.awaits hc
  fetches job hc := h.progress.fetches hc
  nobody hc hn := by
    rw [(h.nobodyFound hc hn).1]
    rfl
  noEligibleNode := by
    constructor
    · rintro ⟨hu, failure, ho, hk⟩
      rcases h.own hu ho with ⟨rfl, hc, hn⟩ | ⟨job, rfl, hc, hw⟩ | hother
      · exact ⟨hc, hn, Collaborators.kind_noNode_iff.mp hk⟩
      · exact absurd hk (Collaborators.kind_ifWritable_ne (by simp [Failure.kind]) (by decide))
      · exact absurd (by simp [hk, Collaborators.ownKinds]) hother
    · rintro ⟨hc, hn, hwritable⟩
      obtain ⟨ho, hu⟩ := h.nobodyFound hc hn
      rw [ho]
      exact ⟨hu, _, rfl, Collaborators.kind_noNode_iff.mpr hwritable⟩
  late job hc hw := by
    rw [(h.tooLate hc hw).1]
    rfl
  jobTimeout := by
    constructor
    · rintro ⟨hu, failure, ho, hk⟩
      rcases h.own hu ho with ⟨rfl, hc, hn⟩ | ⟨job, rfl, hc, hw⟩ | hother
      · exact absurd hk (Collaborators.kind_ifWritable_ne (by simp [Failure.kind]) (by decide))
      · exact ⟨⟨job, hc, hw⟩, Collaborators.kind_timedOut_iff.mp hk⟩
      · exact absurd (by simp [hk, Collaborators.ownKinds]) hother
    · rintro ⟨⟨job, hc, hw⟩, hwritable⟩
      obtain ⟨ho, hu⟩ := h.tooLate hc hw
      rw [ho]
      exact ⟨hu, _, rfl, Collaborators.kind_timedOut_iff.mpr hwritable⟩
  stops c hc failure hr := (h.raised hc hr).1
  wraps c hc failure hr hos := by
    obtain ⟨-, wrap, hblames, ho⟩ := h.raised hc hr
    rw [ho, Collaborators.blame, if_pos hos]
    cases hblames with
    | discovery => exact ⟨_, rfl, rfl, .inl ⟨rfl, rfl⟩⟩
    | node hne hfound => exact ⟨_, rfl, rfl, .inr ⟨hne, _, hfound, rfl⟩⟩
  passes c hc failure hr hos := by
    obtain ⟨-, wrap, -, ho⟩ := h.raised hc hr
    rw [ho, Collaborators.blame, if_neg (by simp [hos])]
    rfl

/-- **Calls on the outside keep to one order, and failures there are told apart**, whatever the file
and the collaborators do. -/
theorem execute_nodes_keepsProtocol (outside : Surroundings) (waitTimeout : Option Seconds)
    (p : Path) (manifest : Manifest) (input : Option Bytes) :
    KeepsProtocol outside waitTimeout p manifest input
      ((nodes waitTimeout).execute outside p manifest (input.map .bytes)).transcript.1
      (Step.calls
        ((nodes waitTimeout).execute outside p manifest (input.map .bytes)).transcript.2) := by
  have hi : Execution.input (input.map .bytes) = .ok input := by
    cases input <;> rfl
  obtain ⟨outcome, steps, hrun, hcourse⟩ := outside.collaborators.hasCourse waitTimeout
    outside.files p manifest outside.freshId input
  rw [transcript_nodes hi hrun]
  exact keepsProtocol_of_course hcourse

/-! ## Paths and numbers that are too long -/

namespace Sample

def module : Bytes := [0x00, 0x61, 0x73, 0x6D]

def manifest (cpuCores : Int) : Manifest :=
  ⟨"0.1", ContentHash.ofBytes module, ⟨cpuCores, 128, 300⟩⟩

def path : Path := ⟨[], ["module.wasm"]⟩

/-- A path with a name of 256 bytes. -/
def longPath : Path := ⟨[], [List.replicate 256 (CodePoint.ofChar 'a')]⟩

/-- A number of 4301 digits. -/
def longNumber : Int := Nat.pow 10 Decimal.maxDigits

/-- A node that takes every job and finishes none. -/
def idle : Collaborators where
  findNode _ := .ok (some ⟨"12D3KooW", "d75a9801", [], []⟩)
  submit _ request _ := .ok request.jobId
  wait _ _ := .ok false
  fetchResult job := .ok ⟨job, [], [], 0, []⟩

def files : FileTree := ⟨[], [(["module.wasm"], .file module false)], []⟩

/-- The same directory, with the module in it closed to readers. -/
def locked : FileTree := { files with denied := [(["module.wasm"], .read)] }

def outside (tree : FileTree) (collaborators : Collaborators) : Surroundings :=
  ⟨tree, ⟨.ok (), [], [], 0, .nan, .nan, 0⟩, collaborators, "5f3a"⟩

theorem not_isWritable_longNumber : Decimal.isWritable longNumber = false :=
  Decimal.not_isWritable_pow (Nat.le_refl _)

theorem isFile_longPath : files.isFile longPath = .error (.path .nameTooLong longPath) := by
  decide +kernel

theorem prepare_longPath :
    Collaborators.prepare files longPath (manifest 1) "5f3a" =
      .error (.path .nameTooLong longPath) := by
  rw [Collaborators.prepare, JobRequest.ofModuleFile, isFile_longPath]
  rfl

theorem isUnreadable_locked : locked.IsUnreadable path :=
  ⟨["module.wasm"], module, false, rfl, rfl, rfl⟩

theorem prepare_locked :
    Collaborators.prepare locked path (manifest 1) "5f3a" = .error (.path .denied path) := by
  have hfile : locked.isFile path = .ok true := rfl
  rw [Collaborators.prepare, JobRequest.ofModuleFile, hfile]
  dsimp only [bind, Except.bind]
  rw [if_pos rfl, FileTree.read_of_isUnreadable isUnreadable_locked]

theorem prepare_path (cpuCores : Int) :
    Collaborators.prepare files path (manifest cpuCores) "5f3a" =
      .ok ((manifest cpuCores).request "5f3a" module) :=
  Collaborators.prepare_eq_ok_iff.mpr
    ⟨by decide, module, ⟨⟨["module.wasm"], false, rfl, rfl, rfl⟩, by decide, rfl⟩, rfl⟩

/-- A path that is too long leads to no module. -/
theorem not_holdsModule_longPath (content : Bytes) :
    ¬ files.HoldsModule longPath (manifest 1) content := by
  intro h
  have hfile := FileTree.isFile_of_holdsFile h.file.holdsFile
  rw [isFile_longPath] at hfile
  cases hfile

theorem noNode_longNumber : noNode (manifest longNumber) = .longIntegerText := by
  simp [noNode, Failure.ifWritable, manifest, not_isWritable_longNumber]

theorem timedOut_longNumber (job : Text) :
    timedOut job (.whole longNumber) = .longIntegerText := by
  simp [timedOut, Failure.ifWritable, Seconds.isWritable, not_isWritable_longNumber]

theorem transcript_outside {tree : FileTree} {co : Collaborators} {waitTimeout : Option Seconds}
    {p : Path} {manifest : Manifest} {outcome : Except Failure Result} {steps : List Step}
    (h : (co.execute waitTimeout tree "5f3a" p manifest none).run.run [] = (outcome, steps)) :
    ((nodes waitTimeout).execute (outside tree co) p manifest none).transcript =
      (outcome >>= bound manifest, steps) := by
  have hi : Execution.input none = .ok none := rfl
  exact transcript_nodes hi h

theorem transcript_longPath :
    ((nodes none).execute (outside files .nobody) longPath (manifest 1) none).transcript =
      (.error (.path .nameTooLong longPath), []) := by
  have hrun : (Collaborators.nobody.execute none files "5f3a" longPath (manifest 1) none).run.run
      [] = (.error (.path .nameTooLong longPath), []) := by
    rw [Collaborators.execute, prepare_longPath]
    rfl
  exact transcript_outside hrun

theorem transcript_locked :
    ((nodes none).execute (outside locked .nobody) path (manifest 1)
      none).transcript = (.error (.path .denied path), []) := by
  have hrun : (Collaborators.nobody.execute none locked "5f3a" path (manifest 1) none).run.run
      [] = (.error (.path .denied path), []) := by
    rw [Collaborators.execute, prepare_locked]
    rfl
  exact transcript_outside hrun

/-- Nobody is found for a job that asks for a number of cores that cannot be written. -/
theorem transcript_nobody :
    ((nodes none).execute (outside files .nobody) path (manifest longNumber) none).transcript =
      (.error .longIntegerText, [.call (.findNode (manifest longNumber))]) := by
  have hrun : (Collaborators.nobody.execute none files "5f3a" path (manifest longNumber)
      none).run.run [] =
        (.error .longIntegerText, [.call (.findNode (manifest longNumber))]) := by
    rw [Collaborators.run_execute_of_prepare (prepare_path longNumber), ← noNode_longNumber]
    exact run_bind_of_error Collaborators.run_discover
  exact transcript_outside hrun

/-- A job is not finished within a number of seconds that cannot be written. -/
theorem transcript_idle :
    ((nodes (some (.whole longNumber))).execute (outside files idle) path (manifest 1)
      none).transcript.1 = .error .longIntegerText := by
  have hfinds : idle.Finds files path (manifest 1) "5f3a" ((manifest 1).request "5f3a" module)
      ⟨"12D3KooW", "d75a9801", [], []⟩ :=
    ⟨prepare_path 1, rfl, by decide⟩
  obtain ⟨steps, hrun⟩ : ∃ steps, (idle.execute (some (.whole longNumber)) files "5f3a" path
      (manifest 1) none).run.run [] = (.error .longIntegerText, steps) := by
    rw [Collaborators.run_execute_of_finds hfinds, ← timedOut_longNumber "5f3a"]
    exact ⟨_, run_bind_of_error (Collaborators.run_delegate_of_late rfl rfl)⟩
  rw [transcript_outside hrun]
  rfl

end Sample

/-- A path that is too long for the system and a module that may not be read end in a failure of the
system, and a number that is too long to be written takes the place of the failure that it is told
in. -/
theorem execute_nodes_too_long :
    ((∀ content, ¬ Sample.files.HoldsModule Sample.longPath (Sample.manifest 1) content) ∧
      ((nodes none).execute (Sample.outside Sample.files .nobody) Sample.longPath
        (Sample.manifest 1) none).transcript = (.error (.path .nameTooLong Sample.longPath), []) ∧
      (Failure.path .nameTooLong Sample.longPath).kind = .os) ∧
    (Sample.locked.HoldsFile Sample.path Sample.module ∧
      ((nodes none).execute (Sample.outside Sample.locked .nobody) Sample.path
        (Sample.manifest 1) none).transcript = (.error (.path .denied Sample.path), []) ∧
      (Failure.path .denied Sample.path).kind = .permission) ∧
    (Collaborators.nobody.findNode (Sample.manifest Sample.longNumber) = .ok none ∧
      ((nodes none).execute (Sample.outside Sample.files .nobody) Sample.path
        (Sample.manifest Sample.longNumber) none).transcript =
        (.error .longIntegerText, [.call (.findNode (Sample.manifest Sample.longNumber))])) ∧
    (Sample.idle.wait "5f3a" (.whole Sample.longNumber) = .ok false ∧
      ((nodes (some (.whole Sample.longNumber))).execute (Sample.outside Sample.files Sample.idle)
        Sample.path (Sample.manifest 1) none).transcript.1 = .error .longIntegerText) ∧
    Failure.longIntegerText.kind = .value := by
  refine ⟨⟨?_, ?_, rfl⟩, ⟨?_, ?_, rfl⟩, ⟨rfl, ?_⟩, ⟨rfl, ?_⟩, rfl⟩
  · exact Sample.not_holdsModule_longPath
  · exact Sample.transcript_longPath
  · exact ⟨["module.wasm"], false, rfl, rfl⟩
  · exact Sample.transcript_locked
  · exact Sample.transcript_nobody
  · exact Sample.transcript_idle

end Transport

end WasmReceipt
