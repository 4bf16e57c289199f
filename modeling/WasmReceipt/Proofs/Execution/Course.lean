import WasmReceipt.Client
import WasmReceipt.Proofs.Execution.Request
import WasmReceipt.Proofs.Execution.Run

/-! # The courses of an execution on a node

An execution on a node takes one of ten courses: it ends where the first thing goes wrong, or it
comes to its end. `Course` lists them with their outcomes and their steps, and what holds of every
execution on a node is shown by going through this list. -/

namespace WasmReceipt

namespace Collaborators

variable {co : Collaborators} {waitTimeout : Option Seconds} {tree : FileTree} {p : Path}
  {manifest : Manifest} {fresh : Text} {input : Option Bytes} {steps : List Step}

/-- How long a job is waited for: the bound of the transport, or else that of the manifest. -/
def patience (waitTimeout : Option Seconds) (manifest : Manifest) : Seconds :=
  waitTimeout.getD (.whole manifest.limits.timeoutSeconds)

/-! ## How far an execution gets -/

/-- A node is found for a request that may leave. -/
structure Finds (co : Collaborators) (tree : FileTree) (p : Path) (manifest : Manifest)
    (fresh : Text) (request : JobRequest) (node : Node) : Prop where
  prepared : prepare tree p manifest fresh = .ok request
  found : co.findNode manifest = .ok (some node)
  key_ne : node.key ≠ Receipt.localMarker

/-- The node takes the request as a job. -/
structure Takes (co : Collaborators) (tree : FileTree) (p : Path) (manifest : Manifest)
    (fresh : Text) (input : Option Bytes) (request : JobRequest) (node : Node) (job : Text) : Prop
    extends co.Finds tree p manifest fresh request node where
  submitted : co.submit node request input = .ok job

/-- The job finishes in time, and its result is handed back. -/
structure HandsBack (co : Collaborators) (waitTimeout : Option Seconds) (tree : FileTree) (p : Path)
    (manifest : Manifest) (fresh : Text) (input : Option Bytes) (request : JobRequest) (node : Node)
    (job : Text) (fetched : JobResult) : Prop
    extends co.Takes tree p manifest fresh input request node job where
  finished : co.wait job (patience waitTimeout manifest) = .ok true
  handedBack : co.fetchResult job = .ok fetched

/-! ## The steps so far -/

def stepsToFind (manifest : Manifest) : List Step := [.call (.findNode manifest)]

def stepsToSubmit (manifest : Manifest) (node : Node) (request : JobRequest)
    (input : Option Bytes) : List Step :=
  stepsToFind manifest ++ [.event .submitting, .call (.submit node request input)]

def stepsToWait (manifest : Manifest) (node : Node) (request : JobRequest) (input : Option Bytes)
    (job : Text) (seconds : Seconds) : List Step :=
  stepsToSubmit manifest node request input ++ [.call (.wait job seconds)]

def stepsToFetch (manifest : Manifest) (node : Node) (request : JobRequest) (input : Option Bytes)
    (job : Text) (seconds : Seconds) : List Step :=
  stepsToWait manifest node request input job seconds ++ [.call (.fetchResult job)]

/-! ## Courses -/

/-- The courses of an execution, with their outcomes and their steps. -/
inductive Course (co : Collaborators) (waitTimeout : Option Seconds) (tree : FileTree) (p : Path)
    (manifest : Manifest) (fresh : Text) (input : Option Bytes) :
    Except Failure Result → List Step → Prop
  | refused {failure : Failure} : prepare tree p manifest fresh = .error failure →
      Course co waitTimeout tree p manifest fresh input (.error failure) []
  | undiscovered {request : JobRequest} {failure : Failure} :
      prepare tree p manifest fresh = .ok request → co.findNode manifest = .error failure →
      Course co waitTimeout tree p manifest fresh input (.error (blame .discovery failure))
        (stepsToFind manifest)
  | nobody {request : JobRequest} :
      prepare tree p manifest fresh = .ok request → co.findNode manifest = .ok none →
      Course co waitTimeout tree p manifest fresh input (.error (noNode manifest))
        (stepsToFind manifest)
  | marked {request : JobRequest} {node : Node} :
      prepare tree p manifest fresh = .ok request → co.findNode manifest = .ok (some node) →
      node.key = Receipt.localMarker →
      Course co waitTimeout tree p manifest fresh input (.error (.nodeHasMarker node.peerId))
        (stepsToFind manifest)
  | unsubmitted {request : JobRequest} {node : Node} {failure : Failure} :
      co.Finds tree p manifest fresh request node → co.submit node request input = .error failure →
      Course co waitTimeout tree p manifest fresh input
        (.error (blame (.unreachable node.peerId) failure))
        (stepsToSubmit manifest node request input)
  | unawaited {request : JobRequest} {node : Node} {job : Text} {failure : Failure} :
      co.Takes tree p manifest fresh input request node job →
      co.wait job (patience waitTimeout manifest) = .error failure →
      Course co waitTimeout tree p manifest fresh input
        (.error (blame (.unreachable node.peerId) failure))
        (stepsToWait manifest node request input job (patience waitTimeout manifest))
  | late {request : JobRequest} {node : Node} {job : Text} :
      co.Takes tree p manifest fresh input request node job →
      co.wait job (patience waitTimeout manifest) = .ok false →
      Course co waitTimeout tree p manifest fresh input
        (.error (timedOut job (patience waitTimeout manifest)))
        (stepsToWait manifest node request input job (patience waitTimeout manifest) ++
          [.event .waitTimedOut])
  | unfetched {request : JobRequest} {node : Node} {job : Text} {failure : Failure} :
      co.Takes tree p manifest fresh input request node job →
      co.wait job (patience waitTimeout manifest) = .ok true →
      co.fetchResult job = .error failure →
      Course co waitTimeout tree p manifest fresh input
        (.error (blame (.unreachable node.peerId) failure))
        (stepsToFetch manifest node request input job (patience waitTimeout manifest))
  | unaccepted {request : JobRequest} {node : Node} {job : Text} {fetched : JobResult}
      {failure : Failure} :
      co.HandsBack waitTimeout tree p manifest fresh input request node job fetched →
      accept node job fetched = .error failure →
      Course co waitTimeout tree p manifest fresh input (.error failure)
        (stepsToFetch manifest node request input job (patience waitTimeout manifest))
  | accepted {request : JobRequest} {node : Node} {job : Text} {fetched : JobResult}
      {result : Result} :
      co.HandsBack waitTimeout tree p manifest fresh input request node job fetched →
      accept node job fetched = .ok result →
      Course co waitTimeout tree p manifest fresh input (.ok result)
        (stepsToFetch manifest node request input job (patience waitTimeout manifest) ++
          [.event .remoteComplete])

/-! ## Runs -/

theorem run_consult {α : Type} (call : Call) (wrap : Text → Failure) (answer : Except Failure α) :
    (consult call wrap answer).run.run steps =
      (answer.mapError (blame wrap), steps ++ [.call call]) := by
  cases answer <;> rfl

/-- What comes of asking for a node. -/
theorem run_discover :
    (co.discover manifest).run.run [] =
      ((co.findNode manifest).mapError (blame .discovery) >>= eligible manifest,
        stepsToFind manifest) := by
  rw [discover]
  cases h : co.findNode manifest with
  | error failure => exact run_bind_of_error (run_consult _ _ _)
  | ok found =>
    refine (run_bind_of_ok (run_consult _ _ _)).trans ?_
    dsimp only [Except.mapError, bind, Except.bind]
    cases eligible manifest found <;> rfl

variable {node : Node} {request : JobRequest} {job : Text} {seconds : Seconds} {failure : Failure}
  {fetched : JobResult}

theorem run_delegate_of_submit_error (h : co.submit node request input = .error failure) :
    (co.delegate node request input seconds).run.run (stepsToFind manifest) =
      (.error (blame (.unreachable node.peerId) failure),
        stepsToSubmit manifest node request input) := by
  rw [delegate, run_bind_of_ok (Execution.run_report _), h]
  exact run_bind_of_error (run_consult _ _ _)

/-- What comes of a job once a node has taken it. -/
theorem run_delegate_of_submit (h : co.submit node request input = .ok job) :
    (co.delegate node request input seconds).run.run (stepsToFind manifest) =
      (do
        let finished ← consult (.wait job seconds) (.unreachable node.peerId) (co.wait job seconds)
        if !finished then
          Execution.report .waitTimedOut
          throw (timedOut job seconds)
        let result ← consult (.fetchResult job) (.unreachable node.peerId) (co.fetchResult job)
        return (job, result) : Execution (Text × JobResult)).run.run
          (stepsToSubmit manifest node request input) := by
  rw [delegate, run_bind_of_ok (Execution.run_report _), h]
  exact run_bind_of_ok (run_consult _ _ _)

theorem run_delegate_of_wait_error (hs : co.submit node request input = .ok job)
    (hw : co.wait job seconds = .error failure) :
    (co.delegate node request input seconds).run.run (stepsToFind manifest) =
      (.error (blame (.unreachable node.peerId) failure),
        stepsToWait manifest node request input job seconds) := by
  rw [run_delegate_of_submit hs, hw]
  exact run_bind_of_error (run_consult _ _ _)

theorem run_delegate_of_late (hs : co.submit node request input = .ok job)
    (hw : co.wait job seconds = .ok false) :
    (co.delegate node request input seconds).run.run (stepsToFind manifest) =
      (.error (timedOut job seconds),
        stepsToWait manifest node request input job seconds ++ [.event .waitTimedOut]) := by
  rw [run_delegate_of_submit hs, hw, run_bind_of_ok (run_consult _ _ _)]
  rfl

/-- A job that finishes in time ends with what its result is fetched as. -/
theorem run_delegate_of_wait (hs : co.submit node request input = .ok job)
    (hw : co.wait job seconds = .ok true) :
    (co.delegate node request input seconds).run.run (stepsToFind manifest) =
      ((co.fetchResult job).mapError (blame (.unreachable node.peerId)) >>= fun result =>
          .ok (job, result),
        stepsToFetch manifest node request input job seconds) := by
  rw [run_delegate_of_submit hs, hw, run_bind_of_ok (run_consult _ _ _)]
  cases co.fetchResult job <;> rfl

/-! ## Every execution takes a course -/

theorem run_execute_of_prepare (h : prepare tree p manifest fresh = .ok request) :
    (co.execute waitTimeout tree fresh p manifest input).run.run [] =
      (do
        let node ← co.discover manifest
        let (job, result) ← co.delegate node request input (patience waitTimeout manifest)
        let accepted ← accept node job result
        Execution.report .remoteComplete
        return accepted : Execution Result).run.run [] := by
  rw [execute, h]
  rfl

/-- What comes of a request for which a node is found. -/
theorem run_execute_of_finds (h : co.Finds tree p manifest fresh request node) :
    (co.execute waitTimeout tree fresh p manifest input).run.run [] =
      (do
        let (job, result) ← co.delegate node request input (patience waitTimeout manifest)
        let accepted ← accept node job result
        Execution.report .remoteComplete
        return accepted : Execution Result).run.run (stepsToFind manifest) := by
  have hdiscover : (co.discover manifest).run.run [] = (.ok node, stepsToFind manifest) := by
    rw [run_discover, h.found]
    exact congrArg (·, stepsToFind manifest) (if_neg h.key_ne)
  rw [run_execute_of_prepare h.prepared, run_bind_of_ok hdiscover]

def HasCourse (co : Collaborators) (waitTimeout : Option Seconds) (tree : FileTree) (p : Path)
    (manifest : Manifest) (fresh : Text) (input : Option Bytes) : Prop :=
  ∃ outcome steps,
    (co.execute waitTimeout tree fresh p manifest input).run.run [] = (outcome, steps) ∧
      co.Course waitTimeout tree p manifest fresh input outcome steps

theorem run_delegate_of_handsBack
    (h : co.HandsBack waitTimeout tree p manifest fresh input request node job fetched) :
    (co.delegate node request input (patience waitTimeout manifest)).run.run
        (stepsToFind manifest) =
      (.ok (job, fetched),
        stepsToFetch manifest node request input job (patience waitTimeout manifest)) := by
  rw [run_delegate_of_wait h.submitted h.finished, h.handedBack]
  rfl

theorem run_execute_of_accept {result : Result}
    (h : co.HandsBack waitTimeout tree p manifest fresh input request node job fetched)
    (ha : accept node job fetched = .ok result) :
    (co.execute waitTimeout tree fresh p manifest input).run.run [] =
      (.ok result, stepsToFetch manifest node request input job (patience waitTimeout manifest) ++
        [.event .remoteComplete]) := by
  rw [run_execute_of_finds h.toFinds, run_bind_of_ok (run_delegate_of_handsBack h)]
  dsimp only
  rw [ha]
  rfl

theorem hasCourse_of_handsBack
    (h : co.HandsBack waitTimeout tree p manifest fresh input request node job fetched) :
    co.HasCourse waitTimeout tree p manifest fresh input := by
  cases ha : accept node job fetched with
  | error failure =>
    refine ⟨_, _, ?_, .unaccepted h ha⟩
    rw [run_execute_of_finds h.toFinds, run_bind_of_ok (run_delegate_of_handsBack h)]
    dsimp only
    rw [ha]
    rfl
  | ok result => exact ⟨_, _, run_execute_of_accept h ha, .accepted h ha⟩

theorem hasCourse_of_takes (h : co.Takes tree p manifest fresh input request node job) :
    co.HasCourse waitTimeout tree p manifest fresh input := by
  cases hw : co.wait job (patience waitTimeout manifest) with
  | error failure =>
    refine ⟨_, _, ?_, .unawaited h hw⟩
    rw [run_execute_of_finds h.toFinds]
    exact run_bind_of_error (run_delegate_of_wait_error h.submitted hw)
  | ok finished =>
    cases finished with
    | false =>
      refine ⟨_, _, ?_, .late h hw⟩
      rw [run_execute_of_finds h.toFinds]
      exact run_bind_of_error (run_delegate_of_late h.submitted hw)
    | true =>
      cases hr : co.fetchResult job with
      | error failure =>
        refine ⟨_, _, ?_, .unfetched h hw hr⟩
        rw [run_execute_of_finds h.toFinds]
        refine run_bind_of_error ?_
        rw [run_delegate_of_wait h.submitted hw, hr]
        rfl
      | ok fetched => exact hasCourse_of_handsBack ⟨h, hw, hr⟩

theorem hasCourse_of_finds (h : co.Finds tree p manifest fresh request node) :
    co.HasCourse waitTimeout tree p manifest fresh input := by
  cases hs : co.submit node request input with
  | error failure =>
    refine ⟨_, _, ?_, .unsubmitted h hs⟩
    rw [run_execute_of_finds h]
    exact run_bind_of_error (run_delegate_of_submit_error hs)
  | ok job => exact hasCourse_of_takes ⟨h, hs⟩

theorem hasCourse_of_prepare (h : prepare tree p manifest fresh = .ok request) :
    co.HasCourse waitTimeout tree p manifest fresh input := by
  cases hf : co.findNode manifest with
  | error failure =>
    refine ⟨_, _, ?_, .undiscovered h hf⟩
    rw [run_execute_of_prepare h]
    refine run_bind_of_error ?_
    rw [run_discover, hf]
    rfl
  | ok found =>
    cases found with
    | none =>
      refine ⟨_, _, ?_, .nobody h hf⟩
      rw [run_execute_of_prepare h]
      refine run_bind_of_error ?_
      rw [run_discover, hf]
      rfl
    | some node =>
      by_cases hk : node.key = Receipt.localMarker
      · refine ⟨_, _, ?_, .marked h hf hk⟩
        rw [run_execute_of_prepare h]
        refine run_bind_of_error ?_
        rw [run_discover, hf]
        exact congrArg (·, stepsToFind manifest) (if_pos hk)
      · exact hasCourse_of_finds ⟨h, hf, hk⟩

/-- **Every execution on a node takes a course.** -/
theorem hasCourse (co : Collaborators) (waitTimeout : Option Seconds) (tree : FileTree) (p : Path)
    (manifest : Manifest) (fresh : Text) (input : Option Bytes) :
    co.HasCourse waitTimeout tree p manifest fresh input := by
  cases h : prepare tree p manifest fresh with
  | error failure =>
    refine ⟨_, _, ?_, .refused h⟩
    rw [execute, h]
    rfl
  | ok request => exact hasCourse_of_prepare h

end Collaborators

namespace Transport

variable {waitTimeout : Option Seconds} {outside : Surroundings} {p : Path} {manifest : Manifest}
  {content : Option Content} {input : Option Bytes} {outcome : Except Failure Result}
  {steps : List Step}

/-- The check that binds a result to the manifest. -/
def bound (manifest : Manifest) (result : Result) : Except Failure Result :=
  if result.receipt.moduleHash = manifest.moduleHash then .ok result
  else .error (.wrongModule manifest.moduleHash result.receipt.moduleHash)

theorem run_bind_bound (result : Result) :
    (Execution.bind manifest result).run.run steps = (bound manifest result, steps) := by
  unfold Execution.bind bound
  by_cases h : result.receipt.moduleHash = manifest.moduleHash
  · rw [if_neg (not_not_intro h), if_pos h]
    rfl
  · rw [if_pos h, if_neg h]
    rfl

/-- A transport to nodes checks what comes of an execution on a node, and adds no step. -/
theorem transcript_nodes (hi : Execution.input content = .ok input)
    (h : (outside.collaborators.execute waitTimeout outside.files outside.freshId p manifest
      input).run.run [] = (outcome, steps)) :
    ((nodes waitTimeout).execute outside p manifest content).transcript =
      (outcome >>= bound manifest, steps) := by
  unfold Execution.transcript execute
  rw [hi, run_bind_of_ok (Execution.run_lift_ok _)]
  cases outcome with
  | error failure => exact run_bind_of_error h
  | ok result => exact (run_bind_of_ok h).trans (run_bind_bound result)

/-- An input that cannot be encoded is refused before anything else. -/
theorem transcript_nodes_of_input_error {failure : Failure}
    (hi : Execution.input content = .error failure) :
    ((nodes waitTimeout).execute outside p manifest content).transcript = (.error failure, []) := by
  unfold Execution.transcript execute
  rw [hi]
  rfl

end Transport

end WasmReceipt
