import WasmReceipt.Execution

/-! # Executions on a worker node

The network is behind two collaborators: one picks a node, the other moves jobs. What stands here
is the contract around them: a request is checked before it leaves, waiting is bounded, and no
receipt is accepted that does not come from the node that was picked. Nothing is tried twice. -/

namespace WasmReceipt

/-- How the collaborators answer. -/
structure Collaborators where
  findNode : Manifest → Except Failure (Option Node)
  submit : Node → JobRequest → Option Bytes → Except Failure Text
  wait : Text → Seconds → Except Failure Bool
  fetchResult : Text → Except Failure JobResult

namespace Collaborators

/-- Nobody on the network: no node is ever found. -/
def nobody : Collaborators where
  findNode _ := .ok none
  submit _ request _ := .ok request.jobId
  wait _ _ := .ok false
  fetchResult job := .ok ⟨job, [], [], 0, []⟩

/-- A failure of a collaborator. One of the network becomes a failure of the execution, any other
passes as it is. -/
def blame (wrap : Text → Failure) (failure : Failure) : Failure :=
  if failure.kind.isA .os then wrap failure.message else failure

/-- Calls a collaborator. -/
def consult (call : Call) (wrap : Text → Failure) (answer : Except Failure α) : Execution α := do
  Execution.call call
  answer.mapError (blame wrap)

/-! ## Before a job leaves -/

/-- A request that may leave. -/
def prepare (tree : FileTree) (p : Path) (manifest : Manifest) (fresh : Text) :
    Except Failure JobRequest := do
  let request ← JobRequest.ofModuleFile tree p manifest none fresh []
  request.validate
  return request

/-- The failure of a search for a node that found none. -/
def noNode (manifest : Manifest) : Failure :=
  let limits := manifest.limits
  .ifWritable (Decimal.isWritable limits.cpuCores && Decimal.isWritable limits.memoryMb)
    (.noEligibleNode manifest.moduleHash limits.cpuCores limits.memoryMb)

/-- A node that may be given the job of a manifest. -/
def eligible (manifest : Manifest) : Option Node → Except Failure Node
  | none => .error (noNode manifest)
  | some node =>
    if node.key = Receipt.localMarker then .error (.nodeHasMarker node.peerId) else .ok node

/-- Asks for a node that may be given the job of a manifest. -/
def discover (collaborators : Collaborators) (manifest : Manifest) : Execution Node := do
  let found ← consult (.findNode manifest) .discovery (collaborators.findNode manifest)
  eligible manifest found

/-! ## On a node -/

/-- The failure of a job that did not finish in time. -/
def timedOut (job : Text) (seconds : Seconds) : Failure :=
  .ifWritable seconds.isWritable (.jobTimeout job seconds)

/-- Has a node run a request. Gives the id of the job and what the node handed back. -/
def delegate (collaborators : Collaborators) (node : Node) (request : JobRequest)
    (input : Option Bytes) (seconds : Seconds) : Execution (Text × JobResult) := do
  let blamed := Failure.unreachable node.peerId
  Execution.report .submitting
  let job ← consult (.submit node request input) blamed (collaborators.submit node request input)
  let finished ← consult (.wait job seconds) blamed (collaborators.wait job seconds)
  if !finished then
    Execution.report .waitTimedOut
    throw (timedOut job seconds)
  let result ← consult (.fetchResult job) blamed (collaborators.fetchResult job)
  return (job, result)

/-- Accepts what a node handed back if it is the result of the job and its receipt is the node's
own account of it. -/
def accept (node : Node) (job : Text) (result : JobResult) : Except Failure Result := do
  if result.jobId ≠ job then throw (.jobIdMismatch job result.jobId)
  let receipt ← Receipt.ofDocument (.text result.receiptDocument)
  if receipt.isLocal then throw .localReceipt
  if receipt.nodeKey ≠ node.key then throw (.wrongSigner receipt.nodeKey node.key)
  if receipt.exitCode ≠ result.exitCode then
    throw (.ifWritable (Decimal.isWritable result.exitCode)
      (.exitCodeMismatch receipt.exitCode result.exitCode))
  return ⟨result.stdout, result.stderr, receipt⟩

/-! ## The whole execution -/

def execute (collaborators : Collaborators) (waitTimeout : Option Seconds) (tree : FileTree)
    (fresh : Text) (p : Path) (manifest : Manifest) (input : Option Bytes) : Execution Result := do
  let request ← prepare tree p manifest fresh
  let node ← collaborators.discover manifest
  let seconds := waitTimeout.getD (.whole manifest.limits.timeoutSeconds)
  let (job, result) ← collaborators.delegate node request input seconds
  let accepted ← accept node job result
  Execution.report .remoteComplete
  return accepted

end Collaborators

end WasmReceipt
