import WasmReceipt.Proofs.Execution.Course
import WasmReceipt.Proofs.Receipt.Fields
import WasmReceipt.Proofs.Receipt.Verification

/-! # What stands behind a result from a node

Whatever the collaborators answer, a result is given only for a job that a node took and finished,
with a receipt that is the node's own, for the module of the manifest. -/

namespace WasmReceipt

namespace Receipt

variable {r : Receipt} {scheme : SignatureScheme} {given : Option Text}

/-- A receipt is checked against its own key when no other one is given. -/
theorem verify_own (r : Receipt) (scheme : SignatureScheme) :
    r.verify scheme none = r.verify scheme (some r.nodeKey) := by
  unfold verify trust
  by_cases h : r.nodeKey = localMarker
  · rw [if_pos h]
  · rw [if_neg h]
    rfl

/-- Without the marker of local executions only a signature makes a receipt check out. -/
theorem verify_eq_true_iff_isVouched (h : r.nodeKey ≠ localMarker) :
    r.verify scheme given = .ok true ↔ IsVouched scheme r given := by
  rw [verify_eq_true_iff]
  exact or_iff_right h

end Receipt

namespace Collaborators

variable {node : Node} {job : Text} {fetched : JobResult} {result : Result}

/-- What a node handed back is the result of the job, with a receipt of the node. -/
structure Vouches (node : Node) (job : Text) (fetched : JobResult) (result : Result) : Prop where
  jobId : fetched.jobId = job
  receipt : Receipt.ofDocument (.text fetched.receiptDocument) = .ok result.receipt
  notLocal : result.receipt.isLocal = false
  nodeKey : result.receipt.nodeKey = node.key
  exitCode : result.receipt.exitCode = fetched.exitCode
  stdout : result.stdout = fetched.stdout
  stderr : result.stderr = fetched.stderr

/-- Why what a node handed back is turned down. -/
inductive Rejects (node : Node) (job : Text) (fetched : JobResult) : Failure → Prop
  | otherJob : fetched.jobId ≠ job → Rejects node job fetched (.jobIdMismatch job fetched.jobId)
  | unreadable {failure : Failure} :
      Receipt.ofDocument (.text fetched.receiptDocument) = .error failure →
      Rejects node job fetched failure
  | localReceipt {receipt : Receipt} :
      Receipt.ofDocument (.text fetched.receiptDocument) = .ok receipt → receipt.isLocal = true →
      Rejects node job fetched .localReceipt
  | otherSigner {receipt : Receipt} :
      Receipt.ofDocument (.text fetched.receiptDocument) = .ok receipt →
      receipt.nodeKey ≠ node.key →
      Rejects node job fetched (.wrongSigner receipt.nodeKey node.key)
  | otherExitCode {receipt : Receipt} :
      Receipt.ofDocument (.text fetched.receiptDocument) = .ok receipt →
      receipt.exitCode ≠ fetched.exitCode →
      Rejects node job fetched (.ifWritable (Decimal.isWritable fetched.exitCode)
        (.exitCodeMismatch receipt.exitCode fetched.exitCode))

/-- The checks of what was handed back, one behind the other. -/
theorem accept_eq (node : Node) (job : Text) (fetched : JobResult) :
    accept node job fetched =
      if fetched.jobId ≠ job then .error (.jobIdMismatch job fetched.jobId)
      else
        match Receipt.ofDocument (.text fetched.receiptDocument) with
        | .error failure => .error failure
        | .ok receipt =>
          if receipt.isLocal then .error .localReceipt
          else if receipt.nodeKey ≠ node.key then .error (.wrongSigner receipt.nodeKey node.key)
          else if receipt.exitCode ≠ fetched.exitCode then
            .error (.ifWritable (Decimal.isWritable fetched.exitCode)
              (.exitCodeMismatch receipt.exitCode fetched.exitCode))
          else .ok ⟨fetched.stdout, fetched.stderr, receipt⟩ := by
  unfold accept
  cases Receipt.ofDocument (.text fetched.receiptDocument) <;> rfl

/-- What was handed back is taken for the reasons above or turned down for one of the others. -/
theorem accept_cases (node : Node) (job : Text) (fetched : JobResult) :
    (∃ result, Vouches node job fetched result ∧ accept node job fetched = .ok result) ∨
      ∃ failure, Rejects node job fetched failure ∧ accept node job fetched = .error failure := by
  rw [accept_eq]
  by_cases hjob : fetched.jobId = job
  · rw [if_neg (not_not_intro hjob)]
    cases hreceipt : Receipt.ofDocument (.text fetched.receiptDocument) with
    | error failure => exact .inr ⟨failure, .unreadable hreceipt, rfl⟩
    | ok receipt =>
      dsimp only
      cases hlocal : receipt.isLocal with
      | true => exact .inr ⟨_, .localReceipt hreceipt hlocal, rfl⟩
      | false =>
        rw [if_neg (by decide)]
        by_cases hkey : receipt.nodeKey = node.key
        · rw [if_neg (not_not_intro hkey)]
          by_cases hexit : receipt.exitCode = fetched.exitCode
          · rw [if_neg (not_not_intro hexit)]
            exact .inl ⟨_, ⟨hjob, hreceipt, hlocal, hkey, hexit, rfl, rfl⟩, rfl⟩
          · rw [if_pos hexit]
            exact .inr ⟨_, .otherExitCode hreceipt hexit, rfl⟩
        · rw [if_pos hkey]
          exact .inr ⟨_, .otherSigner hreceipt hkey, rfl⟩
  · rw [if_pos hjob]
    exact .inr ⟨_, .otherJob hjob, rfl⟩

theorem vouches_of_accept (h : accept node job fetched = .ok result) :
    Vouches node job fetched result := by
  rcases accept_cases node job fetched with ⟨_, hvouches, hok⟩ | ⟨_, -, herror⟩
  · rw [h] at hok
    cases hok
    exact hvouches
  · rw [h] at herror
    cases herror

theorem rejects_of_accept {failure : Failure} (h : accept node job fetched = .error failure) :
    Rejects node job fetched failure := by
  rcases accept_cases node job fetched with ⟨_, -, hok⟩ | ⟨_, hrejects, herror⟩
  · rw [h] at hok
    cases hok
  · rw [h] at herror
    cases herror
    exact hrejects

theorem accept_of_vouches (h : Vouches node job fetched result) :
    accept node job fetched = .ok result := by
  rw [accept_eq, if_neg (not_not_intro h.jobId), h.receipt]
  dsimp only
  rw [h.notLocal, if_neg (by decide), if_neg (not_not_intro h.nodeKey),
    if_neg (not_not_intro h.exitCode), ← h.stdout, ← h.stderr]

end Collaborators

namespace Transport

variable {waitTimeout : Option Seconds} {outside : Surroundings} {p : Path} {manifest : Manifest}
  {content : Option Content} {input : Option Bytes} {bytes : Bytes} {node : Node} {job : Text}
  {fetched : JobResult} {result : Result} {steps : List Step}

/-- What stands behind a result: a module, a node, a job and what was fetched for it. -/
structure Backed (outside : Surroundings) (waitTimeout : Option Seconds) (p : Path)
    (manifest : Manifest) (input : Option Bytes) (bytes : Bytes) (node : Node) (job : Text)
    (fetched : JobResult) (result : Result) : Prop where
  /-- The file holds the module of the manifest, byte for byte. -/
  module : outside.files.HoldsModule p manifest bytes
  /-- Discovery picked the node, which has no marker in place of its key. -/
  found : outside.collaborators.findNode manifest = .ok (some node)
  key_ne : node.key ≠ Receipt.localMarker
  /-- The node took the module with the manifest and the input as a job, which finished in time. -/
  submitted : outside.collaborators.submit node (manifest.request outside.freshId bytes) input =
    .ok job
  finished : outside.collaborators.wait job (Collaborators.patience waitTimeout manifest) = .ok true
  handedBack : outside.collaborators.fetchResult job = .ok fetched
  /-- What was fetched is the result of this job. -/
  jobId : fetched.jobId = job
  stdout : result.stdout = fetched.stdout
  stderr : result.stderr = fetched.stderr
  /-- The receipt is the one that was fetched, and is about this module on this node. -/
  receipt : Receipt.ofDocument (.text fetched.receiptDocument) = .ok result.receipt
  inRange : result.receipt.InRange
  notLocal : result.receipt.isLocal = false
  nodeKey : result.receipt.nodeKey = node.key
  moduleHash : result.receipt.moduleHash = manifest.moduleHash
  exitCode : result.receipt.exitCode = fetched.exitCode
  /-- It is checked against the key of the node, and checks out by a signature alone. -/
  verify_own : ∀ scheme : SignatureScheme,
    result.receipt.verify scheme none = result.receipt.verify scheme (some node.key)
  verify_iff : ∀ (scheme : SignatureScheme) (given : Option Text),
    result.receipt.verify scheme given = .ok true ↔ Receipt.IsVouched scheme result.receipt given

def stepsOfResult (waitTimeout : Option Seconds) (manifest : Manifest) (node : Node)
    (request : JobRequest) (input : Option Bytes) (job : Text) : List Step :=
  [.call (.findNode manifest), .event .submitting, .call (.submit node request input),
    .call (.wait job (Collaborators.patience waitTimeout manifest)), .call (.fetchResult job),
    .event .remoteComplete]

theorem backed_of_handsBack
    (h : outside.collaborators.HandsBack waitTimeout outside.files p manifest outside.freshId input
      (manifest.request outside.freshId bytes) node job fetched)
    (hm : outside.files.HoldsModule p manifest bytes)
    (hv : Collaborators.Vouches node job fetched result)
    (hb : result.receipt.moduleHash = manifest.moduleHash) :
    Backed outside waitTimeout p manifest input bytes node job fetched result where
  module := hm
  found := h.found
  key_ne := h.key_ne
  submitted := h.submitted
  finished := h.finished
  handedBack := h.handedBack
  jobId := hv.jobId
  stdout := hv.stdout
  stderr := hv.stderr
  receipt := hv.receipt
  inRange := Receipt.inRange_of_ofDocument hv.receipt
  notLocal := hv.notLocal
  nodeKey := hv.nodeKey
  moduleHash := hb
  exitCode := hv.exitCode
  verify_own scheme := by
    rw [Receipt.verify_own, hv.nodeKey]
  verify_iff scheme given :=
    Receipt.verify_eq_true_iff_isVouched (Receipt.isLocal_eq_false_iff.mp hv.notLocal)

theorem bound_eq_ok_iff {given : Result} :
    bound manifest given = .ok result ↔
      given.receipt.moduleHash = manifest.moduleHash ∧ given = result := by
  unfold bound
  by_cases h : given.receipt.moduleHash = manifest.moduleHash
  · simp [h]
  · simp [h]

theorem exists_backed
    (h : ((nodes waitTimeout).execute outside p manifest content).transcript =
      (.ok result, steps)) :
    ∃ input bytes node job fetched, Execution.input content = .ok input ∧ outside.freshId ≠ [] ∧
      Backed outside waitTimeout p manifest input bytes node job fetched result ∧
      steps = stepsOfResult waitTimeout manifest node (manifest.request outside.freshId bytes)
        input job := by
  cases hi : Execution.input content with
  | error failure =>
    rw [transcript_nodes_of_input_error hi] at h
    cases h
  | ok input =>
    obtain ⟨outcome, taken, hrun, hcourse⟩ := outside.collaborators.hasCourse waitTimeout
      outside.files p manifest outside.freshId input
    rw [transcript_nodes hi hrun] at h
    cases hcourse with
    | @accepted request node job fetched given hback ha =>
      obtain ⟨hid, bytes, hmodule, rfl⟩ := Collaborators.prepare_eq_ok_iff.mp hback.prepared
      have hv := Collaborators.vouches_of_accept ha
      obtain ⟨hbound, rfl⟩ := Prod.mk.inj h
      obtain ⟨hb, rfl⟩ := bound_eq_ok_iff.mp hbound
      exact ⟨input, bytes, node, job, fetched, rfl, hid, backed_of_handsBack hback hmodule hv hb,
        rfl⟩
    | _ => cases h

theorem transcript_of_backed (hi : Execution.input content = .ok input) (hid : outside.freshId ≠ [])
    (h : Backed outside waitTimeout p manifest input bytes node job fetched result) :
    ((nodes waitTimeout).execute outside p manifest content).transcript =
      (.ok result, stepsOfResult waitTimeout manifest node (manifest.request outside.freshId bytes)
        input job) := by
  have hprepared : Collaborators.prepare outside.files p manifest outside.freshId =
      .ok (manifest.request outside.freshId bytes) :=
    Collaborators.prepare_eq_ok_iff.mpr ⟨hid, bytes, h.module, rfl⟩
  have hback : outside.collaborators.HandsBack waitTimeout outside.files p manifest outside.freshId
      input (manifest.request outside.freshId bytes) node job fetched :=
    ⟨⟨⟨hprepared, h.found, h.key_ne⟩, h.submitted⟩, h.finished, h.handedBack⟩
  have haccept : Collaborators.accept node job fetched = .ok result :=
    Collaborators.accept_of_vouches
      ⟨h.jobId, h.receipt, h.notLocal, h.nodeKey, h.exitCode, h.stdout, h.stderr⟩
  rw [transcript_nodes hi (Collaborators.run_execute_of_accept hback haccept)]
  exact congrArg (·, _) (bound_eq_ok_iff.mpr ⟨h.moduleHash, rfl⟩)

/-- **A result comes from a node exactly when everything that should stand behind it does**,
whatever the collaborators answer: the module of the manifest, a node with a key, a job that the
node took and finished, and a receipt of that node for that module. -/
theorem execute_nodes_eq_ok_iff (outside : Surroundings) (waitTimeout : Option Seconds) (p : Path)
    (manifest : Manifest) (content : Option Content) (result : Result) (steps : List Step) :
    ((nodes waitTimeout).execute outside p manifest content).transcript = (.ok result, steps) ↔
      ∃ input bytes node job fetched, Execution.input content = .ok input ∧ outside.freshId ≠ [] ∧
        Backed outside waitTimeout p manifest input bytes node job fetched result ∧
        steps = stepsOfResult waitTimeout manifest node (manifest.request outside.freshId bytes)
          input job := by
  constructor
  · exact exists_backed
  · rintro ⟨input, bytes, node, job, fetched, hi, hid, hbacked, rfl⟩
    exact transcript_of_backed hi hid hbacked

end Transport

end WasmReceipt
