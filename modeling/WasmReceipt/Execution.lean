import WasmReceipt.Manifest
import WasmReceipt.Receipt.Attestation

/-! # Executions

An execution runs a module under a manifest and gives its output with a receipt. Whatever runs the
module, the receipt must be bound to the content hash of the manifest. What an execution does is
kept as a transcript: the calls that it makes on the outside and the events that it reports. -/

namespace WasmReceipt

/-- The captured output of an execution and the receipt that proves it. -/
structure Result where
  stdout : Text
  stderr : Text
  receipt : Receipt
deriving DecidableEq

/-- A worker node picked by discovery. -/
structure Node where
  peerId : Text
  key : Text
  addresses : List Text
  capabilities : List (Text × Text)
deriving DecidableEq

/-- A job as it is shipped to a worker: the bytes of the module and what it asks for. -/
structure JobRequest where
  jobId : Text
  moduleHash : Text
  content : Bytes
  arguments : List Text
  manifest : Manifest
deriving DecidableEq

/-- What a worker hands back: the receipt is the document that the node signed. -/
structure JobResult where
  jobId : Text
  stdout : Text
  stderr : Text
  exitCode : Int
  receiptDocument : Text
deriving DecidableEq

/-! ## Records read from values -/

/-- Bytes given as a text that can be encoded. -/
def Field.bytes : Field.Rule Bytes
  | .string t =>
    match Utf8.encode t with
    | .ok bytes => .valid bytes
    | .error _ => .fault .unpairedSurrogate
  | _ => .fault .notBytes

def Node.ofMembers (ms : Json.Members) : Checked Node :=
  mk <$> Field.required ms "peer_id" Field.text
    <*> Field.required ms "pubkey" Field.text
    <*> Field.withDefault ms "addresses" [] (Field.items Field.text)
    <*> Field.withDefault ms "capabilities" [] (Field.members Field.text)

def JobRequest.ofMembers (ms : Json.Members) : Checked JobRequest :=
  mk <$> Field.required ms "job_id" Field.text
    <*> Field.required ms "module_hash" Field.text
    <*> Field.required ms "wasm_bytes" Field.bytes
    <*> Field.withDefault ms "args" [] (Field.items Field.text)
    <*> Field.required ms "manifest" (Field.record .manifest Manifest.ofMembers)

def JobResult.ofMembers (ms : Json.Members) : Checked JobResult :=
  mk <$> Field.required ms "job_id" Field.text
    <*> Field.required ms "stdout" Field.text
    <*> Field.required ms "stderr" Field.text
    <*> Field.required ms "exit_code" Field.laxInteger
    <*> Field.required ms "receipt_json" Field.text

def Result.ofMembers (ms : Json.Members) : Checked Result :=
  mk <$> Field.required ms "stdout" Field.text
    <*> Field.required ms "stderr" Field.text
    <*> Field.required ms "receipt" (Field.record .receipt Receipt.ofMembers)

/-! ## Job requests -/

namespace JobRequest

/-- The request to run a module file. A job id that is missing or empty is replaced by a fresh
one. -/
def ofModuleFile (tree : FileTree) (p : Path) (manifest : Manifest) (jobId : Option Text)
    (fresh : Text) (arguments : List Text) : Except Failure JobRequest := do
  if ← tree.isFile p then
    let content ← tree.read p
    let given := jobId.getD []
    return ⟨if given.isEmpty then fresh else given, manifest.moduleHash, content, arguments,
      manifest⟩
  else throw (.noModule p)

/-- Checks a request before it leaves: it has an id and a module, and the module is the one that
its content hash names. -/
def validate (request : JobRequest) : Except Failure Unit :=
  let computed := ContentHash.ofBytes request.content
  if request.jobId.isEmpty then .error .emptyJobId
  else if request.content.isEmpty then .error .emptyModule
  else if computed ≠ request.moduleHash then
    .error (.moduleMismatch request.moduleHash computed)
  else .ok ()

end JobRequest

/-! ## Transcripts -/

/-- A call on the outside. -/
inductive Call where
  | spawn (command : List Text)
  | communicate (input : Option Bytes)
  | findNode (manifest : Manifest)
  | submit (node : Node) (request : JobRequest) (input : Option Bytes)
  | wait (job : Text) (seconds : Seconds)
  | fetchResult (job : Text)
deriving DecidableEq

/-- Something that is reported while it happens. -/
inductive Event where
  | spawning
  | spawnFailed
  | localComplete
  | submitting
  | waitTimedOut
  | remoteComplete
  | signatureInvalid
deriving DecidableEq

/-- How much an event matters, from the least on. -/
inductive Level where
  | debug
  | info
  | warning
  | error
deriving DecidableEq

def Level.name : Level → Text
  | .debug => "DEBUG"
  | .info => "INFO"
  | .warning => "WARNING"
  | .error => "ERROR"

/-- Whether something went wrong. -/
def Level.isSerious : Level → Bool
  | .debug | .info => false
  | .warning | .error => true

namespace Event

def level : Event → Level
  | spawning | signatureInvalid => .debug
  | localComplete | submitting | remoteComplete => .info
  | waitTimedOut => .warning
  | spawnFailed => .error

def name : Event → Text
  | spawning => "transport.local.spawn"
  | spawnFailed => "transport.local.spawn_failed"
  | localComplete => "transport.local.complete"
  | submitting => "transport.remote.submit"
  | waitTimedOut => "transport.remote.timeout"
  | remoteComplete => "transport.remote.complete"
  | signatureInvalid => "receipt.signature_invalid"

/-- What a verification reports: only that a signature did not match. -/
def ofVerification : Except Failure Bool → List Event
  | .ok false => [signatureInvalid]
  | _ => []

end Event

/-- A step of an execution. -/
inductive Step where
  | call (c : Call)
  | event (e : Event)
deriving DecidableEq

def Step.calls (steps : List Step) : List Call :=
  steps.filterMap fun
    | .call c => some c
    | .event _ => none

def Step.events (steps : List Step) : List Event :=
  steps.filterMap fun
    | .call _ => none
    | .event e => some e

/-- A computation that may fail and whose steps are kept, also up to a failure. -/
abbrev Execution := ExceptT Failure (StateM (List Step))

namespace Execution

def call (c : Call) : Execution Unit := modify (· ++ [.call c])

def report (e : Event) : Execution Unit := modify (· ++ [.event e])

/-- The outcome of an execution and its steps. -/
def transcript (x : Execution α) : Except Failure α × List Step := x.run.run []

/-- Refuses a result whose receipt is bound to another module than the manifest. -/
def bind (manifest : Manifest) (result : Result) : Execution Result :=
  if result.receipt.moduleHash ≠ manifest.moduleHash then
    throw (.wrongModule manifest.moduleHash result.receipt.moduleHash)
  else return result

def input (content : Option Content) : Except Failure (Option Bytes) :=
  match content with
  | none => .ok none
  | some content =>
    match content.encode with
    | .ok bytes => .ok (some bytes)
    | .error fault => .error (.unencodable fault)

end Execution

end WasmReceipt
