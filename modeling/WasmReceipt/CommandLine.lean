import WasmReceipt.Client
import WasmReceipt.CommandLine.Invocation
import WasmReceipt.CommandLine.Session

/-! # The command line

Six commands on files: run a module, verify a receipt, print a manifest or a content hash, make a
signing key, and sign a receipt. What a command cannot do for a reason that it expects ends with a
complaint and an exit code: 1 when something is missing or fails, 2 when a receipt or a key is
malformed, so that nothing could be checked. -/

namespace WasmReceipt

/-- What lies outside of a command: its standard output, the variables of its environment, the
runner that it may start, and a private seed that nobody has yet. -/
structure Circumstances where
  console : Console
  environment : Json.Members
  runner : Runner
  freshSeed : Bytes

namespace CommandLine

open Session

def verdict (isGood : Bool) : Text := if isGood then "OK" else "FAILED"

def item (label value : Text) : Text := "  " ++ label ++ ": " ++ value

def resolve (p : Path) : Action Path := do attempt ((← get).files.resolve p)

/-! ## Running modules -/

/-- What a module is fed: a text or a file, but not both. -/
def inputOf (input : Option Text) (inputFile : Option Path) : Action (Option Content) := do
  match input, inputFile with
  | some _, some _ =>
    complain "Error: Cannot specify both --input and --input-file."
    exit 1
  | none, some p => return some (.bytes (← attempt ((← get).files.read p)))
  | some t, none =>
    match ← attempt (Execution.input (some (.text t))) with
    | some bytes => return some (.bytes bytes)
    | none => return none
  | none, none => return none

/-- The client that runs modules here. A runner that is named wins over the environment, unless its
name is empty. -/
def localClient (around : Circumstances) (runner : Option Text) : Except Failure Client := do
  let named : Json.Members :=
    match runner with
    | some path => if path.isEmpty then [] else [("runner_path", .string path)]
    | none => []
  let overrides : Json.Members := ("mode", .string Mode.here.name) :: named
  Client.make (some (← Config.ofEnvironment around.environment overrides)) [] false false

def resultLines (r : Receipt) : List Text :=
  ["[" ++ verdict r.isSuccess ++ "] Execution complete",
    item "Exit code" (Decimal.ofInt r.exitCode),
    item "Wall time" (Decimal.ofInt r.wallTimeMs ++ "ms"),
    item "Module" r.moduleHash]

def receiptLines (isVerified : Bool) (receiptOut : Option Path) : List Text :=
  let written : List Text := receiptOut.elim [] fun p => [item "Receipt" p.text]
  item "Receipt verified" (if isVerified then "yes" else "no") :: written

/-- Runs a module, prints its output and writes its receipt. -/
def run (scheme : SignatureScheme) (around : Circumstances) (isQuiet : Bool) (file : Path)
    (input : Option Text) (inputFile : Option Path) (runner : Option Text)
    (receiptOut : Option Path) (limits : Json.Members) : Action Unit :=
  handling [(.fileNotFound, 1), (.library, 1)] do
    let client ← attempt (localClient around runner)
    let path ← resolve file
    let files := (← get).files
    let job ← attempt (Job.ofModuleFile files path)
    let job ← if limits.isEmpty then pure job else attempt (job.withLimits limits)
    let content ← inputOf input inputFile
    let outside : Surroundings := ⟨files, around.runner, .nobody, []⟩
    let result ← execute (job.submit client.transport outside content)
    if !result.stdout.isEmpty then print [result.stdout]
    receiptOut.forM fun p => onFiles (result.receipt.toFile p)
    if !isQuiet then
      print (resultLines result.receipt)
      print (receiptLines (← verify scheme result.receipt none) receiptOut)
    exit (if result.receipt.isSuccess then 0 else 1)

/-! ## Checking receipts -/

def trustName (r : Receipt) : Text := if r.isLocal then "local" else "attested"

/-- The report on a verification. An empty key counts as none. -/
def verificationReport (r : Receipt) (isGood : Bool) (key : Option Text) : Json :=
  let given := key.getD []
  .ofFields
    [("ok", .bool isGood), ("trust", .string (trustName r)),
      ("module_hash", .string r.moduleHash), ("exit_code", .int r.exitCode),
      ("node_pubkey", .string (if given.isEmpty then r.nodeKey else given))]

def reportName : Text := "verify_receipt.json"

/-- Verifies a receipt, and writes a report if there is a place for it. -/
def verifyReceipt (scheme : SignatureScheme) (isQuiet : Bool) (file : Path) (key : Option Text)
    (outputDirectory : Option Path) : Action Unit :=
  handling [(.fileNotFound, 1), (.format, 2)] do
    let path ← resolve file
    let r ← attempt (Receipt.ofFile (← get).files path)
    let isGood ← verify scheme r key
    let report ← outputDirectory.mapM fun directory => do
      onFiles (writeReport (← resolve directory) reportName (verificationReport r isGood key))
    if !isQuiet then
      let written : List Text := report.elim [] fun p => [item "Report" p.text]
      print (["[" ++ verdict isGood ++ "] Verification complete"] ++ written ++
        [item "Status" (verdict isGood), item "Trust" (trustName r), item "Module" r.moduleHash])
    if !isGood then exit 1

/-! ## Manifests and content hashes -/

def printManifest (file : Path) (limits : Json.Members) : Action Unit :=
  handling [(.fileNotFound, 1), (.value, 1)] do
    let limits ← attempt (Limits.ofGiven limits)
    let path ← resolve file
    let manifest ← attempt (Manifest.ofModuleFile (← get).files path limits)
    print [← attempt manifest.toDocument]

def printHash (file : Path) : Action Unit :=
  handling [(.fileNotFound, 1)] do
    let path ← resolve file
    print [← attempt (ContentHash.ofFile (← get).files path)]

/-! ## Keys and signatures -/

/-- Makes a signing key. In a file the seed is kept to its owner; otherwise it is printed. -/
def makeKey (scheme : SignatureScheme) (around : Circumstances) (isQuiet : Bool)
    (out : Option Path) : Action Unit := do
  let seed := Bytes.toHex around.freshSeed
  let key := scheme.publicKeyText around.freshSeed
  match out with
  | none => print ["private_key: " ++ seed, "public_key: " ++ key]
  | some p =>
    onFiles (FileTree.writeText p (seed ++ "\n"))
    onFiles (FileTree.protect p)
    if !isQuiet then
      print ["[OK] Key generated", item "Private key" p.text, item "Public key" key]

/-- The text of a file in UTF-8. -/
def readText (p : Path) : Action Text := do
  let content ← attempt ((← get).files.read p)
  attempt ((Utf8.decode content).mapError .notUtf8)

/-- Signs a receipt. A receipt of an execution by the caller is refused: no node has seen it. -/
def signReceipt (scheme : SignatureScheme) (isQuiet : Bool) (file key : Path)
    (out : Option Path) : Action Unit :=
  handling [(.fileNotFound, 1), (.format, 2)] do
    let path ← resolve file
    let r ← attempt (Receipt.ofFile (← get).files path)
    if r.isLocal then
      complain "Error: Refusing to attest a local execution receipt."
      exit 1
    let signed ← attempt (r.attestWith scheme (← readText key))
    match out with
    | none => print [← attempt signed.toDocument]
    | some p =>
      onFiles (signed.toFile p)
      if !isQuiet then
        print ["[OK] Receipt signed", item "Receipt" p.text, item "Public key" signed.nodeKey]

/-! ## The whole command line -/

def version : Text := "0.1.0"

def perform (scheme : SignatureScheme) (around : Circumstances) (i : Invocation) :
    Action Unit := do
  modify fun s => { s with isVerbose := i.isVerbose }
  match i.command with
  | .run file input inputFile runner receiptOut limits =>
    run scheme around i.isQuiet file input inputFile runner receiptOut limits
  | .verify receipt key outputDirectory =>
    verifyReceipt scheme i.isQuiet receipt key outputDirectory
  | .manifest file limits => printManifest file limits
  | .hash file => printHash file
  | .keygen out => makeKey scheme around i.isQuiet out
  | .sign receipt key out => signReceipt scheme i.isQuiet receipt key out

/-- Ends a command whose arguments were not read to their end. -/
def finish (grammar : Arguments.Grammar) : Arguments.Ending → Action Unit
  | .help => do
    modify fun s => { s with stdout := s.stdout ++ grammar.usage }
    exit 0
  | .version => do
    print [Verb.program ++ " " ++ version]
    exit 0
  | .refused refusal => do
    modify fun s => { s with stderr := s.stderr ++ grammar.usage }
    complain (grammar.program ++ ": error: " ++ refusal.message)
    exit 2

def action (scheme : SignatureScheme) (around : Circumstances) (arguments : List Text) :
    Action Unit :=
  match Invocation.read arguments with
  | .error (grammar, ending) => finish grammar ending
  | .ok (some i) => perform scheme around i
  | .ok none => do
    modify fun s => { s with stdout := s.stdout ++ Invocation.grammar.usage }
    exit 1

/-- The end of a command: its exit code, or the failure that it does not handle. -/
def outcomeOf : Except Stop Unit → Except Failure Nat
  | .ok () => .ok 0
  | .error (.exit code) => .ok code
  | .error (.failure failure) => .error failure

def invoke (scheme : SignatureScheme) (around : Circumstances) (files : FileTree)
    (arguments : List Text) : Except Failure Nat × Session :=
  let start := Session.start around.console files
  let (outcome, session) := (action scheme around arguments).run.run start
  (outcomeOf outcome, session)

end CommandLine

end WasmReceipt
