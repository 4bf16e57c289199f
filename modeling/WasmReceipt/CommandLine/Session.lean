import WasmReceipt.Execution

/-! # Sessions

A command reads and changes files, prints to two streams, and may execute a module. It ends with an
exit code, or with a failure that it does not handle. Whatever it did up to its end stays done.

The standard output takes UTF-8. There is none for surrogates, and what becomes of them is up to how
it was opened: they may all be refused, or those that stand for the bytes of a name may pass. A
complaint never fails, since the error stream writes surrogates as escapes. -/

namespace WasmReceipt

/-- What the standard output refuses to encode, which is a surrogate at any rate. -/
structure Console where
  refuses : CodePoint → Bool
  isSurrogate_of_refuses : ∀ c, refuses c = true → c.isSurrogate = true

namespace Console

/-- Refuses every surrogate. -/
def strict : Console := ⟨CodePoint.isSurrogate, fun _ h => h⟩

/-- Takes every text as it is. -/
def passing : Console := ⟨fun _ => false, nofun⟩

end Console

/-- What a command works on and what it has done so far. -/
structure Session where
  console : Console
  files : FileTree
  stdout : Text
  stderr : Text
  steps : List Step
  isVerbose : Bool

/-- How a command ends before its last line. -/
inductive Stop where
  | exit (code : Nat)
  | failure (failure : Failure)

abbrev Action := ExceptT Stop (StateM Session)

namespace Session

def start (console : Console) (files : FileTree) : Session := ⟨console, files, [], [], [], false⟩

def line (t : Text) : Text := t ++ "\n"

/-- Prints a line, or nothing of it if a part of it is refused. -/
def printLine (t : Text) : Action Unit := do
  match Utf8.firstRefused (← get).console.refuses t with
  | some fault => throw (.failure (.unencodable fault))
  | none => modify fun s => { s with stdout := s.stdout ++ line t }

def print (lines : List Text) : Action Unit := lines.forM printLine

def complain (t : Text) : Action Unit :=
  modify fun s => { s with stderr := s.stderr ++ line t }

def exit (code : Nat) : Action α := throw (.exit code)

/-- Goes on with a value, or ends with the failure. -/
def attempt (x : Except Failure α) : Action α :=
  match x with
  | .ok a => return a
  | .error failure => throw (.failure failure)

def onFiles (x : FileAction α) : Action α := do
  let (outcome, files) := x.run.run (← get).files
  modify fun s => { s with files := files }
  attempt outcome

/-- Keeps an event and reports it: all of them in a verbose session, with their level, and otherwise
the serious ones, by their name alone. -/
def report (e : Event) : Action Unit := do
  let s ← get
  set { s with steps := s.steps ++ [Step.event e] }
  if s.isVerbose then complain (e.level.name ++ " " ++ e.name)
  else if e.level.isSerious then complain e.name
  else return

/-- Keeps a step, and reports it if it is an event. -/
def keep : Step → Action Unit
  | .event e => report e
  | .call c => modify fun s => { s with steps := s.steps ++ [Step.call c] }

/-- Executes, with all its steps. -/
def execute (x : Execution α) : Action α := do
  let (outcome, steps) := x.transcript
  steps.forM keep
  attempt outcome

def verify (scheme : SignatureScheme) (r : Receipt) (key : Option Text) : Action Bool := do
  let outcome := r.verify scheme key
  (Event.ofVerification outcome).forM report
  attempt outcome

/-- Handles failures of some kinds: each ends the command with a complaint and an exit code. The
first kind that fits decides. -/
def handling (codes : List (FailureKind × Nat)) (x : Action α) : Action α :=
  tryCatch x fun
    | .exit code => throw (.exit code)
    | .failure failure =>
      match codes.find? fun c => failure.kind.isA c.1 with
      | some (_, code) => do
        complain ("Error: " ++ failure.message)
        exit code
      | none => throw (.failure failure)

end Session

end WasmReceipt
