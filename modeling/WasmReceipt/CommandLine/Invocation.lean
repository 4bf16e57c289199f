import WasmReceipt.Arguments
import WasmReceipt.Json
import WasmReceipt.Path

/-! # Invocations

What a command line asks for. There are six commands; each has its own arguments, and all of them
can be made quiet or verbose. Only the reader of the whole command line refuses what is left over,
so a fault in the arguments of a command is told first. -/

namespace WasmReceipt

open Arguments

/-- The commands by name. -/
inductive Verb where
  | run
  | verify
  | manifest
  | hash
  | keygen
  | sign
deriving DecidableEq

namespace Verb

/-- All commands, in the order in which messages list them. -/
def all : List Verb := [run, verify, manifest, hash, keygen, sign]

def name : Verb → Text
  | run => "run"
  | verify => "verify"
  | manifest => "manifest"
  | hash => "hash"
  | keygen => "keygen"
  | sign => "sign"

end Verb

/-- What a command works with. Resources are given by name, and only those that change. -/
inductive Command where
  | run (module : Path) (input : Option Text) (inputFile : Option Path) (runner : Option Text)
      (receiptOut : Option Path) (limits : Json.Members)
  | verify (receipt : Path) (key : Option Text) (outputDirectory : Option Path)
  | manifest (module : Path) (limits : Json.Members)
  | hash (module : Path)
  | keygen (out : Option Path)
  | sign (receipt key : Path) (out : Option Path)

/-- A command, and how much it says. -/
structure Invocation where
  command : Command
  isQuiet : Bool
  isVerbose : Bool

/-! ## Grammars -/

namespace Verb

def program : Text := "plasm"

def help : Parameter := ⟨["-h", "--help"], .help, false⟩

def optional (spelling : Text) (use : Use) : Parameter := ⟨[spelling], use, false⟩

/-- The options of every command. -/
def shared : List Parameter := [help, optional "--quiet" .mark, optional "--verbose" .mark]

/-- The options for resources, each with the name of the resource. -/
def limitOptions : List (Text × Text) :=
  [("--cpu", "cpu_cores"), ("--memory", "memory_mb"), ("--timeout", "timeout_seconds")]

def limits : List Parameter := limitOptions.map fun o => optional o.1 .integer

def own : Verb → List Parameter
  | run =>
    [optional "--input" .text, optional "--input-file" .text, optional "--runner" .text,
      optional "--receipt-out" .text] ++ limits
  | verify => [optional "--pubkey" .text, optional "--output-dir" .text]
  | manifest => limits
  | hash => []
  | keygen => [optional "--out" .text]
  | sign => [⟨["--key"], .text, true⟩, optional "--out" .text]

def operand : Verb → Operand
  | run | manifest | hash => .single "module_path"
  | verify | sign => .single "receipt_path"
  | keygen => .absent

def grammar (v : Verb) : Grammar := ⟨program ++ " " ++ v.name, shared ++ v.own, v.operand⟩

end Verb

namespace Invocation

/-- The arguments of the program: its own options, and a command. -/
def grammar : Grammar :=
  ⟨Verb.program, [Verb.help, Verb.optional "--version" .version],
    .command "command" (Verb.all.map Verb.name)⟩

/-! ## Reading -/

def limitsOf (r : Reading) : Json.Members :=
  Verb.limitOptions.filterMap fun o => (r.integer? o.1).map fun n => (o.2, .int n)

def path? (r : Reading) (spelling : Text) : Option Path := (r.text? spelling).map Path.ofText

/-- The command that was read. Operands and required options are there in what was read. -/
def commandOf (v : Verb) (r : Reading) : Command :=
  let operand := Path.ofText (r.operand.elim [] Prod.fst)
  match v with
  | .run =>
    .run operand (r.text? "--input") (path? r "--input-file") (r.text? "--runner")
      (path? r "--receipt-out") (limitsOf r)
  | .verify => .verify operand (r.text? "--pubkey") (path? r "--output-dir")
  | .manifest => .manifest operand (limitsOf r)
  | .hash => .hash operand
  | .keygen => .keygen (path? r "--out")
  | .sign => .sign operand (Path.ofText ((r.text? "--key").getD [])) (path? r "--out")

/-- Why there is no invocation: which grammar was read when it ended. -/
abbrev Outcome := Grammar × Ending

/-- Reads a command line. Nothing is asked for without a command. -/
def read (arguments : List Text) : Except Outcome (Option Invocation) := do
  let outer ← (grammar.read arguments).mapError (Prod.mk grammar)
  let refuse (given : List Text) : Except Outcome (Option Invocation) :=
    .error (grammar, .refused (.leftOver given))
  match outer.operand with
  | none => if outer.leftOver.isEmpty then return none else refuse outer.leftOver
  | some (name, rest) =>
    match Verb.all.find? (·.name = name) with
    | none => return none
    | some verb =>
      let inner ← (verb.grammar.read rest).mapError (Prod.mk verb.grammar)
      let leftOver := outer.leftOver ++ inner.leftOver
      if leftOver.isEmpty then
        return some ⟨commandOf verb inner, inner.has "--quiet", inner.has "--verbose"⟩
      else refuse leftOver

end Invocation

end WasmReceipt
