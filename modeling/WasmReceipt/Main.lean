import WasmReceipt.CommandLine
import WasmReceipt.Ed25519

/-! # The program

The outer layer around the command line: it loads the files that the arguments name, carries the
command line out on them, writes back what has changed, and prints. A process cannot be started
from here, so running a module always ends like an attempt to start a runner that is missing. -/

namespace WasmReceipt.Program

def systemPath (place : Location) : String :=
  "/" ++ String.intercalate "/" (place.map Text.toString)

def systemBytes (b : Bytes) : ByteArray := ⟨b.toArray⟩

/-- What stands at a place whose parent is a directory. What cannot be read counts as missing. -/
def probe (place : Location) : IO (Option Entry) := do
  try
    let content ← IO.FS.readBinFile (systemPath place)
    return some (.file content.toList false)
  catch
    | .inappropriateType _ _ _ => return some .directory
    | _ => return none

def load (tree : FileTree) (place : Location) : IO FileTree :=
  (List.range place.length).foldlM (fun tree n => do
    let here := place.take (n + 1)
    match tree.get? here, tree.get? here.dropLast with
    | none, some .directory =>
      match ← probe here with
      | some entry => return tree.put here entry
      | none => return tree
    | _, _ => return tree) tree

/-- The paths that an argument may stand for: itself, and what is behind an equals sign. -/
def pathsOf (argument : Text) : List Path :=
  let value := (Arguments.splitAtEquals argument).2
  (argument :: value.toList).map Path.ofText

/-- The files that arguments name, seen from the working directory. -/
def filesFor (arguments : List Text) : IO FileTree := do
  let here := (Path.ofText (← IO.currentDir).toString).names
  let start ← load (FileTree.empty here) here
  (arguments.flatMap pathsOf).foldlM (fun tree p =>
    load tree (p.resolve here).names) start

def store (place : Location) : Entry → IO Unit
  | .directory => IO.FS.createDirAll (systemPath place)
  | .file content isPrivate => do
    IO.FS.writeBinFile (systemPath place) (systemBytes content)
    if isPrivate then
      IO.setAccessRights (systemPath place) ⟨⟨true, true, false⟩, ⟨false, false, false⟩,
        ⟨false, false, false⟩⟩

/-- Writes back what has changed, directories before what is in them. -/
def storeChanges (before after : FileTree) : IO Unit := do
  let changed := after.entries.filter fun e => before.get? e.1 != some e.2
  for (place, entry) in changed.mergeSort fun a b => a.1.length ≤ b.1.length do
    store place entry

def environment : IO Json.Members :=
  Config.settings.filterMapM fun names => do
    let value ← IO.getEnv (Text.toString names.1)
    return value.map fun v => (names.1, .string v)

/-- The runner, which cannot be started. -/
def noRunner : Runner where
  start := .error (.raised .os "processes cannot be started")
  stdout := []
  stderr := []
  exitCode := 0
  before := Binary64.zero
  after := Binary64.zero
  now := 0

def put (stream : IO.FS.Stream) (t : Text) : IO Unit := do
  stream.write (systemBytes (Utf8.encodeLoose t))
  stream.flush

end WasmReceipt.Program

open WasmReceipt Program in
def main (arguments : List String) : IO UInt32 := do
  let arguments := arguments.map Text.ofString
  let seed ← IO.getRandomBytes 32
  let around : Circumstances := ⟨.strict, ← environment, noRunner, seed.toList⟩
  let files ← filesFor arguments
  let (outcome, session) := CommandLine.invoke Ed25519.scheme around files arguments
  storeChanges files session.files
  put (← IO.getStdout) session.stdout
  put (← IO.getStderr) session.stderr
  match outcome with
  | .ok code => return UInt32.ofNat code
  | .error failure =>
    put (← IO.getStderr) (Session.line failure.message)
    return 1
