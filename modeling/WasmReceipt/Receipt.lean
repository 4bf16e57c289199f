import WasmReceipt.Document

/-! # Execution receipts

A receipt is a fact about an execution: which module ran, how it exited, how long it took, when it
finished, and who vouches for it. A node vouches with a public key and a signature in hexadecimal.
A receipt of a module that the caller ran itself carries two markers in their place, and is trusted
as far as the caller trusts itself: such a receipt must never be taken from somewhere else. -/

namespace WasmReceipt

/-- An execution receipt. The node key and the signature are empty when nobody vouches. -/
structure Receipt where
  version : Text
  moduleHash : Text
  exitCode : Int
  wallTimeMs : Int
  timestamp : Int
  nodeKey : Text
  signature : Text
deriving DecidableEq

/-- Who vouches for a receipt. -/
inductive Trust where
  | caller
  | node (key signature : Text)
deriving DecidableEq

namespace Receipt

def currentVersion : Text := "0.1"

/-- What stands for the node key of an execution by the caller. It is no key. -/
def localMarker : Text := "local_execution"

/-- What stands for the signature of an execution by the caller. It is no signature. -/
def unsignedMarker : Text := "unsigned"

/-- Who vouches for a receipt. The marker alone decides. -/
def trust (r : Receipt) : Trust :=
  if r.nodeKey = localMarker then .caller else .node r.nodeKey r.signature

/-- Whether the caller ran the module itself. -/
def isLocal (r : Receipt) : Bool := r.trust == .caller

def isSuccess (r : Receipt) : Bool := r.exitCode == 0

/-! ## The signed message -/

/-- The decimal text of an integer, unless it is too long to be written. -/
def integerText (n : Int) : Except Failure Text :=
  if Decimal.isWritable n then .ok (Decimal.ofInt n) else .error .longIntegerText

/-- The text that is hashed and signed: five fields with a bar between neighbours. -/
def joined (version moduleHash exitCode wallTimeMs timestamp : Text) : Text :=
  version ++ "|" ++ moduleHash ++ "|" ++ exitCode ++ "|" ++ wallTimeMs ++ "|" ++ timestamp

def messageOf (version moduleHash : Text) (exitCode wallTimeMs timestamp : Int) :
    Except Failure Text := do
  let exitCode ← integerText exitCode
  let wallTimeMs ← integerText wallTimeMs
  let timestamp ← integerText timestamp
  return joined version moduleHash exitCode wallTimeMs timestamp

/-- The signed text of a receipt. The node key and the signature are no part of it. -/
def message (r : Receipt) : Except Failure Text :=
  messageOf r.version r.moduleHash r.exitCode r.wallTimeMs r.timestamp

/-- The integer that a value stands for: an integer, a truth value, a double cut toward zero, or
the loose decimal text of one. -/
def integerOf : Json → Except Failure Int
  | .int n => .ok n
  | .bool b => .ok (if b then 1 else 0)
  | .float x => x.truncate.mapError .notFinite
  | .string t =>
    match Decimal.readLoose t with
    | .ok n => .ok n
    | .error .malformed => .error (.notIntegerText t)
    | .error (.tooLong digits) => .error (.longInteger digits)
  | .null => .error (.notNumber .null)
  | .array _ => .error (.notNumber .array)
  | .object _ => .error (.notNumber .object)

/-- The signed text of fields whose numbers are still values. One number after the other is read and
written. -/
def messageOfValues (version moduleHash : Text) (exitCode wallTimeMs timestamp : Json) :
    Except Failure Text := do
  let exitCode ← integerOf exitCode >>= integerText
  let wallTimeMs ← integerOf wallTimeMs >>= integerText
  let timestamp ← integerOf timestamp >>= integerText
  return joined version moduleHash exitCode wallTimeMs timestamp

/-! ## Fields -/

/-- The least exit code: 32 bits with a sign. -/
def minExitCode : Int := -0x80000000

def maxExitCode : Int := 0x7FFFFFFF

/-- The greatest time: 64 bits. -/
def maxTime : Int := 0xFFFFFFFFFFFFFFFF

/-- Reads a receipt from members. Unknown members are no part of it. -/
def ofMembers (ms : Json.Members) : Checked Receipt :=
  mk <$> Field.required ms "version" Field.text
    <*> Field.required ms "module_hash" Field.text
    <*> Field.required ms "exit_code" (Field.within minExitCode maxExitCode)
    <*> Field.required ms "wall_time_ms" (Field.within 0 maxTime)
    <*> Field.required ms "timestamp" (Field.within 0 maxTime)
    <*> Field.withDefault ms "node_pubkey" [] Field.text
    <*> Field.withDefault ms "signature" [] Field.text

/-- The members of a receipt, in the order of its fields. -/
def toMembers (r : Receipt) : Json.Members :=
  [("version", .string r.version), ("module_hash", .string r.moduleHash),
    ("exit_code", .int r.exitCode), ("wall_time_ms", .int r.wallTimeMs),
    ("timestamp", .int r.timestamp), ("node_pubkey", .string r.nodeKey),
    ("signature", .string r.signature)]

def toValue (r : Receipt) : Json := .object r.toMembers

def ofValue (v : Json) : Except Failure Receipt := do
  let ms ← v.membersOf .receipt
  (ofMembers ms).orFail .receipt .badReceipt

def ofDocument (document : Content) : Except Failure Receipt :=
  Json.ofDocument document >>= ofValue

def toDocument (r : Receipt) : Except Failure Text := r.toValue.toDocument

def ofFile (tree : FileTree) (p : Path) : Except Failure Receipt := do
  let content ← tree.read p
  ofDocument (.bytes content)

/-- Writes a receipt to a file, with a line feed at the end. -/
def toFile (r : Receipt) (p : Path) : FileAction Unit := do
  match r.toDocument with
  | .ok t => FileTree.writeText p (t ++ "\n")
  | .error failure => throw failure

/-- The receipt of an execution by the caller. Its fields are checked like those of any other. -/
def ofLocalValues (moduleHash exitCode wallTimeMs timestamp : Json) : Except Failure Receipt :=
  let ms : Json.Members :=
    [("version", .string currentVersion), ("module_hash", moduleHash), ("exit_code", exitCode),
      ("wall_time_ms", wallTimeMs), ("timestamp", timestamp),
      ("node_pubkey", .string localMarker), ("signature", .string unsignedMarker)]
  (ofMembers ms).orFail .receipt .invalid

def ofLocal (moduleHash : Text) (exitCode wallTimeMs timestamp : Int) : Except Failure Receipt :=
  ofLocalValues (.string moduleHash) (.int exitCode) (.int wallTimeMs) (.int timestamp)

end Receipt

end WasmReceipt
