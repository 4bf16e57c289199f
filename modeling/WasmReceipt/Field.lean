import WasmReceipt.Json
import WasmReceipt.Text.Utf8

/-! # Records read from JSON fields

A record is read from the members of an object field by field. All faults are collected, in the
order of the record's fields and with the path of each, so that one message names everything that
is wrong. Two kinds of rule read a field: strict rules take exactly the JSON type, and lax rules
also take what plainly stands for an integer. -/

namespace WasmReceipt

/-- The records that are read from JSON. -/
inductive RecordKind where
  | receipt
  | manifest
  | limits
  | config
  | node
  | jobRequest
  | jobResult
  | result
deriving DecidableEq

def RecordKind.name : RecordKind → Text
  | .receipt => "Receipt"
  | .manifest => "Manifest"
  | .limits => "ResourceLimits"
  | .config => "ClientConfig"
  | .node => "NodeInfo"
  | .jobRequest => "RemoteJobRequest"
  | .jobResult => "RemoteJobResult"
  | .result => "Result"

namespace Field

/-- What is wrong with one field. -/
inductive Reason where
  | missing
  | unknown
  | notText
  | emptyText
  | unpairedSurrogate
  | notInteger
  | fraction
  | notFinite
  | unreadableInteger
  | longInteger
  | below (least : Int)
  | above (greatest : Int)
  | notArray
  | notObject
  | notBytes
  | notMode
  | notRecord (record : RecordKind)
  | notContentHash (given : Text)
deriving DecidableEq

def hashComplaint (given : Text) : Text :=
  "module_hash '" ++ given ++ "' must look like 'sha256:<hex>'"

/-- Why a reason cannot be told: what it says about a given text cannot be encoded. -/
def Reason.encodeFault? : Reason → Option Utf8.EncodeFault
  | .notContentHash given => Utf8.firstSurrogates (hashComplaint given)
  | _ => none

/-- The text of a reason and its tag. -/
def Reason.describe : Reason → Text × Text
  | .missing => ("Field required", "missing")
  | .unknown => ("Extra inputs are not permitted", "extra_forbidden")
  | .notText => ("Input should be a valid string", "string_type")
  | .emptyText => ("String should have at least 1 character", "string_too_short")
  | .unpairedSurrogate =>
    ("Input should be a valid string, unable to parse raw data as a unicode string",
      "string_unicode")
  | .notInteger => ("Input should be a valid integer", "int_type")
  | .fraction =>
    ("Input should be a valid integer, got a number with a fractional part", "int_from_float")
  | .notFinite => ("Input should be a finite number", "finite_number")
  | .unreadableInteger =>
    ("Input should be a valid integer, unable to parse string as an integer", "int_parsing")
  | .longInteger =>
    ("Unable to parse input string as an integer, exceeded maximum size", "int_parsing_size")
  | .below least =>
    ("Input should be greater than or equal to " ++ Decimal.ofInt least, "greater_than_equal")
  | .above greatest =>
    ("Input should be less than or equal to " ++ Decimal.ofInt greatest, "less_than_equal")
  | .notArray => ("Input should be a valid list", "list_type")
  | .notObject => ("Input should be a valid dictionary", "dict_type")
  | .notBytes => ("Input should be a valid bytes", "bytes_type")
  | .notMode => ("Input should be 'local' or 'remote'", "enum")
  | .notRecord record =>
    ("Input should be a valid dictionary or instance of " ++ record.name, "model_type")
  | .notContentHash given => ("Value error, " ++ hashComplaint given, "value_error")

/-- A fault and where it is: names of fields, names of members and positions of items. The path of
a fault that no single field has is empty. -/
structure Fault where
  path : List Text
  reason : Reason
deriving DecidableEq

/-- How a step of a path is shown. Points divide steps, so a step with a point in it stands between
backticks. A surrogate shows as bytes that are no character. -/
def shownStep (step : Text) : Text :=
  let shown := Utf8.decodeReplacing (Utf8.encodeLoose step)
  if shown.any (·.is '.') then "`" ++ shown ++ "`" else shown

/-- The line with the path of a fault, if it has one. -/
def Fault.place (fault : Fault) : Text :=
  if fault.path.isEmpty then [] else Text.join "." (fault.path.map shownStep) ++ "\n"

def Fault.message (fault : Fault) : Text :=
  let (text, tag) := fault.reason.describe
  fault.place ++ "  " ++ text ++ " [type=" ++ tag ++ "]"

end Field

/-- A record that cannot be read, with all of its faults. -/
structure Invalid where
  record : RecordKind
  faults : List Field.Fault
deriving DecidableEq

def Invalid.encodeFault? (invalid : Invalid) : Option Utf8.EncodeFault :=
  invalid.faults.findSome? fun fault => fault.reason.encodeFault?

def Invalid.message (invalid : Invalid) : Text :=
  let count := invalid.faults.length
  let noun : Text := if count = 1 then " validation error for " else " validation errors for "
  Text.join "\n"
    ((Decimal.ofNat count ++ noun ++ invalid.record.name) :: invalid.faults.map Field.Fault.message)

/-- A value, or all the faults that keep it from being one. -/
inductive Checked (α : Type) where
  | valid (value : α)
  | faulty (faults : List Field.Fault)

namespace Checked

def map (f : α → β) : Checked α → Checked β
  | .valid a => .valid (f a)
  | .faulty faults => .faulty faults

/-- Applies a checked function to a checked value; the faults of both add up. -/
def apply : Checked (α → β) → Checked α → Checked β
  | .valid f, .valid a => .valid (f a)
  | .valid _, .faulty faults => .faulty faults
  | .faulty faults, .valid _ => .faulty faults
  | .faulty faults, .faulty others => .faulty (faults ++ others)

instance : Functor Checked where
  map := map

instance : Pure Checked where
  pure := valid

instance : Seq Checked where
  seq f x := apply f (x ())

/-- A single fault, at the value itself. -/
def fault (reason : Field.Reason) : Checked α := .faulty [⟨[], reason⟩]

def under (step : Text) : Checked α → Checked α
  | .valid a => .valid a
  | .faulty faults => .faulty (faults.map fun f => ⟨step :: f.path, f.reason⟩)

def andThen (x : Checked α) (f : α → Checked β) : Checked β :=
  match x with
  | .valid a => f a
  | .faulty faults => .faulty faults

/-- All values, or all faults. -/
def all : List (Checked α) → Checked (List α)
  | [] => .valid []
  | x :: rest => apply (map List.cons x) (all rest)

end Checked

namespace Field

abbrev Rule (α : Type) := Json → Checked α

def required (ms : Json.Members) (name : Text) (rule : Rule α) : Checked α :=
  match ms.get? name with
  | some v => (rule v).under name
  | none => (Checked.fault .missing).under name

def withDefault (ms : Json.Members) (name : Text) (default : α) (rule : Rule α) : Checked α :=
  match ms.get? name with
  | some v => (rule v).under name
  | none => .valid default

/-- No field but the known ones. -/
def onlyKnown (ms : Json.Members) (known : List Text) : Checked Unit :=
  match ms.filter fun m => !known.contains m.1 with
  | [] => .valid ()
  | unknown => .faulty (unknown.map fun m => ⟨[m.1], .unknown⟩)

/-- A record that has no members but the known ones. A name that cannot be encoded ends the reading
before any field is looked at. -/
def exactly (ms : Json.Members) (known : List Text) (record : Checked α) : Checked α :=
  if ms.all fun m => m.1.isScalar then (fun a _ => a) <$> record <*> onlyKnown ms known
  else .fault .unpairedSurrogate

/-! ## Rules -/

/-- A string, surrogates included. -/
def text : Rule Text
  | .string t => .valid t
  | _ => .fault .notText

/-- A string with something in it, which can be encoded. -/
def nonEmptyText : Rule Text
  | .string t =>
    if !t.isScalar then .fault .unpairedSurrogate
    else if t.isEmpty then .fault .emptyText
    else .valid t
  | _ => .fault .notText

/-- An integer and nothing that stands for one. -/
def strictInteger : Rule Int
  | .int n => .valid n
  | _ => .fault .notInteger

/-- An integer, a truth value, a double without a fraction, or the plain decimal text of one. -/
def laxInteger : Rule Int
  | .int n => .valid n
  | .bool b => .valid (if b then 1 else 0)
  | .float x =>
    match x.truncate with
    | .error _ => .fault .notFinite
    | .ok n =>
      if !x.isIntegral then .fault .fraction
      else if -0x8000000000000000 < n ∧ n < 0x8000000000000000 then .valid n
      else .fault .longInteger
  | .string t =>
    if !t.isScalar then .fault .unpairedSurrogate
    else
      match Decimal.readPlain t with
      | .ok n => .valid n
      | .error .malformed => .fault .unreadableInteger
      | .error (.tooLong _) => .fault .longInteger
  | _ => .fault .notInteger

def atLeast (least : Int) (n : Int) : Checked Int :=
  if n < least then .fault (.below least) else .valid n

def atMost (greatest : Int) (n : Int) : Checked Int :=
  if greatest < n then .fault (.above greatest) else .valid n

def within (least greatest : Int) (v : Json) : Checked Int :=
  (strictInteger v).andThen fun n => (atLeast least n).andThen (atMost greatest)

/-- The items of an array, each by a rule. -/
def items (rule : Rule α) : Rule (List α)
  | .array vs => Checked.all (vs.zipIdx.map fun (v, i) => (rule v).under (Decimal.ofNat i))
  | _ => .fault .notArray

/-- The members of an object, each value by a rule. -/
def members (rule : Rule α) : Rule (List (Text × α))
  | .object ms => Checked.all (ms.map fun m => ((rule m.2).under m.1).map (m.1, ·))
  | _ => .fault .notObject

/-- Null or a value by a rule. -/
def nullable (rule : Rule α) : Rule (Option α)
  | .null => .valid none
  | v => (rule v).map some

def record (kind : RecordKind) (read : Json.Members → Checked α) : Rule α
  | .object ms => read ms
  | _ => .fault (.notRecord kind)

end Field

end WasmReceipt
