import WasmReceipt.ContentHash
import WasmReceipt.Document

/-! # Job manifests

A manifest binds the content hash of a module to the resources that a job asks for. It is a value:
a change of resources gives another manifest. -/

namespace WasmReceipt

/-- The resources of a job. -/
structure Limits where
  cpuCores : Int
  memoryMb : Int
  timeoutSeconds : Int
deriving DecidableEq

namespace Limits

/-- What a job gets that asks for nothing. -/
def standard : Limits := ⟨1, 128, 300⟩

def names : List Text := ["cpu_cores", "memory_mb", "timeout_seconds"]

/-- An amount of a resource: an integer from one on. -/
def amount (v : Json) : Checked Int := (Field.strictInteger v).andThen (Field.atLeast 1)

def ofMembers (ms : Json.Members) : Checked Limits :=
  mk <$> Field.withDefault ms "cpu_cores" standard.cpuCores amount
    <*> Field.withDefault ms "memory_mb" standard.memoryMb amount
    <*> Field.withDefault ms "timeout_seconds" standard.timeoutSeconds amount

/-- Reads the three resources from members and refuses every other member. -/
def ofExactMembers (ms : Json.Members) : Checked Limits :=
  Field.exactly ms names (ofMembers ms)

def toMembers (limits : Limits) : Json.Members :=
  [("cpu_cores", .int limits.cpuCores), ("memory_mb", .int limits.memoryMb),
    ("timeout_seconds", .int limits.timeoutSeconds)]

def ofGiven (ms : Json.Members) : Except Failure Limits :=
  (ofExactMembers ms).orFail .limits .invalid

end Limits

/-- A manifest: its version, the content hash of the module, and the resources. -/
structure Manifest where
  version : Text
  moduleHash : Text
  limits : Limits
deriving DecidableEq

namespace Manifest

def currentVersion : Text := "0.1"

/-- A content hash: a string of the right form. -/
def contentHash (v : Json) : Checked Text :=
  (Field.text v).andThen fun t =>
    if ContentHash.isWellFormed t then .valid t else .fault (.notContentHash t)

/-- Reads a manifest from members. Unknown members are no part of it. -/
def ofMembers (ms : Json.Members) : Checked Manifest :=
  mk <$> Field.withDefault ms "version" currentVersion Field.text
    <*> Field.required ms "module_hash" contentHash
    <*> Limits.ofMembers ms

/-- The members of a manifest, in the order of its fields. -/
def toMembers (m : Manifest) : Json.Members :=
  ("version", .string m.version) :: ("module_hash", .string m.moduleHash) :: m.limits.toMembers

def toValue (m : Manifest) : Json := .object m.toMembers

def ofValue (v : Json) : Except Failure Manifest := do
  let ms ← v.membersOf .manifest
  (ofMembers ms).orFail .manifest .badManifest

def ofDocument (document : Content) : Except Failure Manifest :=
  Json.ofDocument document >>= ofValue

def toDocument (m : Manifest) : Except Failure Text := m.toValue.toDocument

def ofModuleFile (tree : FileTree) (p : Path) (limits : Limits) : Except Failure Manifest := do
  let moduleHash ← ContentHash.ofFile tree p
  return ⟨currentVersion, moduleHash, limits⟩

/-- The name that a change may not have, since it stands for what is changed. -/
def reservedName : Text := "self"

/-- The manifest with some resources replaced. The new resources are checked as a whole. -/
def withLimits (m : Manifest) (changes : Json.Members) : Except Failure Manifest := do
  if (changes.get? reservedName).isSome then
    throw (.reservedName "Manifest.with_limits" reservedName)
  let checked := Limits.ofExactMembers (m.limits.toMembers.update changes)
  return { m with limits := ← checked.orFail .limits .badLimits }

end Manifest

end WasmReceipt
