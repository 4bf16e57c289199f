import WasmReceipt.Manifest
import WasmReceipt.Receipt

/-! # Schemas of the two documents

A receipt and a manifest cross the borders of processes and networks, so their fields are
published as JSON schemas. A schema is made of the bounds and defaults that the readers use. -/

namespace WasmReceipt

/-- What a field holds. -/
inductive Schema.Kind where
  | text
  | integer (least greatest : Option Int)

/-- A field of a document. One without a default has to be there. -/
structure Schema.Property where
  name : Text
  kind : Schema.Kind
  default : Option Json

/-- A published document: its name, what it is, and its fields in order. -/
structure Schema where
  name : Text
  description : Text
  properties : List Schema.Property

namespace Schema

/-- An ASCII letter in upper case; anything else as it is. -/
def capital (c : CodePoint) : CodePoint :=
  if 0x61 ≤ c.val ∧ c.val ≤ 0x7A then CodePoint.ofNat (c.val - 0x20) else c

def capitalized : Text → Text
  | [] => []
  | c :: rest => capital c :: rest

/-- The title of a field: the words of its name, each with a capital. -/
def title (name : Text) : Text :=
  Text.join " " ((name.splitOn (CodePoint.ofChar '_')).map capitalized)

def optional (name : Text) (v : Option Json) : Json.Members :=
  match v with
  | some v => [(name, v)]
  | none => []

namespace Property

def bounds (p : Property) : Json.Members :=
  match p.kind with
  | .text => []
  | .integer least greatest =>
    optional "maximum" (greatest.map .int) ++ optional "minimum" (least.map .int)

def typeName (p : Property) : Text :=
  match p.kind with
  | .text => "string"
  | .integer _ _ => "integer"

def toJson (p : Property) : Json :=
  let described : Json.Members :=
    [("title", .string (title p.name)), ("type", .string p.typeName)]
  .object (optional "default" p.default ++ p.bounds ++ described)

end Property

def toJson (s : Schema) : Json :=
  let required := (s.properties.filter (·.default.isNone)).map fun p => Json.string p.name
  .object
    [("description", .string s.description),
      ("properties", .object (s.properties.map fun p => (p.name, p.toJson))),
      ("required", .array required),
      ("title", .string s.name),
      ("type", .string "object")]

def receipt : Schema :=
  ⟨RecordKind.receipt.name, "Execution receipt proving work was done.",
    [⟨"version", .text, none⟩,
      ⟨"module_hash", .text, none⟩,
      ⟨"exit_code", .integer (some Receipt.minExitCode) (some Receipt.maxExitCode), none⟩,
      ⟨"wall_time_ms", .integer (some 0) (some Receipt.maxTime), none⟩,
      ⟨"timestamp", .integer (some 0) (some Receipt.maxTime), none⟩,
      ⟨"node_pubkey", .text, some (.string [])⟩,
      ⟨"signature", .text, some (.string [])⟩]⟩

def manifest : Schema :=
  let amount := Kind.integer (some 1) none
  ⟨RecordKind.manifest.name, "Resource manifest for a content-addressed module.",
    [⟨"version", .text, some (.string Manifest.currentVersion)⟩,
      ⟨"module_hash", .text, none⟩,
      ⟨"cpu_cores", amount, some (.int Limits.standard.cpuCores)⟩,
      ⟨"memory_mb", amount, some (.int Limits.standard.memoryMb)⟩,
      ⟨"timeout_seconds", amount, some (.int Limits.standard.timeoutSeconds)⟩]⟩

/-- The published schemas under the names of their files. -/
def published : List (Text × Schema) :=
  [("receipt.schema.json", receipt), ("manifest.schema.json", manifest)]

/-- Writes one schema to a file of a directory. -/
def publishOne (directory : Path) (name : Text) (schema : Schema) : FileAction Path := do
  let path := directory.join (Path.ofText name)
  FileTree.writeText path (schema.toJson.render .pretty ++ "\n")
  return path

/-- Writes the published schemas to a directory, which is made if only it is missing. Gives the
report on it. -/
def publish (directory : Path) : FileAction Text := do
  set (← (← get).makeOne directory)
  let paths ← published.mapM fun entry => publishOne directory entry.1 entry.2
  let lines : List Text := paths.map fun p => "Generated: " ++ p.text ++ "\n"
  return lines.flatten ++ "\nSchema generation complete!\n"

end Schema

end WasmReceipt
