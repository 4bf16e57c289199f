import WasmReceipt.FileTree

/-! # Documents of records

Receipts and manifests are read from JSON documents in text or bytes and written with an indent of
two in printable ASCII. The causes of failure are those of the reader and the writer. -/

namespace WasmReceipt

def Failure.ofDocument : Json.DocumentFault → Failure
  | .encoding fault => .undecodable fault
  | .content (.text fault) => .unreadable fault
  | .content (.longInteger digits) => .longInteger digits
  | .content .tooDeep => .tooDeep

def Failure.ofWriting : Json.WriteFault → Failure
  | .longInteger => .longIntegerText
  | .tooDeep => .tooDeep

namespace Json

def ofDocument (document : Content) : Except Failure Json :=
  (readDocument document).mapError .ofDocument

/-- The document of a value, with an indent. -/
def toDocument (v : Json) : Except Failure Text := (v.write .pretty).mapError .ofWriting

/-- The one text of a value up to the order of members. -/
def toCanonical (v : Json) : Except Failure Text := v.canonical.mapError .ofWriting

def membersOf (kind : DocumentKind) : Json → Except Failure Members
  | .object ms => .ok ms
  | _ => .error (.notObject kind)

end Json

/-- Writes a report: the canonical text of an object and a line feed, as a file in a directory that
is made if it is missing. Gives the path of the file. -/
def writeReport (directory : Path) (name : Text) (report : Json) : FileAction Path := do
  FileTree.makeDirectory directory
  let path := directory.join (Path.ofText name)
  match report.toCanonical with
  | .ok t => FileTree.writeText path (t ++ "\n")
  | .error failure => throw failure
  return path

end WasmReceipt
