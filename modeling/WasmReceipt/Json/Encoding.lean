import WasmReceipt.Content
import WasmReceipt.Text.Units
import WasmReceipt.Json.Reader

/-! # JSON documents as text or bytes

A document in bytes tells its encoding: by a byte order mark, or else by where zeros stand among
its first four bytes, since it begins with ASCII. A byte order mark is no part of the text; a
document in text may not begin with one. -/

namespace WasmReceipt.Json

/-- How the bytes of a document spell its text. -/
inductive Encoding where
  | utf8
  | utf16 (order : Units.ByteOrder)
  | utf32 (order : Units.ByteOrder)
deriving DecidableEq

/-- The byte order marks, in the order in which they are tried: one of them begins with another. -/
def byteOrderMarks : List (Bytes × Encoding) :=
  [([0x00, 0x00, 0xFE, 0xFF], .utf32 .big), ([0xFF, 0xFE, 0x00, 0x00], .utf32 .little),
    ([0xFE, 0xFF], .utf16 .big), ([0xFF, 0xFE], .utf16 .little), ([0xEF, 0xBB, 0xBF], .utf8)]

/-- The encoding of a document without a mark. -/
def unmarked : Bytes → Encoding
  | a :: b :: c :: d :: _ =>
    if a = 0 then if b = 0 then .utf32 .big else .utf16 .big
    else if b = 0 then if c = 0 ∧ d = 0 then .utf32 .little else .utf16 .little
    else .utf8
  | [a, b] => if a = 0 then .utf16 .big else if b = 0 then .utf16 .little else .utf8
  | _ => .utf8

/-- The encoding of a document, and how many of its bytes are a byte order mark. -/
def detect (bytes : Bytes) : Encoding × Nat :=
  match byteOrderMarks.find? (·.1.isPrefixOf bytes) with
  | some (mark, encoding) => (encoding, mark.length)
  | none => (unmarked bytes, 0)

/-- Why bytes are no text in their encoding. -/
inductive EncodingFault where
  | utf8 (reason : Utf8.Reason)
  | units (reason : Units.Reason)
deriving DecidableEq

/-- The text of a document in bytes. -/
def decode (bytes : Bytes) : Except EncodingFault Text :=
  let (encoding, mark) := detect bytes
  let body := bytes.drop mark
  match encoding with
  | .utf8 => (Utf8.decodeLoose body).mapError .utf8
  | .utf16 order => (Units.decode16 order body).mapError .units
  | .utf32 order => (Units.decode32 order body).mapError .units

/-- Why a document gives no value. -/
inductive DocumentFault where
  | encoding (fault : EncodingFault)
  | content (fault : ReadFault)
deriving DecidableEq

def readDocument : Content → Except DocumentFault Json
  | .text t =>
    if t.head?.any (·.val == 0xFEFF) then .error (.content (.text .byteOrderMark))
    else (Json.read t).mapError .content
  | .bytes b =>
    match decode b with
    | .ok t => (Json.read t).mapError .content
    | .error fault => .error (.encoding fault)

end WasmReceipt.Json
