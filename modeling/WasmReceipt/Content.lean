import WasmReceipt.Text.Utf8

/-! # Content

What is hashed, parsed or fed to a module comes as text or as bytes. Text stands for its UTF-8
bytes, except where a document in text is read as it is. -/

namespace WasmReceipt

/-- Content as text or as bytes. -/
inductive Content where
  | text (t : Text)
  | bytes (b : Bytes)

namespace Content

def encode : Content → Except Utf8.EncodeFault Bytes
  | text t => Utf8.encode t
  | bytes b => .ok b

end Content

end WasmReceipt
