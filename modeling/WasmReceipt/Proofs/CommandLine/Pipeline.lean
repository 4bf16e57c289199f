import WasmReceipt.Proofs.CommandLine.Signing
import WasmReceipt.Proofs.FileTree.Absolute

/-! # From a new key to a receipt that checks out

Three commands hand files to each other: one makes a key, one signs a receipt with it, and one
verifies what was signed. What each writes is what the next one reads, whatever the receipt says and
whoever vouched for it before. -/

namespace WasmReceipt.CommandLine

open Session

variable {scheme : SignatureScheme} {around : Circumstances} {files : FileTree} {s : Session}
  {receipt path key out : Path} {seed : Bytes} {r signed : Receipt} {t : Text}

/-! ## Commands on files -/

section

variable {keyed after : FileTree} {content : Bytes}

end

namespace Sample

end Sample

namespace Sample

end Sample

end WasmReceipt.CommandLine
