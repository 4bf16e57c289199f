import WasmReceipt.Proofs.CommandLine.Verification
import WasmReceipt.Proofs.FileTree.Frame
import WasmReceipt.Proofs.Receipt.Signing

/-! # The command that signs

The command reads before it writes: all that may be wrong with the receipt or with the key is found
while no file has been touched yet. What is signed is in range, so its text can always be written.
Only the file that it goes to can still be in the way, and its path, which may be one that cannot be
printed. -/

namespace WasmReceipt

namespace CommandLine

open Session

/-! ## The command in parts -/

def textOf (files : FileTree) (p : Path) : Except Failure Text := do
  let content ← files.read p
  (Utf8.decode content).mapError .notUtf8

variable {scheme : SignatureScheme} {s : Session} {isQuiet : Bool} {file key path p : Path}
  {r signed : Receipt} {t : Text} {rest : Receipt → Action Unit}

/-- What a key file makes of a receipt. -/
def attestedWith (scheme : SignatureScheme) (files : FileTree) (key : Path) (r : Receipt) :
    Except Failure Receipt := do
  r.attestWith scheme (← textOf files key)

variable {around : Circumstances} {files : FileTree} {arguments : List Text} {isVerbose : Bool}
  {out : Option Path}

namespace Sample

end Sample

end CommandLine

end WasmReceipt
