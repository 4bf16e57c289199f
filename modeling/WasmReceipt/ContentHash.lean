import WasmReceipt.FileTree
import WasmReceipt.Hash.Sha256

/-! # Content hashes

A module is named by the SHA-256 digest of its bytes: a fixed beginning and 64 lower-case
hexadecimal digits. A file is hashed in chunks as it is read. -/

namespace WasmReceipt.ContentHash

/-- The beginning of every content hash. -/
def scheme : Text := "sha256:"

def ofDigest (digest : Bytes) : Text := scheme ++ digest.toHex

def ofBytes (content : Bytes) : Text := ofDigest (Sha256.digest content)

def ofContent (content : Content) : Except Failure Text :=
  match content.encode with
  | .ok bytes => .ok (ofBytes bytes)
  | .error fault => .error (.unencodable fault)

/-- How many bytes of a file are read at a time. -/
def chunkBytes : Nat := 8192

/-- Feeds content to a hasher chunk by chunk, until there is none left. -/
def feed (hasher : Sha256.Hasher) (content : Bytes) : Sha256.Hasher :=
  let chunk := content.take chunkBytes
  if chunk.isEmpty then hasher else feed (hasher.update chunk) (content.drop chunkBytes)
termination_by content.length
decreasing_by
  rename_i h
  cases content with
  | nil => simp [chunk] at h
  | cons b rest =>
    rw [List.length_drop, List.length_cons, chunkBytes]
    omega

def ofFile (tree : FileTree) (p : Path) : Except Failure Text := do
  if ← tree.isFile p then
    let content ← tree.read p
    return ofDigest (feed .start content).digest
  else throw (.noModule p)

/-- Whether a text has the form of a content hash: the beginning and something behind it. -/
def isWellFormed (t : Text) : Bool := scheme.isPrefixOf t && t.length != scheme.length

def digits (t : Text) : Text := if scheme.isPrefixOf t then t.drop scheme.length else t

end WasmReceipt.ContentHash
