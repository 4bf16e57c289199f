import WasmReceipt.Text

/-! # Paths

A path is a root and names. Reading one from text drops empty names and single dots, so a path has
one text; double dots stay, since what they mean depends on the files. -/

namespace WasmReceipt

/-- A path: its root (nothing, one slash or two) and its names. -/
structure Path where
  root : Text
  names : List Text
deriving DecidableEq

namespace Path

/-- The root of a text. Exactly two slashes are a root of their own. -/
def rootOf (t : Text) : Text :=
  match (t.takeWhile (·.is '/')).length with
  | 0 => []
  | 2 => "//"
  | _ => "/"

def ofText (t : Text) : Path :=
  ⟨rootOf t, (t.splitOn (CodePoint.ofChar '/')).filter fun n => !n.isEmpty && n != Text.ofString "."⟩

/-- The text of a path. The empty path is a single dot. -/
def text (p : Path) : Text :=
  if p.root.isEmpty && p.names.isEmpty then "."
  else p.root ++ Text.join "/" p.names

/-- A path inside another; an absolute path stands alone. -/
def join (p q : Path) : Path :=
  if q.root.isEmpty then ⟨p.root, p.names ++ q.names⟩ else q

def parent (p : Path) : Path := ⟨p.root, p.names.dropLast⟩

/-- Goes along one name, where a double dot goes back. -/
def follow (done : List Text) (name : Text) : List Text :=
  if name = Text.ofString ".." then done.dropLast else done ++ [name]

/-- A path continued by one name. A double dot goes back, or further up when there is nothing to go
back to; nothing is above the root. -/
def along (p : Path) (name : Text) : Path :=
  if name ≠ Text.ofString ".." then ⟨p.root, p.names ++ [name]⟩
  else if p.names.getLast?.any (· ≠ Text.ofString "..") then p.parent
  else if p.root.isEmpty then ⟨p.root, p.names ++ [name]⟩
  else p

/-- The absolute path without double dots, seen from a working directory. -/
def resolve (workingDirectory : List Text) (p : Path) : Path :=
  ⟨"/", p.names.foldl follow (if p.root.isEmpty then workingDirectory else [])⟩

end Path

end WasmReceipt
