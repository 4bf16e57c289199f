import WasmReceipt.Failure

/-! # File trees

The files that a command sees: directories and regular files under a root, what it may do with them,
and the working directory that relative paths start from. A path is followed name by name, so that a
name behind something that is no directory is refused even if a double dot would take it back.

Opening a file for writing empties it before anything is written. A text that turns out not to be
encodable therefore leaves an empty file behind, which the actions keep apart from success. -/

namespace WasmReceipt

/-- A place in a file tree: the names from its root. -/
abbrev Location := List Text

/-- What stands at a place. A file is private when only its owner may read it. -/
inductive Entry where
  | directory
  | file (content : Bytes) (isPrivate : Bool)
deriving DecidableEq

/-- What may be denied at a place: to look names up in a directory, to read a file, to write to a
file or add to a directory, and to say who may do so, which is up to the owner. -/
inductive Access where
  | search
  | read
  | write
  | own
deriving DecidableEq

/-- Places with their entries, what is denied at them, and the working directory. The root is always
there. -/
structure FileTree where
  workingDirectory : Location
  entries : List (Location × Entry)
  denied : List (Location × Access)

namespace FileTree

/-- The tree that holds a working directory and nothing else. -/
def empty (workingDirectory : Location) : FileTree :=
  ⟨workingDirectory,
    (List.range workingDirectory.length).map fun n => (workingDirectory.take (n + 1), .directory), []⟩

def get? (tree : FileTree) (place : Location) : Option Entry :=
  if place.isEmpty then some .directory else tree.entries.lookup place

def allows (tree : FileTree) (place : Location) (access : Access) : Bool :=
  !tree.denied.contains (place, access)

/-- Nothing is denied at a place any more. -/
def grant (tree : FileTree) (place : Location) : FileTree :=
  { tree with denied := tree.denied.filter fun d => d.1 != place }

/-- Puts an entry at a place. Nothing is denied of what is new there. -/
def put (tree : FileTree) (place : Location) (entry : Entry) : FileTree where
  workingDirectory := tree.workingDirectory
  entries := (place, entry) :: tree.entries.filter fun e => e.1 != place
  denied := if (tree.get? place).isSome then tree.denied else (tree.grant place).denied

def erase (tree : FileTree) (place : Location) : FileTree :=
  { tree with entries := tree.entries.filter fun e => e.1 != place }

/-! ## Following paths -/

/-- Whether a code point stands for a byte of a name that is no UTF-8. -/
def isByteEscape (c : CodePoint) : Bool := 0xDC80 ≤ c.val && c.val < 0xDD00

/-- The bytes that the system is given for a text. -/
def systemBytes (t : Text) : Bytes :=
  t.flatMap fun c => if isByteEscape c then [UInt8.ofNat (c.val - 0xDC00)] else Utf8.encodeChar c

/-- The longest name, in bytes. -/
def maxNameBytes : Nat := 255

/-- The longest path, in bytes. -/
def maxPathBytes : Nat := 4095

/-- The place that names lead to. Each is looked up in what stands where the names before it
lead. -/
def follow (tree : FileTree) (place : Location) : List Text → Except PathTrouble Location
  | [] => .ok place
  | name :: rest =>
    match tree.get? place with
    | none => .error .notFound
    | some (.file _ _) => .error .notDirectory
    | some .directory =>
      if !tree.allows place .search then .error .denied
      else if maxNameBytes < (systemBytes name).length then .error .nameTooLong
      else follow tree (Path.follow place name) rest

/-- The first surrogate of a path that stands for no byte of a name. -/
def unencodable? (t : Text) : Option Utf8.EncodeFault :=
  Utf8.firstRefused (fun c => c.isSurrogate && !isByteEscape c) t

/-- A path that the system can be asked about. -/
def sayable (p : Path) : Except Failure Unit :=
  match unencodable? p.text with
  | some fault => .error (.unencodable fault)
  | none => if p.text.any (·.val == 0) then .error .nulInPath else .ok ()

/-- Where a path starts from. -/
def origin (tree : FileTree) (p : Path) : Location :=
  if p.root.isEmpty then tree.workingDirectory else []

/-- The place that a path leads to. -/
def reach (tree : FileTree) (p : Path) : Except PathTrouble Location :=
  if maxPathBytes < (systemBytes p.text).length then .error .nameTooLong
  else tree.follow (tree.origin p) p.names

/-- The place of a path, which need not be there. -/
def locate (tree : FileTree) (p : Path) : Except Failure Location := do
  sayable p
  (tree.reach p).mapError fun trouble => .path trouble p

/-- The absolute path without double dots. The system is asked about every beginning of the path, so
what is told of a name that cannot be said is its position in such a beginning. -/
def resolve (tree : FileTree) (p : Path) : Except Failure Path := do
  let start : Path := ⟨p.root.take 1, []⟩
  let _ ← p.names.foldlM (fun seen name => do
    let seen := seen.along name
    sayable seen
    return seen) start
  return p.resolve tree.workingDirectory

/-- Whether a trouble with a path says that nothing is there. -/
def saysNothing : PathTrouble → Bool
  | .notFound | .notDirectory => true
  | _ => false

/-- Whether a path leads to a regular file. A path that cannot be said leads to none. -/
def isFile (tree : FileTree) (p : Path) : Except Failure Bool :=
  match tree.locate p with
  | .ok place =>
    match tree.get? place with
    | some (.file _ _) => .ok true
    | _ => .ok false
  | .error (.path trouble q) => if saysNothing trouble then .ok false else .error (.path trouble q)
  | .error _ => .ok false

def read (tree : FileTree) (p : Path) : Except Failure Bytes := do
  let place ← tree.locate p
  match tree.get? place with
  | none => .error (.path .notFound p)
  | some entry =>
    if !tree.allows place .read then .error (.path .denied p)
    else
      match entry with
      | .file content _ => .ok content
      | .directory => .error (.path .isDirectory p)

end FileTree

/-! ## Actions -/

/-- An action on a file tree. What it changed before it failed stays changed. -/
abbrev FileAction := ExceptT Failure (StateM FileTree)

namespace FileTree

/-- The place of a file that may be written, which need not be there yet, and whether it is
private. -/
def target (tree : FileTree) (p : Path) : Except Failure (Location × Bool) := do
  let place ← tree.locate p
  match tree.get? place with
  | some .directory => .error (.path .isDirectory p)
  | some (.file _ isPrivate) =>
    if tree.allows place .write then .ok (place, isPrivate) else .error (.path .denied p)
  | none => if tree.allows place.dropLast .write then .ok (place, false) else .error (.path .denied p)

/-- Opens a file for writing: makes it or empties it, and gives its place and whether it is
private. -/
def openForWriting (p : Path) : FileAction (Location × Bool) := do
  let (place, isPrivate) ← (← get).target p
  modify (·.put place (.file [] isPrivate))
  return (place, isPrivate)

def writeText (p : Path) (t : Text) : FileAction Unit := do
  let (place, isPrivate) ← openForWriting p
  match Utf8.encode t with
  | .ok bytes => modify (·.put place (.file bytes isPrivate))
  | .error fault => throw (.unencodable fault)

/-- Makes one directory, unless it is there. -/
def makeOne (tree : FileTree) (p : Path) : Except Failure FileTree := do
  let place ← tree.locate p
  match tree.get? place with
  | some .directory => .ok tree
  | some (.file _ _) => .error (.path .exists p)
  | none =>
    if tree.allows place.dropLast .write then .ok (tree.put place .directory)
    else .error (.path .denied p)

/-- Makes a directory and those on the way to it that are missing. -/
def makeDirectories (tree : FileTree) (p : Path) : FileTree × Except Failure Unit :=
  match tree.makeOne p with
  | .ok made => (made, .ok ())
  | .error failure =>
    if failure = .path .notFound p ∧ p.names ≠ [] then
      match makeDirectories tree p.parent with
      | (made, .error failure) => (made, .error failure)
      | (made, .ok ()) =>
        match made.makeOne p with
        | .ok made => (made, .ok ())
        | .error failure => (made, .error failure)
    else (tree, .error failure)
termination_by p.names.length
decreasing_by
  rename_i h
  have := List.length_pos_iff.2 h.2
  simp only [Path.parent, List.length_dropLast]
  omega

def makeDirectory (p : Path) : FileAction Unit := do
  let (tree, outcome) := (← get).makeDirectories p
  set tree
  match outcome with
  | .ok () => return
  | .error failure => throw failure

/-- Keeps a file to its owner, who may then read and write it. -/
def protect (p : Path) : FileAction Unit := do
  let tree ← get
  let place ← tree.locate p
  match tree.get? place with
  | none => throw (.path .notFound p)
  | some entry =>
    if !tree.allows place .own then throw (.path .notOwner p)
    else
      match entry with
      | .file content _ => set ((tree.put place (.file content true)).grant place)
      | .directory => return

/-! ## Comparing trees -/

/-- Whether an entry is new at its place, or a file with other content. -/
def isChanged (before : FileTree) (place : Location) (entry : Entry) : Bool :=
  match before.get? place, entry with
  | none, _ => true
  | some (.file old _), .file new _ => old != new
  | some .directory, .directory => false
  | _, _ => true

/-- The places below the working directory whose entries a run has changed, in the order of their
paths. -/
def changes (before after : FileTree) : List (Text × Entry) :=
  let here := after.workingDirectory
  let changed := after.entries.filter fun e => here.isPrefixOf e.1 && isChanged before e.1 e.2
  let named := changed.map fun e => (Text.join "/" (e.1.drop here.length), e.2)
  named.mergeSort fun a b => Text.le a.1 b.1

/-- Puts an entry at a relative path and directories on the way to it. -/
def place (tree : FileTree) (p : Path) (entry : Entry) : FileTree :=
  let goal := tree.workingDirectory ++ p.names
  let ways := (List.range goal.length).map fun n => goal.take n
  let missing := ways.filter fun way => (tree.get? way).isNone
  (missing.foldl (fun t way => t.put way .directory) tree).put goal entry

def remove (tree : FileTree) (p : Path) : FileTree := tree.erase (tree.workingDirectory ++ p.names)

end FileTree

end WasmReceipt
