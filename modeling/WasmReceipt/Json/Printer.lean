import WasmReceipt.Binary64.Shortest
import WasmReceipt.Json.Reader

/-! # Writing JSON

A value is written in one of two layouts, on one line or with an indent, and with text either in
printable ASCII or with all but the controls raw. A value that cannot be read back within the
limits on integers and nesting is not written at all. -/

namespace WasmReceipt.Json

/-- How a value is written: the width of an indent if there is one, and whether all text is
written in printable ASCII. -/
structure Layout where
  indent : Option Nat
  ascii : Bool

/-- The escape of one unit of sixteen bits. -/
def unitEscape (n : Nat) : Text := "\\u" ++ Text.hexOfNat 4 n

def stringChar (ascii : Bool) (c : CodePoint) : Text :=
  if c.is '"' then "\\\""
  else if c.is '\\' then "\\\\"
  else if c.val = 0x08 then "\\b"
  else if c.val = 0x0C then "\\f"
  else if c.val = 0x0A then "\\n"
  else if c.val = 0x0D then "\\r"
  else if c.val = 0x09 then "\\t"
  else if c.val < 0x20 then unitEscape c.val
  else if !ascii || c.val < 0x7F then [c]
  else if c.val < 0x10000 then unitEscape c.val
  else
    unitEscape (0xD800 + (c.val - 0x10000) / 0x400) ++
      unitEscape (0xDC00 + (c.val - 0x10000) % 0x400)

def stringText (ascii : Bool) (t : Text) : Text :=
  "\"" ++ t.flatMap (stringChar ascii) ++ "\""

/-- A line feed and an indent, or nothing on one line. -/
def Layout.newLine (layout : Layout) (level : Nat) : Text :=
  match layout.indent with
  | none => []
  | some width => "\n" ++ List.replicate (width * level) (CodePoint.ofChar ' ')

def Layout.colon (layout : Layout) : Text :=
  match layout.indent with
  | none => ":"
  | some _ => ": "

def withoutZeros (digits : Text) : Text :=
  (digits.reverse.dropWhile (·.is '0')).reverse

/-- The text of a positive decimal by its digits and the power of ten of the first one. It is
written with a point from the fourth place behind the point up to sixteen before it, and with an
exponent of at least two digits elsewhere. -/
def decimalText (digits : Text) (magnitude : Int) : Text :=
  let zeros (n : Nat) : Text := List.replicate n (CodePoint.ofChar '0')
  if magnitude < -4 ∨ 16 ≤ magnitude then
    let first : Text := digits.take 1
    let others : Text := digits.drop 1
    let point : Text := if others.isEmpty then [] else "."
    let sign : Text := if magnitude < 0 then "-" else "+"
    let power := Decimal.ofNat magnitude.natAbs
    first ++ point ++ others ++ "e" ++ sign ++ zeros (2 - power.length) ++ power
  else if magnitude < 0 then "0." ++ zeros (magnitude.natAbs - 1) ++ digits
  else
    let whole := magnitude.toNat + 1
    let digits := digits ++ zeros (whole + 1 - digits.length)
    let before : Text := digits.take whole
    let behind : Text := digits.drop whole
    before ++ "." ++ behind

/-- The text of a double: its shortest decimal. -/
def floatText : Binary64 → Text
  | .nan => "NaN"
  | .infinite negative => if negative then "-Infinity" else "Infinity"
  | .finite negative mantissa exponent =>
    let sign : Text := if negative then "-" else []
    if mantissa = 0 then sign ++ "0.0"
    else
      let (n, grid) := Binary64.shortest mantissa exponent
      let digits := Decimal.ofNat n
      sign ++ decimalText (withoutZeros digits) (grid + digits.length - 1)

mutual

/-- The text of a value, inside the given count of arrays and objects. -/
def renderAt (layout : Layout) (level : Nat) : Json → Text
  | .null => "null"
  | .bool true => "true"
  | .bool false => "false"
  | .int n => Decimal.ofInt n
  | .float x => floatText x
  | .string t => stringText layout.ascii t
  | .array [] => "[]"
  | .array (v :: rest) =>
    "[" ++ layout.newLine (level + 1) ++ renderAt layout (level + 1) v ++
      renderItems layout (level + 1) rest ++ layout.newLine level ++ "]"
  | .object [] => "\x7b\x7d"
  | .object ((name, v) :: rest) =>
    "\x7b" ++ layout.newLine (level + 1) ++ stringText layout.ascii name ++ layout.colon ++
      renderAt layout (level + 1) v ++ renderMembers layout (level + 1) rest ++
      layout.newLine level ++ "\x7d"

/-- The text of further items of an array. -/
def renderItems (layout : Layout) (level : Nat) : List Json → Text
  | [] => []
  | v :: rest =>
    "," ++ layout.newLine level ++ renderAt layout level v ++ renderItems layout level rest

def renderMembers (layout : Layout) (level : Nat) : List (Text × Json) → Text
  | [] => []
  | (name, v) :: rest =>
    "," ++ layout.newLine level ++ stringText layout.ascii name ++ layout.colon ++
      renderAt layout level v ++ renderMembers layout level rest

end

/-- The text of a value, whatever it holds. -/
def render (layout : Layout) (v : Json) : Text := renderAt layout 0 v

/-! ## Limits -/

/-- Why a value is not written. -/
inductive WriteFault where
  | longInteger
  | tooDeep
deriving DecidableEq

mutual

/-- How deep the arrays and objects of a value nest. -/
def depth : Json → Nat
  | .array items => itemsDepth items + 1
  | .object members => membersDepth members + 1
  | _ => 0

def itemsDepth : List Json → Nat
  | [] => 0
  | v :: rest => max (depth v) (itemsDepth rest)

def membersDepth : List (Text × Json) → Nat
  | [] => 0
  | (_, v) :: rest => max (depth v) (membersDepth rest)

end

mutual

/-- Whether no integer in a value is too long to be written. -/
def integersFit : Json → Bool
  | .int n => Decimal.isWritable n
  | .array items => itemsFit items
  | .object members => membersFit members
  | _ => true

def itemsFit : List Json → Bool
  | [] => true
  | v :: rest => integersFit v && itemsFit rest

def membersFit : List (Text × Json) → Bool
  | [] => true
  | (_, v) :: rest => integersFit v && membersFit rest

end

/-- The text of a value that keeps the limits. -/
def write (layout : Layout) (v : Json) : Except WriteFault Text :=
  if maxDepth < depth v then .error .tooDeep
  else if integersFit v then .ok (render layout v)
  else .error .longInteger

/-! ## Canonical form -/

/-- The order of members by name. -/
def memberLe (a b : Text × Json) : Bool := Text.le a.1 b.1

mutual

/-- A value with the members of every object in the order of their names. -/
def sorted : Json → Json
  | .array items => .array (sortedItems items)
  | .object members => .object ((sortedMembers members).mergeSort memberLe)
  | v => v

def sortedItems : List Json → List Json
  | [] => []
  | v :: rest => sorted v :: sortedItems rest

/-- The members with the members of their values in order. -/
def sortedMembers : List (Text × Json) → List (Text × Json)
  | [] => []
  | (name, v) :: rest => (name, sorted v) :: sortedMembers rest

end

/-- One line, all text raw. -/
def Layout.compact : Layout := ⟨none, false⟩

/-- An indent of two, all text in printable ASCII. -/
def Layout.pretty : Layout := ⟨some 2, true⟩

/-- The one text of a value up to the order of members: names in order, no space, all text raw. -/
def canonical (v : Json) : Except WriteFault Text := write .compact (sorted v)

end WasmReceipt.Json
