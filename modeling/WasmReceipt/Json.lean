import WasmReceipt.Binary64

/-! # JSON values

The members of an object keep the order in which their names first came; a name stands for one
value, the last that it was given. -/

namespace WasmReceipt

/-- A JSON value. A number is an integer or a double, by the way it is written. -/
inductive Json where
  | null
  | bool (value : Bool)
  | int (value : Int)
  | float (value : Binary64)
  | string (value : Text)
  | array (items : List Json)
  | object (members : List (Text × Json))

namespace Json

/-- The members of an object, in order. -/
abbrev Members := List (Text × Json)

namespace Members

def get? (ms : Members) (name : Text) : Option Json := ms.lookup name

/-- Gives a name a value: in its place if it has one, else behind the others. -/
def set (name : Text) (value : Json) : Members → Members
  | [] => [(name, value)]
  | (n, v) :: rest => if n = name then (name, value) :: rest else (n, v) :: set name value rest

def update (ms changes : Members) : Members :=
  changes.foldl (fun done m => set m.1 m.2 done) ms

end Members

def ofFields (fields : List (String × Json)) : Json :=
  .object (fields.map fun f => (Text.ofString f.1, f.2))

end Json

end WasmReceipt
