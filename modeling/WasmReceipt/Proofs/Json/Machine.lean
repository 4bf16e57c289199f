import WasmReceipt.Proofs.Json.StringText

/-! # The reader on the tokens of a value

The tokens of a value take the reader from where a value may come to behind that value, whatever is
open around it. Further items and members go onto the frame of their array or object, so each list
has an induction of its own beside the one on values. -/

namespace WasmReceipt.Json

mutual

/-- The tokens of a value whose strings are written in printable ASCII or raw. -/
def tokensOf (ascii : Bool) : Json → List Token
  | .null => [.value .null]
  | .bool b => [.value (.bool b)]
  | .int n => [.value (.int n)]
  | .float x => [.value (.float x)]
  | .string t => [.string (reread ascii t)]
  | .array [] => [.openArray, .closeArray]
  | .array (v :: rest) =>
    .openArray :: (tokensOf ascii v ++ (itemTokens ascii rest ++ [.closeArray]))
  | .object [] => [.openObject, .closeObject]
  | .object ((name, v) :: rest) =>
    .openObject :: .string (reread ascii name) :: .colon ::
      (tokensOf ascii v ++ (memberTokens ascii rest ++ [.closeObject]))

def itemTokens (ascii : Bool) : List Json → List Token
  | [] => []
  | v :: rest => .comma :: (tokensOf ascii v ++ itemTokens ascii rest)

def memberTokens (ascii : Bool) : List (Text × Json) → List Token
  | [] => []
  | (name, v) :: rest =>
    .comma :: .string (reread ascii name) :: .colon ::
      (tokensOf ascii v ++ memberTokens ascii rest)

end

mutual

/-- What a value comes back as: a name that comes again replaces the value that it had. -/
def readBack (ascii : Bool) : Json → Json
  | .string t => .string (reread ascii t)
  | .array items => .array (readBackItems ascii items)
  | .object members => .object (readBackMembers ascii [] members)
  | v => v

def readBackItems (ascii : Bool) : List Json → List Json
  | [] => []
  | v :: rest => readBack ascii v :: readBackItems ascii rest

/-- What members come back as, behind the members so far. -/
def readBackMembers (ascii : Bool) (done : Members) : List (Text × Json) → Members
  | [] => done
  | (name, v) :: rest =>
    readBackMembers ascii (done.set (reread ascii name) (readBack ascii v)) rest

end

/-! ## Steps -/

def Expect.ReadsValue (expect : Expect) : Prop := expect = .value ∨ expect = .item

variable {stack stack' : List Frame} {expect expect' : Expect} {token : Token} {ts : List Token}

theorem run_cons (stack' : List Frame) (expect' : Expect)
    (h : step stack expect token = .ok (stack', expect')) :
    run stack expect (token :: ts) = run stack' expect' ts := by
  rw [run, h]

/-- The end of an array begins no value, so it makes no difference that it may come. -/
theorem run_beginValue (he : expect.ReadsValue)
    (h : beginValue stack token = .ok (stack', expect')) :
    run stack expect (token :: ts) = run stack' expect' ts := by
  refine run_cons _ _ ?_
  rcases he with rfl | rfl
  · exact h
  · cases token with
    | closeArray => cases h
    | _ => exact h

theorem run_openArray (he : expect.ReadsValue) (hd : stack.length < maxDepth) :
    run stack expect (.openArray :: ts) = run (.array [] :: stack) .item ts :=
  run_beginValue he (by rw [beginValue, if_pos hd])

theorem run_openObject (he : expect.ReadsValue) (hd : stack.length < maxDepth) :
    run stack expect (.openObject :: ts) = run stack .member ts :=
  run_beginValue he (by rw [beginValue, if_pos hd])

/-- The name of a first member, with its colon. -/
theorem run_firstName (name : Text) :
    run stack .member (.string name :: .colon :: ts) =
      run (.object [] name :: stack) .value ts := by
  rw [run_cons stack (.colon [] name) rfl]
  exact run_cons _ _ rfl

/-- A comma, the name of a further member and its colon. -/
theorem run_nextName (done : Members) (before : Text) (v : Json) (name : Text) :
    run (.object done before :: stack) (.after v) (.comma :: .string name :: .colon :: ts) =
      run (.object (done.set before v) name :: stack) .value ts := by
  rw [run_cons stack (.name (done.set before v)) rfl,
    run_cons stack (.colon (done.set before v) name) rfl]
  exact run_cons _ _ rfl

/-! ## Values -/

mutual

/-- **The reader takes the tokens of a value to what it comes back as**, as long as the arrays and
objects around it and in it do not nest too deep. -/
theorem run_tokensOf (ascii : Bool) : ∀ (v : Json) (stack : List Frame) (expect : Expect)
    (ts : List Token), expect.ReadsValue → stack.length + v.depth ≤ maxDepth →
    run stack expect (tokensOf ascii v ++ ts) = run stack (.after (readBack ascii v)) ts
  | .null, stack, expect, ts, he, _ => run_beginValue he rfl
  | .bool b, stack, expect, ts, he, _ => run_beginValue he rfl
  | .int n, stack, expect, ts, he, _ => run_beginValue he rfl
  | .float x, stack, expect, ts, he, _ => run_beginValue he rfl
  | .string t, stack, expect, ts, he, _ => run_beginValue he rfl
  | .array [], stack, expect, ts, he, hd => by
    rw [depth] at hd
    simp only [tokensOf, List.cons_append, List.nil_append]
    rw [run_openArray he (by omega)]
    exact run_cons _ _ rfl
  | .array (v :: rest), stack, expect, ts, he, hd => by
    rw [depth, itemsDepth] at hd
    simp only [tokensOf, List.cons_append, List.append_assoc, List.nil_append]
    rw [run_openArray he (by omega),
      run_tokensOf ascii v (.array [] :: stack) .item _ (.inr rfl)
        (by rw [List.length_cons]; omega),
      run_itemTokens ascii rest [] (readBack ascii v) stack ts (by omega)]
    rfl
  | .object [], stack, expect, ts, he, hd => by
    rw [depth] at hd
    simp only [tokensOf, List.cons_append, List.nil_append]
    rw [run_openObject he (by omega)]
    exact run_cons _ _ rfl
  | .object ((name, v) :: rest), stack, expect, ts, he, hd => by
    rw [depth, membersDepth] at hd
    simp only [tokensOf, List.cons_append, List.append_assoc, List.nil_append]
    rw [run_openObject he (by omega), run_firstName,
      run_tokensOf ascii v _ .value _ (.inl rfl) (by rw [List.length_cons]; omega),
      run_memberTokens ascii rest [] (reread ascii name) (readBack ascii v) stack ts (by omega)]
    rfl

/-- Further items and the end of their array. -/
theorem run_itemTokens (ascii : Bool) : ∀ (items done : List Json) (v : Json)
    (stack : List Frame) (ts : List Token), stack.length + 1 + itemsDepth items ≤ maxDepth →
    run (.array done :: stack) (.after v) (itemTokens ascii items ++ .closeArray :: ts) =
      run stack (.after (.array (done.reverse ++ v :: readBackItems ascii items))) ts
  | [], done, v, stack, ts, _ => by
    have hend : (v :: done).reverse = done.reverse ++ [v] := List.reverse_cons
    rw [itemTokens, readBackItems, ← hend]
    exact run_cons _ _ rfl
  | w :: rest, done, v, stack, ts, hd => by
    rw [itemsDepth] at hd
    simp only [itemTokens, List.cons_append, List.append_assoc]
    rw [run_cons (.array (v :: done) :: stack) .value rfl,
      run_tokensOf ascii w _ .value _ (.inl rfl) (by rw [List.length_cons]; omega),
      run_itemTokens ascii rest (v :: done) (readBack ascii w) stack ts (by omega)]
    simp [readBackItems]

/-- Further members and the end of their object. -/
theorem run_memberTokens (ascii : Bool) : ∀ (members done : Members) (name : Text)
    (v : Json) (stack : List Frame) (ts : List Token),
    stack.length + 1 + membersDepth members ≤ maxDepth →
    run (.object done name :: stack) (.after v) (memberTokens ascii members ++ .closeObject :: ts) =
      run stack (.after (.object (readBackMembers ascii (done.set name v) members))) ts
  | [], done, name, v, stack, ts, _ => run_cons _ _ rfl
  | (next, w) :: rest, done, name, v, stack, ts, hd => by
    rw [membersDepth] at hd
    simp only [memberTokens, List.cons_append, List.append_assoc]
    rw [run_nextName, run_tokensOf ascii w _ .value _ (.inl rfl) (by rw [List.length_cons]; omega),
      run_memberTokens ascii rest (done.set name v) (reread ascii next) (readBack ascii w) stack ts
        (by omega)]
    rfl

end

/-- The tokens of a value that does not nest too deep are read as what it comes back as. -/
theorem run_tokensOf_document (ascii : Bool) {v : Json} (hd : v.depth ≤ maxDepth) :
    run [] .value (tokensOf ascii v) = .ok (readBack ascii v) := by
  have h := run_tokensOf ascii v [] .value [] (.inl rfl) (by simpa using hd)
  rw [List.append_nil] at h
  rw [h]
  rfl

end WasmReceipt.Json
