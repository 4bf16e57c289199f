import WasmReceipt.Proofs.Json.RoundTrip
import WasmReceipt.Proofs.Receipt.Message

/-! # Receipts and their documents

A receipt whose numbers are in range has a document, and the document is read as the receipt with
the surrogate pairs in its texts joined. A receipt whose texts hold no surrogate comes back as it
was, however often it is written and read. -/

namespace WasmReceipt

namespace Receipt

variable {r : Receipt}

/-- The receipt with the surrogate pairs in its texts joined. -/
def paired (r : Receipt) : Receipt :=
  { r with
    version := r.version.paired
    moduleHash := r.moduleHash.paired
    nodeKey := r.nodeKey.paired
    signature := r.signature.paired }

theorem integersFit_toValue (hr : r.InRange) : r.toValue.integersFit = true := by
  obtain ⟨hexit, hwall, htime⟩ := hr.hasShortNumbers
  simp only [toValue, toMembers, Json.integersFit, Json.membersFit, hexit, hwall, htime, Bool.and_true]

theorem readBack_toValue (r : Receipt) : r.toValue.readBack true = r.paired.toValue := rfl

theorem write_toValue (hr : r.InRange) (layout : Json.Layout) :
    r.toValue.write layout = .ok (r.toValue.render layout) := by
  have hdepth : ¬ Json.maxDepth < r.toValue.depth := by
    have hone : r.toValue.depth = 1 := rfl
    rw [hone]
    decide
  rw [Json.write, if_neg hdepth, if_pos (integersFit_toValue hr)]

theorem toDocument_eq (hr : r.InRange) :
    r.toDocument = .ok (r.toValue.render .pretty) := by
  rw [toDocument, Json.toDocument, write_toValue hr]
  rfl

theorem inRange_paired (hr : r.InRange) : r.paired.InRange :=
  ⟨hr.minExitCode_le, hr.le_maxExitCode, hr.wallTimeMs_nonneg, hr.wallTimeMs_le,
    hr.timestamp_nonneg, hr.timestamp_le⟩

theorem ofValue_toValue (hr : r.InRange) : ofValue r.toValue = .ok r := by
  have hmembers := ofMembers_toMembers hr
  rw [ofValue, toValue]
  dsimp only [Json.membersOf, bind, Except.bind]
  rw [hmembers]
  rfl

/-- **The document of a receipt is read as that receipt**, with surrogate pairs joined. White space
may follow it. -/
theorem ofDocument_render (hr : r.InRange) {after : Text}
    (ha : ∀ c ∈ after, c.isJsonBlank = true) :
    ofDocument (.text (r.toValue.render .pretty ++ after)) = .ok r.paired := by
  have hread : Json.read (r.toValue.render .pretty ++ after) = .ok r.paired.toValue := by
    rw [← readBack_toValue]
    exact Json.read_write rfl ha (write_toValue hr .pretty)
  have hvalue : Json.ofDocument (.text (r.toValue.render .pretty ++ after)) =
      .ok r.paired.toValue := by
    rw [Json.ofDocument, Json.readDocument, if_neg]
    · rw [hread]
      rfl
    · -- the document begins with a brace
      have hhead : (r.toValue.render .pretty ++ after).head? = some (CodePoint.ofChar '\x7b') := rfl
      rw [hhead]
      decide
  rw [ofDocument, hvalue]
  exact ofValue_toValue (inRange_paired hr)

/-! ## Trips -/

def trip (r : Receipt) : Except Failure Receipt := do
  let document ← r.toDocument
  ofDocument (.text document)

/-- A receipt that is written and read so many times. -/
def trips : Nat → Receipt → Except Failure Receipt
  | 0, r => .ok r
  | n + 1, r => r.trip >>= trips n

theorem trip_eq (hr : r.InRange) : r.trip = .ok r.paired := by
  have h : ofDocument (.text (r.toValue.render .pretty ++ [])) = .ok r.paired :=
    ofDocument_render hr (by simp)
  rw [List.append_nil] at h
  rw [trip, toDocument_eq hr]
  exact h

structure IsScalar (r : Receipt) : Prop where
  version : r.version.isScalar = true
  moduleHash : r.moduleHash.isScalar = true
  nodeKey : r.nodeKey.isScalar = true
  signature : r.signature.isScalar = true

theorem paired_of_isScalar (h : r.IsScalar) : r.paired = r := by
  rw [paired, Text.paired_of_isScalar h.version, Text.paired_of_isScalar h.moduleHash,
    Text.paired_of_isScalar h.nodeKey, Text.paired_of_isScalar h.signature]

/-- **A receipt without surrogates comes back as it was from any number of trips.** -/
theorem trips_of_isScalar (hr : r.InRange) (h : r.IsScalar) (n : Nat) : r.trips n = .ok r := by
  induction n with
  | zero => rfl
  | succ n ih =>
    rw [trips, trip_eq hr, paired_of_isScalar h]
    exact ih

end Receipt

end WasmReceipt
