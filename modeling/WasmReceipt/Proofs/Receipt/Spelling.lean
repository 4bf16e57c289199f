import WasmReceipt.Proofs.Json.Grammar
import WasmReceipt.Proofs.Receipt.Fields
import WasmReceipt.Receipt.Attestation

/-! # Documents that spell the same receipt

A document spells a receipt when it spells an object in which the last member of each name gives the
field of that name. How strings and numbers are written, what other members there are and what white
space stands between tokens makes no difference. -/

namespace WasmReceipt.Receipt

variable {r : Receipt} {ms : Json.Members} {t : Text}

/-- A text spells the receipt: an object that does not nest too deep, in which the last members of
their names give the fields. -/
def SpelledBy (r : Receipt) (t : Text) : Prop :=
  ∃ ms, Json.SpellsSpaced t (.object ms) ∧ Json.depth (.object ms) ≤ Json.maxDepth ∧
    r.GivenBy ms.reverse

/-! ## Members that are read back -/

theorem readBack_eq_string_iff {v : Json} {s : Text} :
    v.readBack false = .string s ↔ v = .string s := by
  cases v <;> simp [Json.readBack, Json.reread]

theorem readBack_eq_int_iff {v : Json} {n : Int} : v.readBack false = .int n ↔ v = .int n := by
  cases v <;> simp [Json.readBack]

theorem get?_readBack (ms : Json.Members) (name : Text) :
    (Json.readBackMembers false [] ms).get? name =
      (Json.Members.get? ms.reverse name).map (Json.readBack false) := by
  rw [Json.get?_readBackMembers]
  exact Option.or_none

/-- What a document gives a receipt is what its last members do. -/
theorem givenBy_readBack_iff :
    r.GivenBy (Json.readBackMembers false [] ms) ↔ r.GivenBy ms.reverse := by
  have hstring (name s : Text) :
      (Json.readBackMembers false [] ms).get? name = some (.string s) ↔
        Json.Members.get? ms.reverse name = some (.string s) := by
    simp only [get?_readBack, Option.map_eq_some_iff, readBack_eq_string_iff, exists_eq_right]
  have hint (name : Text) (n : Int) :
      (Json.readBackMembers false [] ms).get? name = some (.int n) ↔
        Json.Members.get? ms.reverse name = some (.int n) := by
    simp only [get?_readBack, Option.map_eq_some_iff, readBack_eq_int_iff, exists_eq_right]
  have hoptional (name s : Text) :
      ((Json.readBackMembers false [] ms).get? name).getD (.string []) = .string s ↔
        (Json.Members.get? ms.reverse name).getD (.string []) = .string s := by
    rw [get?_readBack]
    cases Json.Members.get? ms.reverse name with
    | none => rfl
    | some v => exact readBack_eq_string_iff
  constructor
  · intro h
    exact ⟨(hstring _ _).mp h.version, (hstring _ _).mp h.moduleHash, (hint _ _).mp h.exitCode,
      (hint _ _).mp h.wallTimeMs, (hint _ _).mp h.timestamp, (hoptional _ _).mp h.nodeKey,
      (hoptional _ _).mp h.signature⟩
  · intro h
    exact ⟨(hstring _ _).mpr h.version, (hstring _ _).mpr h.moduleHash, (hint _ _).mpr h.exitCode,
      (hint _ _).mpr h.wallTimeMs, (hint _ _).mpr h.timestamp, (hoptional _ _).mpr h.nodeKey,
      (hoptional _ _).mpr h.signature⟩

/-! ## Documents -/

/-- **Which receipt a document of the grammar is read as**: the one with numbers in range whose
fields the last members give, if there is one. -/
theorem ofDocument_eq_ok_iff_of_spells (h : Json.SpellsSpaced t (.object ms))
    (hd : Json.depth (.object ms) ≤ Json.maxDepth) :
    ofDocument (.text t) = .ok r ↔ r.InRange ∧ r.GivenBy ms.reverse := by
  have hmark : t.head?.any (·.val == 0xFEFF) = false := by
    obtain ⟨c, d, rest, rfl, -, hc, -⟩ := Json.beginsAscii_of_spells h
    simp only [List.head?_cons, Option.any_some, beq_eq_false_iff_ne]
    omega
  have hread : Json.ofDocument (.text t) = .ok (.object (Json.readBackMembers false [] ms)) := by
    rw [Json.ofDocument, Json.readDocument, hmark, Json.read_of_spells h hd]
    rfl
  rw [ofDocument, hread, ← givenBy_readBack_iff, ← ofMembers_eq_valid_iff]
  exact Checked.orFail_eq_ok_iff

/-- A document of the grammar is read from UTF-8 like from its text. -/
theorem ofDocument_encodeLoose (h : Json.SpellsSpaced t (.object ms)) :
    ofDocument (.bytes (Utf8.encodeLoose t)) = ofDocument (.text t) := by
  rw [ofDocument, ofDocument, Json.ofDocument, Json.ofDocument,
    Json.readDocument_encodeLoose (Json.beginsAscii_of_spells h)]

/-- **All spellings of a receipt are read as that receipt**, from text and from UTF-8, and so they
verify alike. -/
theorem ofDocument_of_spelledBy (hr : r.InRange) (h : r.SpelledBy t) :
    ofDocument (.text t) = .ok r ∧
      (t.isScalar = true →
        ∃ bytes, Utf8.encode t = .ok bytes ∧ ofDocument (.bytes bytes) = .ok r) ∧
      ∀ (scheme : SignatureScheme) (key : Option Text),
        (ofDocument (.text t) >>= fun s => s.verify scheme key) = r.verify scheme key := by
  obtain ⟨ms, hspells, hdepth, hgiven⟩ := h
  have hread : ofDocument (.text t) = .ok r :=
    (ofDocument_eq_ok_iff_of_spells hspells hdepth).mpr ⟨hr, hgiven⟩
  refine ⟨hread, ?_, ?_⟩
  · intro ht
    refine ⟨Utf8.encodeLoose t, Utf8.encode_of_isScalar ht, ?_⟩
    rw [ofDocument_encodeLoose hspells, hread]
  · intro scheme key
    rw [hread]
    rfl

/-- A spelling with a number of freedoms: an unknown member with values in it, an earlier member of
the same name, escapes in a name and in values, a zero with a minus, and no key and no signature. -/
theorem ofDocument_emoji_version :
    let r : Receipt := ⟨[CodePoint.ofNat 0x1F600], "a/b", 0, 12, 7, [], []⟩
    let t : Text := "\x7b\"x\":[-0, null], \"version\":7,\"\\u0076ersion\":\"\\ud83d\\uDE00\"," ++
      "\"module_hash\":\"a\\/b\",\"exit_code\":-0,\"wall_time_ms\":12,\"timestamp\":7 \x7d\n"
    r.SpelledBy t ∧ ofDocument (.text t) = .ok r := by
  intro r t
  have hraw (s : Text) (h : s.flatMap (Json.stringChar false) = s) :
      Json.SpellsString s (s.flatMap (Json.piecesOf false)) := by
    have hs := Json.flatMap_stringChar_spells false s
    rwa [h] at hs
  have hgap : Json.IsGap [] := by simp [Json.IsGap]
  have hspace : Json.IsGap " " := by unfold Json.IsGap; decide
  have hfeed : Json.IsGap "\n" := by unfold Json.IsGap; decide
  have hint (negative : Bool) (n : Nat) (hn : (Decimal.ofNat n).length ≤ Decimal.maxDigits) :
      Json.Spells (Json.minusText negative ++ Decimal.ofNat n)
        (.int (Decimal.signed negative (Json.digitsValue (Decimal.ofNat n)))) :=
    .number (.integer (Json.isWhole_ofNat n) hn)
  have hmember {before s v after : Text} {ps : List Json.Piece} {value : Json}
      (hb : Json.IsGap before) (hs : Json.SpellsString s ps) (hv : Json.Spells v value)
      (ha : Json.IsGap after) : Json.SpellsMember _ (Json.Piece.meaning ps) value :=
    .intro hb hs hgap (.intro hgap hv ha)
  have harray : Json.Spells "[-0, null]" (.array [.int 0, .null]) :=
    .array (.intro hgap (hint true 0 (by decide)) hgap)
      (.cons (.intro hspace .null hgap) .nil)
  have hversion : Json.SpellsString "\\u0076ersion" (.unit (CodePoint.ofChar 'v') :: _) :=
    .cons (.unit rfl) (hraw "ersion" rfl)
  have hemoji : Json.SpellsString "\\ud83d\\uDE00"
      [.unit (CodePoint.ofNat 0xD83D), .unit (CodePoint.ofNat 0xDE00)] :=
    .cons (.unit rfl) (.single (.unit rfl))
  have hslash : Json.SpellsString "a\\/b" [.plain (CodePoint.ofChar 'a'),
      .plain (CodePoint.ofChar '/'), .plain (CodePoint.ofChar 'b')] :=
    .cons (.raw rfl rfl (by decide)) (.cons (.short rfl) (.single (.raw rfl rfl (by decide))))
  have hobject : Json.Spells _ (.object _) :=
    .object (hmember hgap (hraw "x" rfl) harray hgap) <|
      .cons (hmember hspace (hraw "version" rfl) (hint false 7 (by decide)) hgap) <|
      .cons (hmember hgap hversion (.string hemoji) hgap) <|
      .cons (hmember hgap (hraw "module_hash" rfl) (.string hslash) hgap) <|
      .cons (hmember hgap (hraw "exit_code" rfl) (hint true 0 (by decide)) hgap) <|
      .cons (hmember hgap (hraw "wall_time_ms" rfl) (hint false 12 (by decide)) hgap) <|
      .cons (hmember hgap (hraw "timestamp" rfl) (hint false 7 (by decide)) hspace) .nil
  have hspelled : r.SpelledBy t :=
    ⟨_, .intro hgap hobject hfeed, by decide, rfl, rfl, rfl, rfl, rfl, rfl, rfl⟩
  have hrange : r.InRange := ⟨by decide, by decide, by decide, by decide, by decide, by decide⟩
  exact ⟨hspelled, (ofDocument_of_spelledBy hrange hspelled).1⟩

end WasmReceipt.Receipt
