import WasmReceipt.Proofs.FileTree
import WasmReceipt.Proofs.Json.Encoding
import WasmReceipt.Proofs.Json.PlainText
import WasmReceipt.Proofs.Json.SurrogatePairs
import WasmReceipt.Proofs.Receipt.Signing

/-! # Where receipts come from, and what becomes of them on paper

`Arises` lists the ways in which a receipt can come about. Every one of them leaves its numbers
in range, and from this alone it follows what its document looks like and what the document is
read as. -/

namespace WasmReceipt.Receipt

/-- The ways in which receipts come about: they are made from members, read from a value, a document
or a file, made for an execution by the caller, remade with some of their fields replaced, and
attested by a node. -/
inductive Arises (scheme : SignatureScheme) : Receipt → Prop
  | made {ms : Json.Members} {r : Receipt} :
      (ofMembers ms).orFail .receipt .invalid = .ok r → Arises scheme r
  | ofValue {v : Json} {r : Receipt} : Receipt.ofValue v = .ok r → Arises scheme r
  | ofDocument {document : Content} {r : Receipt} :
      Receipt.ofDocument document = .ok r → Arises scheme r
  | ofFile {tree : FileTree} {p : Path} {r : Receipt} :
      Receipt.ofFile tree p = .ok r → Arises scheme r
  | byCaller {moduleHash exitCode wallTimeMs timestamp : Json} {r : Receipt} :
      ofLocalValues moduleHash exitCode wallTimeMs timestamp = .ok r → Arises scheme r
  | remade {r s : Receipt} {changes : Json.Members} : Arises scheme r →
      Receipt.ofValue (.object (r.toMembers.update changes)) = .ok s → Arises scheme s
  | attested {r s : Receipt} {seed : Bytes} : Arises scheme r →
      r.attest scheme seed = .ok s → Arises scheme s
  | attestedWith {r s : Receipt} {seed : Text} : Arises scheme r →
      r.attestWith scheme seed = .ok s → Arises scheme s

variable {scheme : SignatureScheme} {r s : Receipt}

/-! ## Numbers in range -/

theorem inRange_of_orFail {ms : Json.Members} {wrap : Invalid → Failure}
    (h : (ofMembers ms).orFail .receipt wrap = .ok r) : r.InRange :=
  (ofMembers_eq_valid_iff.mp (Checked.orFail_eq_ok_iff.mp h)).1

theorem inRange_of_ofFile {tree : FileTree} {p : Path} (h : ofFile tree p = .ok r) :
    r.InRange := by
  unfold ofFile at h
  obtain ⟨content, -, h⟩ := bind_eq_ok h
  exact inRange_of_ofDocument h

/-- A node adds its key and its signature and leaves the rest alone. -/
theorem exists_of_attest {seed : Bytes} (h : r.attest scheme seed = .ok s) :
    ∃ signature, s = { r with nodeKey := scheme.publicKeyText seed, signature := signature } := by
  unfold attest at h
  obtain ⟨message, -, h⟩ := bind_eq_ok h
  obtain ⟨signature, -, h⟩ := bind_eq_ok h
  cases h
  exact ⟨signature, rfl⟩

theorem inRange_of_attest {seed : Bytes} (hr : r.InRange) (h : r.attest scheme seed = .ok s) :
    s.InRange := by
  obtain ⟨signature, rfl⟩ := exists_of_attest h
  exact ⟨hr.minExitCode_le, hr.le_maxExitCode, hr.wallTimeMs_nonneg, hr.wallTimeMs_le,
    hr.timestamp_nonneg, hr.timestamp_le⟩

/-- **However a receipt comes about, its numbers are in range.** -/
theorem Arises.inRange (h : Arises scheme r) : r.InRange := by
  induction h with
  | made h => exact inRange_of_orFail h
  | ofValue h => exact inRange_of_ofValue h
  | ofDocument h => exact inRange_of_ofDocument h
  | ofFile h => exact inRange_of_ofFile h
  | byCaller h => exact inRange_of_orFail h
  | remade _ h _ => exact inRange_of_ofValue h
  | attested _ h ih => exact inRange_of_attest ih h
  | @attestedWith r s seed _ h ih =>
    unfold attestWith at h
    obtain ⟨bytes, -, h⟩ := bind_eq_ok h
    exact inRange_of_attest ih h

/-! ## What a document looks like -/

def documentLine (name value : Text) : Text := "  \"" ++ name ++ "\": " ++ value

def documentLines (r : Receipt) : List Text :=
  [documentLine "version" (Json.stringText true r.version),
    documentLine "module_hash" (Json.stringText true r.moduleHash),
    documentLine "exit_code" (Decimal.ofInt r.exitCode),
    documentLine "wall_time_ms" (Decimal.ofInt r.wallTimeMs),
    documentLine "timestamp" (Decimal.ofInt r.timestamp),
    documentLine "node_pubkey" (Json.stringText true r.nodeKey),
    documentLine "signature" (Json.stringText true r.signature)]

/-- A name that needs no escapes begins a line of its own. -/
theorem pretty_member {name value rest : Text}
    (h : name.flatMap (Json.stringChar true) = name) :
    Json.Layout.pretty.newLine 1 ++
        (Json.stringText true name ++ (Json.Layout.pretty.colon ++ (value ++ rest))) =
      "\n" ++ (documentLine name value ++ rest) := by
  simp [Json.stringText, h, documentLine, Json.Layout.newLine, Json.Layout.colon,
    Json.Layout.pretty, Text.ofString]

/-- The document of a receipt line by line. -/
theorem render_toValue (r : Receipt) :
    r.toValue.render .pretty = "\x7b\n" ++ Text.join ",\n" r.documentLines ++ "\n\x7d" := by
  have hfirst : ("\x7b\n" : Text) = "\x7b" ++ "\n" := rfl
  have hnext : (",\n" : Text) = "," ++ "\n" := rfl
  have hlast : Json.Layout.pretty.newLine 0 ++ "\x7d" = "\n\x7d" := rfl
  have hascii : Json.Layout.pretty.ascii = true := rfl
  simp only [Json.render, toValue, toMembers, Json.renderAt, Json.renderMembers, Nat.zero_add,
    List.append_assoc, List.nil_append, hascii]
  rw [pretty_member rfl, pretty_member rfl, pretty_member rfl, pretty_member rfl,
    pretty_member rfl, pretty_member rfl, pretty_member rfl, hlast]
  simp [documentLines, Text.join, List.intercalate, hfirst, hnext]

theorem isPlain_render (r : Receipt) : (r.toValue.render .pretty).isPlain = true :=
  Json.isPlain_render rfl rfl

/-! ## Documents in files -/

/-- A document in bytes is read like its text, with a line feed behind it. -/
theorem ofDocument_bytes (hr : r.InRange) :
    ofDocument (.bytes (Utf8.encodeLoose (r.toValue.render .pretty ++ "\n"))) = .ok r.paired := by
  have hbegins : Json.BeginsAscii (r.toValue.render .pretty ++ "\n") :=
    ⟨_, _, _, rfl, by decide, by decide, by decide⟩
  rw [ofDocument, Json.ofDocument, Json.readDocument_encodeLoose hbegins]
  exact ofDocument_render hr (by decide)

theorem ofFile_of_holdsReadable {tree : FileTree} {p : Path} {content : Bytes}
    (h : tree.HoldsReadable p content) : ofFile tree p = ofDocument (.bytes content) := by
  rw [ofFile, FileTree.read_eq_ok_iff.mpr h]
  rfl

/-- **A receipt that is written to a file is read from it**, with surrogate pairs joined, unless the
file was there and may not be read. -/
theorem exists_toFile (hr : r.InRange) {tree : FileTree} {p : Path} (hp : tree.IsWritable p) :
    ∃ after, (r.toFile p).run.run tree = (.ok (), after) ∧
      (tree.MayBeRead p → ofFile after p = .ok r.paired) := by
  have hscalar : (r.toValue.render .pretty ++ "\n").isScalar = true := by
    rw [Text.isScalar_append, Text.isScalar_of_isPlain r.isPlain_render]
    decide
  obtain ⟨after, hrun, -, hread⟩ := FileTree.run_writeText hp hscalar
  refine ⟨after, ?_, fun hmay => ?_⟩
  · rw [toFile, toDocument_eq hr]
    exact hrun
  · rw [ofFile_of_holdsReadable (hread hmay), ofDocument_bytes hr]

/-! ## Which receipts come back as they were -/

def HoldsPair (r : Receipt) : Prop :=
  r.version.HoldsPair ∨ r.moduleHash.HoldsPair ∨ r.nodeKey.HoldsPair ∨ r.signature.HoldsPair

theorem paired_eq_self_iff : r.paired = r ↔ ¬ r.HoldsPair := by
  rw [HoldsPair, not_or, not_or, not_or, ← Text.paired_eq_self_iff, ← Text.paired_eq_self_iff,
    ← Text.paired_eq_self_iff, ← Text.paired_eq_self_iff]
  constructor
  · intro h
    exact ⟨congrArg version h, congrArg moduleHash h, congrArg nodeKey h, congrArg signature h⟩
  · rintro ⟨hv, hm, hn, hs⟩
    rw [paired, hv, hm, hn, hs]

theorem paired_paired (r : Receipt) : r.paired.paired = r.paired := by
  simp only [paired, Text.paired_paired]

/-- After the first trip nothing changes any more. -/
theorem trips_succ (hr : r.InRange) (n : Nat) : r.trips (n + 1) = .ok r.paired := by
  induction n generalizing r with
  | zero =>
    rw [trips, trip_eq hr]
    rfl
  | succ n ih =>
    have hnext := ih (inRange_paired hr)
    rw [paired_paired] at hnext
    rw [trips, trip_eq hr]
    exact hnext

theorem trip_eq_self_iff (hr : r.InRange) : r.trip = .ok r ↔ ¬ r.HoldsPair := by
  rw [trip_eq hr, Except.ok.injEq]
  exact paired_eq_self_iff

/-- What becomes of a receipt when it is taken apart, written and read. -/
structure ComesBack (r : Receipt) : Prop where
  inRange : r.InRange
  /-- Its value is read as the receipt itself. -/
  ofValue : Receipt.ofValue r.toValue = .ok r
  /-- Its document is printable, with a line for each field in their order, and is read as the
  receipt with surrogate pairs joined. -/
  document : ∃ document, r.toDocument = .ok document ∧ document.isPlain = true ∧
    document = "\x7b\n" ++ Text.join ",\n" r.documentLines ++ "\n\x7d" ∧
    Receipt.ofDocument (.text document) = .ok r.paired
  /-- So is every file that it is written to and that may be read. -/
  file : ∀ (tree : FileTree) (p : Path), tree.IsWritable p →
    ∃ after, (r.toFile p).run.run tree = (.ok (), after) ∧
      (tree.MayBeRead p → ofFile after p = .ok r.paired)
  /-- Nothing changes if there is no pair to join. -/
  trip_eq_self_iff : r.trip = .ok r ↔ ¬ r.HoldsPair
  /-- Nothing changes after the first trip. -/
  trips_succ : ∀ n, r.trips (n + 1) = .ok r.paired

/-- **However a receipt comes about, it comes back from its value unchanged, and from its document
or its file with adjacent surrogate pairs joined.** -/
theorem Arises.comesBack (h : Arises scheme r) : r.ComesBack := by
  have hr : r.InRange := h.inRange
  have hread : Receipt.ofDocument (.text (r.toValue.render .pretty)) = .ok r.paired := by
    have htrip := trip_eq hr
    rw [trip, toDocument_eq hr] at htrip
    exact htrip
  exact {
    inRange := hr
    ofValue := ofValue_toValue hr
    document := ⟨_, toDocument_eq hr, r.isPlain_render, r.render_toValue, hread⟩
    file := fun _ _ hp => exists_toFile hr hp
    trip_eq_self_iff := trip_eq_self_iff hr
    trips_succ := trips_succ hr }

/-- The version of a receipt by the caller, replaced by the two halves of an emoji, is one code
point after a trip. -/
theorem comesBack_halves :
    let halves : Text := [CodePoint.ofNat 0xD83D, CodePoint.ofNat 0xDE00]
    let r : Receipt := ⟨halves, "sha256:a1b2", 0, 12, 1762663835, localMarker, unsignedMarker⟩
    Arises Sample.scheme r ∧ r.ComesBack ∧ r.trip ≠ .ok r := by
  intro halves r
  have hlocal : ofLocal "sha256:a1b2" 0 12 1762663835 = .ok Sample.receipt := rfl
  have hchanged : Receipt.ofValue
      (.object (Sample.receipt.toMembers.update [("version", .string halves)])) = .ok r := rfl
  have harises : Arises Sample.scheme r := .remade (.byCaller hlocal) hchanged
  have hback : r.ComesBack := harises.comesBack
  refine ⟨harises, hback, fun htrip => ?_⟩
  exact hback.trip_eq_self_iff.mp htrip
    (.inl ⟨[], CodePoint.ofNat 0xD83D, CodePoint.ofNat 0xDE00, [], rfl, by decide, by decide⟩)

end WasmReceipt.Receipt
