import WasmReceipt.Manifest
import WasmReceipt.Proofs.Json.Canonical
import WasmReceipt.Proofs.Run
import WasmReceipt.Receipt

/-! # Records in bytes

A receipt or a manifest is read from bytes as it is read from the text that they spell, as long as
the front of the text does not mislead about its encoding. The documents that are written begin with
a brace and a line feed, so they are safe in every encoding. -/

namespace WasmReceipt

/-- Bytes are read like a text, as a receipt and as a manifest: what comes out is the same record or
the same failure. -/
structure ReadsLike (bytes : Bytes) (t : Text) : Prop where
  receipt : Receipt.ofDocument (.bytes bytes) = Receipt.ofDocument (.text t)
  manifest : Manifest.ofDocument (.bytes bytes) = Manifest.ofDocument (.text t)

variable {bytes : Bytes} {t : Text}

theorem ReadsLike.of_readDocument
    (h : Json.readDocument (.bytes bytes) = Json.readDocument (.text t)) : ReadsLike bytes t := by
  have hread : Json.ofDocument (.bytes bytes) = Json.ofDocument (.text t) := by
    rw [Json.ofDocument, Json.ofDocument, h]
  constructor
  · rw [Receipt.ofDocument, Receipt.ofDocument, hread]
  · rw [Manifest.ofDocument, Manifest.ofDocument, hread]

namespace Json

/-- The document of a value without doubles holds no surrogate. -/
theorem isScalar_of_toDocument {v : Json} (hf : v.floatFree = true) (h : v.toDocument = .ok t) :
    t.isScalar = true := by
  rw [render_of_write (eq_ok_of_mapError h)]
  exact Text.isScalar_of_isPlain (isPlain_render rfl hf)

/-- The document of an object with a member begins with a brace and a line feed. -/
theorem beginsAsciiTwice_of_toDocument {m : Text × Json} {ms : Members}
    (h : (object (m :: ms)).toDocument = .ok t) : t.BeginsAsciiTwice := by
  rw [render_of_write (eq_ok_of_mapError h)]
  exact ⟨CodePoint.ofChar '\x7b', CodePoint.ofChar '\n', _, rfl, by decide, by decide⟩

end Json

/-- A text is the document of a record. -/
inductive IsWritten (t : Text) : Prop
  | receipt (r : Receipt) : r.toDocument = .ok t → IsWritten t
  | manifest (m : Manifest) : m.toDocument = .ok t → IsWritten t

namespace IsWritten

theorem isScalar (h : IsWritten t) : t.isScalar = true := by
  cases h with
  | receipt r h => exact Json.isScalar_of_toDocument rfl h
  | manifest m h => exact Json.isScalar_of_toDocument rfl h

theorem beginsAsciiTwice (h : IsWritten t) : t.BeginsAsciiTwice := by
  cases h with
  | receipt r h => exact Json.beginsAsciiTwice_of_toDocument h
  | manifest m h => exact Json.beginsAsciiTwice_of_toDocument h

end IsWritten

/-- **Bytes are read like the text that they spell.** In UTF-8 that is so unless the text begins
with a byte order mark or has NUL at its front; in UTF-16 and UTF-32, in either byte order, for
every text of scalar values that begins with two ASCII characters. The mark of the encoding may
stand in front. -/
theorem readsLike_encode (t : Text) :
    (t.IsUnmarked → ∀ mark ∈ [[], Json.Encoding.utf8.mark],
      ReadsLike (mark ++ Json.Encoding.utf8.encode t) t) ∧
    (t.isScalar = true → t.BeginsAsciiTwice → ∀ e : Json.Encoding, ∀ mark ∈ [[], e.mark],
      ReadsLike (mark ++ e.encode t) t) ∧
    (IsWritten t → ∀ e : Json.Encoding, ∀ mark ∈ [[], e.mark],
      ReadsLike (mark ++ e.encode t) t) := by
  have hany (hs : t.isScalar = true) (hb : t.BeginsAsciiTwice) (e : Json.Encoding) :
      ∀ mark ∈ [[], e.mark], ReadsLike (mark ++ e.encode t) t :=
    fun mark hmark => .of_readDocument (Json.readDocument_encode hb hs e mark hmark)
  refine ⟨?_, hany, fun h => hany h.isScalar h.beginsAsciiTwice⟩
  exact fun h mark hmark => .of_readDocument (Json.readDocument_utf8 h mark hmark)

namespace IsWritten.Sample

def bracketHalf : Text := [CodePoint.ofChar '[', CodePoint.ofNat 0xD800]

def openString : Text := [CodePoint.ofChar '"', CodePoint.ofChar 'a', CodePoint.ofNat 0x1F600]

def plainManifest : Manifest := ⟨Manifest.currentVersion, "sha256:e3b0", .standard⟩

end IsWritten.Sample

open IsWritten.Sample in
/-- A malformed text with half of a surrogate pair, in UTF-8 behind its mark; a string that does not
end, in UTF-16 with a pair of units, behind its mark; and a written manifest in UTF-32. -/
theorem readsLike_encode_samples :
    ReadsLike [0xEF, 0xBB, 0xBF, 0x5B, 0xED, 0xA0, 0x80] bracketHalf ∧
      ReadsLike [0xFF, 0xFE, 0x22, 0x00, 0x61, 0x00, 0x3D, 0xD8, 0x00, 0xDE] openString ∧
      ∃ t, plainManifest.toDocument = .ok t ∧
        ReadsLike (Json.Encoding.encode (.utf32 .big) t) t := by
  have hhalf : bracketHalf.IsUnmarked := ⟨by rintro c ⟨⟩; decide, by decide⟩
  have hopen : openString.BeginsAsciiTwice := ⟨_, _, _, rfl, by decide, by decide⟩
  have hwritten : plainManifest.toDocument = .ok (plainManifest.toValue.render .pretty) := rfl
  refine ⟨?_, ?_, _, hwritten, ?_⟩
  · exact (readsLike_encode bracketHalf).1 hhalf [0xEF, 0xBB, 0xBF] (by decide)
  · exact (readsLike_encode openString).2.1 (by decide) hopen (.utf16 .little)
      [0xFF, 0xFE] (by decide)
  · exact (readsLike_encode _).2.2 (.manifest _ hwritten) (.utf32 .big) [] List.mem_cons_self

end WasmReceipt
