import WasmReceipt.Proofs.Execution.Job
import WasmReceipt.Proofs.Execution.Request

/-! # Modules bound by their content

A manifest takes the content hash of its module from a file that is read in chunks; a request takes
it from the bytes that it carries. Both are the digest of the content. -/

namespace WasmReceipt

open Sha256 (Hasher)

namespace ContentHash

/-- The content hash of a string is that of its bytes in UTF-8. -/
theorem ofContent_ofString (s : String) :
    ofContent (.text (Text.ofString s)) = ofContent (.bytes s.toUTF8.data.toList) := by
  have hencode : Content.encode (.text (Text.ofString s)) = .ok s.toUTF8.data.toList := by
    rw [← Utf8.encodeLoose_ofString]
    exact Utf8.encode_of_isScalar (Text.isScalar_ofString s)
  rw [ofContent, hencode]
  rfl

end ContentHash

/-- What becomes of a request for a module file, under the manifest of a file that may have held
something else. -/
theorem JobRequest.exists_validate_iff {now : FileTree} {p : Path} {hashed content : Bytes}
    {manifest : Manifest} {fresh : Text} (jobId : Option Text) (arguments : List Text)
    (hmanifest : manifest.moduleHash = ContentHash.ofBytes hashed)
    (hcontent : now.HoldsReadable p content) (hfresh : fresh ≠ []) :
    ∃ request, ofModuleFile now p manifest jobId fresh arguments = .ok request ∧
      (request.validate = .ok () ↔
        content ≠ [] ∧ Sha256.digest content = Sha256.digest hashed) := by
  refine ⟨_, ofModuleFile_of_holdsReadable hcontent manifest jobId fresh arguments, ?_⟩
  rw [validate_eq_ok_iff, hmanifest, ContentHash.ofBytes_inj]
  refine and_iff_right ?_
  dsimp only
  split_ifs with hid
  · exact hfresh
  · exact fun hnil => hid (List.isEmpty_iff.mpr hnil)

/-- **A content hash binds what is run to what was hashed.** The hash is the digest of the whole
content in 64 hexadecimal digits, however the content is cut into chunks. Under the manifest of a
file, a request for what a file holds later passes its check exactly if that is not empty and has
the same digest. -/
theorem content_hash_binds (content : Bytes) :
    Sha256.digest content = Sha256.digestOfBlocks content ∧
    (∃ digits, ContentHash.ofContent (.bytes content) = .ok (ContentHash.scheme ++ digits) ∧
      digits.length = 64 ∧ ∀ c ∈ digits, c.isLowerHex = true) ∧
    (Bytes.pieces ContentHash.chunkBytes content).flatten = content ∧
    (∀ hasher, ContentHash.feed hasher content =
      (Bytes.pieces ContentHash.chunkBytes content).foldl Hasher.update hasher) ∧
    (∀ parts : List Bytes, parts.flatten = content →
      (parts.foldl Hasher.update .start).digest = Sha256.digest content) ∧
    (∀ (tree : FileTree) (p : Path), tree.HoldsReadable p content →
      ContentHash.ofFile tree p = ContentHash.ofContent (.bytes content) ∧
      ∀ limits, ∃ manifest, Manifest.ofModuleFile tree p limits = .ok manifest ∧
        ∀ (now : FileTree) (found : Bytes) (jobId : Option Text) (fresh : Text)
          (arguments : List Text), now.HoldsReadable p found → fresh ≠ [] →
          ∃ request, JobRequest.ofModuleFile now p manifest jobId fresh arguments = .ok request ∧
            (request.validate = .ok () ↔
              found ≠ [] ∧ Sha256.digest found = Sha256.digest content) ∧
            (found = content → content ≠ [] → request.validate = .ok ())) ∧
    ∀ t : Text, t.isScalar = true → ∃ s : String, t = Text.ofString s ∧
      ContentHash.ofContent (.text t) = ContentHash.ofContent (.bytes s.toUTF8.data.toList) := by
  obtain ⟨digits, hdigits, hform⟩ := ContentHash.exists_digits content
  refine ⟨Sha256.digest_eq_digestOfBlocks content, ⟨digits, congrArg Except.ok hdigits, hform⟩,
    Bytes.flatten_pieces (by decide) content, fun hasher => ContentHash.feed_eq_foldl hasher content,
    ?_, ?_, ?_⟩
  · rintro parts rfl
    rw [Hasher.foldl_update Sha256.Hasher.isSettled_start, Sha256.digest]
  · intro tree p hcontent
    refine ⟨ContentHash.ofFile_eq_ok_iff.mpr ⟨content, hcontent, rfl⟩, fun limits => ?_⟩
    obtain ⟨manifest, hmanifest, hhash⟩ : ∃ manifest,
        Manifest.ofModuleFile tree p limits = .ok manifest ∧
          manifest.moduleHash = ContentHash.ofBytes content :=
      ⟨_, Manifest.ofModuleFile_eq_ok_iff.mpr ⟨content, hcontent, rfl⟩, rfl⟩
    refine ⟨manifest, hmanifest, ?_⟩
    intro now found jobId fresh arguments hfound hfresh
    obtain ⟨request, hrequest, hpasses⟩ :=
      JobRequest.exists_validate_iff jobId arguments hhash hfound hfresh
    refine ⟨request, hrequest, hpasses, ?_⟩
    rintro rfl hne
    exact hpasses.mpr ⟨hne, rfl⟩
  · intro t ht
    obtain ⟨s, rfl⟩ := Text.exists_ofString ht
    exact ⟨s, rfl, ContentHash.ofContent_ofString s⟩

open Job.Sample in
/-- A file that is emptied after its manifest was made, and one that stays: a request for it is
refused, and passes. -/
theorem content_hash_binds_emptied :
    (tree module).HoldsReadable modulePath module ∧
      ∃ manifest, Manifest.ofModuleFile (tree module) modulePath .standard = .ok manifest ∧
        (∃ request, JobRequest.ofModuleFile (tree []) modulePath manifest none "5f3a" [] =
          .ok request ∧ request.validate ≠ .ok ()) ∧
        ∃ request, JobRequest.ofModuleFile (tree module) modulePath manifest none "5f3a" [] =
          .ok request ∧ request.validate = .ok () := by
  have hheld := holdsReadable_tree module
  obtain ⟨-, -, -, -, -, hfiles, -⟩ := content_hash_binds module
  obtain ⟨-, hmanifests⟩ := hfiles _ _ hheld
  obtain ⟨manifest, hmanifest, hrequests⟩ := hmanifests .standard
  obtain ⟨empty, hempty, hrefused, -⟩ :=
    hrequests (tree []) [] none "5f3a" [] (holdsReadable_tree []) (by decide)
  obtain ⟨same, hsame, -, hpasses⟩ :=
    hrequests (tree module) module none "5f3a" [] hheld (by decide)
  exact ⟨hheld, manifest, hmanifest, ⟨empty, hempty, fun h => (hrefused.mp h).1 rfl⟩, same, hsame,
    hpasses rfl (by decide)⟩

end WasmReceipt
