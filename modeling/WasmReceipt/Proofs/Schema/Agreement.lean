import WasmReceipt.Proofs.FileTree.Frame
import WasmReceipt.Proofs.Json.Canonical
import WasmReceipt.Proofs.Receipt.Provenance
import WasmReceipt.Proofs.Schema.Validity

/-! # Published schemas and readers agree

The reader of a record and the schema of it agree on every object without doubles: what the rule of
a field takes is what its property admits. The reader of manifests asks for one thing more, which no
schema says: the form of a content hash. -/

namespace WasmReceipt

/-! ## What rules take -/

namespace Checked

variable {α β : Type}

def Succeeds (x : Checked α) : Prop := ∃ a, x = .valid a

theorem succeeds_seq_iff {f : Checked (α → β)} {x : Checked α} :
    (f <*> x).Succeeds ↔ f.Succeeds ∧ x.Succeeds := by
  constructor
  · rintro ⟨b, h⟩
    obtain ⟨g, a, hf, hx, -⟩ := seq_eq_valid_iff.mp h
    exact ⟨⟨g, hf⟩, a, hx⟩
  · rintro ⟨⟨g, hf⟩, a, hx⟩
    exact ⟨g a, seq_eq_valid_iff.mpr ⟨g, a, hf, hx, rfl⟩⟩

theorem succeeds_map_iff {f : α → β} {x : Checked α} : (f <$> x).Succeeds ↔ x.Succeeds := by
  constructor
  · rintro ⟨b, h⟩
    obtain ⟨a, hx, -⟩ := map_eq_valid_iff.mp h
    exact ⟨a, hx⟩
  · rintro ⟨a, hx⟩
    exact ⟨f a, map_eq_valid_iff.mpr ⟨a, hx, rfl⟩⟩

@[simp] theorem succeeds_under_iff {x : Checked α} {step : Text} :
    (x.under step).Succeeds ↔ x.Succeeds := by
  simp only [Succeeds, under_eq_valid_iff]

theorem succeeds_valid (a : α) : (Checked.valid a).Succeeds := ⟨a, rfl⟩

theorem not_succeeds_fault (reason : Field.Reason) :
    ¬ (Checked.fault reason : Checked α).Succeeds := by
  rintro ⟨a, h⟩
  cases h

end Checked

namespace Field

variable {α : Type} {rule : Rule α} {ms : Json.Members} {name : Text} {kind : Schema.Kind}

def Takes (rule : Rule α) (kind : Schema.Kind) : Prop := ∀ v, (rule v).Succeeds ↔ kind.Holds v

theorem takes_text : Takes text .text := by
  intro v
  simp only [Checked.Succeeds, text_eq_valid_iff, Schema.Kind.Holds]

theorem takes_within (least greatest : Int) :
    Takes (within least greatest) (.integer (some least) (some greatest)) := by
  intro v
  simp only [Checked.Succeeds, within_eq_valid_iff, Schema.Kind.Holds, Option.some.injEq,
    forall_eq']

/-- A field that has to be there is read when its property admits the members. -/
theorem succeeds_required_iff (h : Takes rule kind) :
    (required ms name rule).Succeeds ↔ Schema.Property.Admits ⟨name, kind, none⟩ ms := by
  unfold required Schema.Property.Admits
  cases ms.get? name with
  | some v => simpa using h v
  | none => simp [Checked.not_succeeds_fault]

/-- So is a field with a default. -/
theorem succeeds_withDefault_iff (h : Takes rule kind) {default : α} (shown : Json) :
    (withDefault ms name default rule).Succeeds ↔
      Schema.Property.Admits ⟨name, kind, some shown⟩ ms := by
  unfold withDefault Schema.Property.Admits
  cases ms.get? name with
  | some v => simpa using h v
  | none => simp [Checked.succeeds_valid]

end Field

/-! ## Receipts -/

theorem Receipt.succeeds_ofMembers_iff {ms : Json.Members} :
    (ofMembers ms).Succeeds ↔ ∀ p ∈ Schema.receipt.properties, p.Admits ms := by
  have hexit := Field.takes_within minExitCode maxExitCode
  have htime := Field.takes_within 0 maxTime
  simp only [ofMembers, Checked.succeeds_seq_iff, Checked.succeeds_map_iff,
    Field.succeeds_required_iff Field.takes_text, Field.succeeds_required_iff hexit,
    Field.succeeds_required_iff htime,
    Field.succeeds_withDefault_iff Field.takes_text (.string []), Schema.receipt,
    List.forall_mem_cons, List.not_mem_nil, false_implies, implies_true, and_true, and_assoc]

/-- An object is read as a receipt when every property admits its members. -/
theorem Receipt.exists_ofValue_iff_admits {ms : Json.Members} :
    (∃ r, ofValue (.object ms) = .ok r) ↔ ∀ p ∈ Schema.receipt.properties, p.Admits ms := by
  rw [← succeeds_ofMembers_iff]
  exact exists_congr fun r => Checked.orFail_eq_ok_iff

/-! ## Manifests -/

/-- A content hash has something behind its beginning. -/
theorem ContentHash.isWellFormed_iff {t : Text} :
    isWellFormed t = true ↔ ∃ digits, digits ≠ [] ∧ t = scheme ++ digits := by
  simp only [isWellFormed, Bool.and_eq_true, List.isPrefixOf_iff_prefix, bne_iff_ne]
  constructor
  · rintro ⟨⟨digits, rfl⟩, hlen⟩
    refine ⟨digits, ?_, rfl⟩
    rintro rfl
    exact hlen (by rw [List.append_nil])
  · rintro ⟨digits, hdigits, rfl⟩
    refine ⟨List.prefix_append scheme digits, ?_⟩
    have hpos := List.length_pos_iff.mpr hdigits
    rw [List.length_append]
    omega

namespace Manifest

def NamesModule (ms : Json.Members) : Prop :=
  ∃ digits, digits ≠ [] ∧ ms.get? "module_hash" = some (.string (ContentHash.scheme ++ digits))

theorem takes_amount : Field.Takes Limits.amount (.integer (some 1) none) := by
  intro v
  constructor
  · rintro ⟨n, h⟩
    cases v with
    | int m =>
      by_cases hm : m < 1
      · simp [Limits.amount, Field.strictInteger, Checked.andThen, Field.atLeast, hm,
          Checked.fault] at h
      · refine ⟨m, rfl, ?_, ?_⟩
        · intro l hl
          cases hl
          omega
        · intro g hg
          cases hg
    | _ => cases h
  · rintro ⟨n, rfl, hleast, -⟩
    have hn : ¬ n < 1 := by
      have h := hleast 1 rfl
      omega
    refine ⟨n, ?_⟩
    simp [Limits.amount, Field.strictInteger, Checked.andThen, Field.atLeast, hn]

theorem contentHash_eq_valid_iff {v : Json} {t : Text} :
    contentHash v = .valid t ↔ v = .string t ∧ ContentHash.isWellFormed t = true := by
  cases v with
  | string u =>
    by_cases h : ContentHash.isWellFormed u = true
    · simp only [contentHash, Field.text, Checked.andThen, if_pos h, Checked.valid.injEq,
        Json.string.injEq]
      constructor
      · rintro rfl
        exact ⟨rfl, h⟩
      · exact And.left
    · simp only [contentHash, Field.text, Checked.andThen, if_neg h, Json.string.injEq]
      constructor
      · intro hv
        cases hv
      · rintro ⟨rfl, hu⟩
        exact absurd hu h
  | _ => simp [contentHash, Field.text, Checked.fault, Checked.andThen]

theorem succeeds_contentHash_iff {ms : Json.Members} :
    (Field.required ms "module_hash" contentHash).Succeeds ↔
      Schema.Property.Admits ⟨"module_hash", .text, none⟩ ms ∧ NamesModule ms := by
  unfold Checked.Succeeds NamesModule Schema.Property.Admits
  simp only [Field.required_eq_valid_iff, contentHash_eq_valid_iff, ContentHash.isWellFormed_iff]
  constructor
  · rintro ⟨t, v, hv, rfl, digits, hdigits, rfl⟩
    rw [hv]
    exact ⟨⟨_, rfl⟩, digits, hdigits, rfl⟩
  · rintro ⟨-, digits, hdigits, hv⟩
    exact ⟨_, _, hv, rfl, digits, hdigits, rfl⟩

theorem succeeds_ofMembers_iff {ms : Json.Members} :
    (ofMembers ms).Succeeds ↔
      (∀ p ∈ Schema.manifest.properties, p.Admits ms) ∧ NamesModule ms := by
  have hversion : (Field.withDefault ms "version" currentVersion Field.text).Succeeds ↔ _ :=
    Field.succeeds_withDefault_iff Field.takes_text (.string currentVersion)
  have hamount (name : Text) (n : Int) : (Field.withDefault ms name n Limits.amount).Succeeds ↔
      Schema.Property.Admits ⟨name, .integer (some 1) none, some (.int n)⟩ ms :=
    Field.succeeds_withDefault_iff takes_amount (.int n)
  simp only [ofMembers, Limits.ofMembers, Checked.succeeds_seq_iff, Checked.succeeds_map_iff,
    succeeds_contentHash_iff, hversion, hamount, Schema.manifest, List.forall_mem_cons,
    List.not_mem_nil, false_implies, implies_true, and_true]
  constructor
  · rintro ⟨⟨hv, hm, hn⟩, ⟨hc, hmem⟩, ht⟩
    exact ⟨⟨hv, hm, hc, hmem, ht⟩, hn⟩
  · rintro ⟨⟨hv, hm, hc, hmem, ht⟩, hn⟩
    exact ⟨⟨hv, hm, hn⟩, ⟨hc, hmem⟩, ht⟩

theorem exists_ofValue_iff {ms : Json.Members} :
    (∃ m, ofValue (.object ms) = .ok m) ↔
      (∀ p ∈ Schema.manifest.properties, p.Admits ms) ∧ NamesModule ms := by
  rw [← succeeds_ofMembers_iff]
  exact exists_congr fun m => Checked.orFail_eq_ok_iff

end Manifest

/-! ## Schemas in files -/

namespace Json

variable {t : Text} {v : Json}

/-- A document in text is read as its text is, if it begins with ASCII. -/
theorem ofDocument_of_begins (h : BeginsAscii t) (hread : read t = .ok v) :
    ofDocument (.text t) = .ok v := by
  obtain ⟨c, d, rest, rfl, -, hc, -⟩ := h
  have hmark : ((c :: d :: rest).head?.any (·.val == 0xFEFF)) = false := by
    simp only [List.head?_cons, Option.any_some, beq_eq_false_iff_ne]
    omega
  rw [ofDocument, readDocument, hmark, hread]
  rfl

/-- **The document of an object is read as what the object comes back as.** -/
theorem ofDocument_of_toDocument {m : Text × Json} {ms : Members}
    (hf : (object (m :: ms)).floatFree = true) (h : (object (m :: ms)).toDocument = .ok t) :
    ofDocument (.text t) = .ok ((object (m :: ms)).readBack true) := by
  have hwrite : (object (m :: ms)).write .pretty = .ok t := eq_ok_of_mapError h
  have hread : read (t ++ []) = .ok ((object (m :: ms)).readBack true) :=
    read_write hf (List.forall_mem_nil _) hwrite
  have hbegins : BeginsAscii t := by
    rw [render_of_write hwrite]
    exact ⟨CodePoint.ofChar '\x7b', CodePoint.ofChar '\n', _, rfl, by decide, by decide, by decide⟩
  rw [List.append_nil] at hread
  exact ofDocument_of_begins hbegins hread

theorem ofDocument_bytes_of_begins (h : BeginsAscii t) (hread : read t = .ok v) :
    ofDocument (.bytes (Utf8.encodeLoose t)) = .ok v := by
  rw [ofDocument, readDocument_encodeLoose h]
  exact ofDocument_of_begins h hread

end Json

namespace Schema

variable {tree after : FileTree} {p directory : Path} {schema : Json} {report : Text}

def IsPublished (tree : FileTree) (p : Path) (schema : Json) : Prop :=
  ∃ content, tree.HoldsFile p content ∧ Json.ofDocument (.bytes content) = .ok schema

/-- A schema that is written in text of ASCII comes back from it as it was. -/
structure IsSpellable (s : Schema) : Prop where
  floatFree : s.toJson.floatFree = true
  readBack : s.toJson.readBack true = s.toJson
  write : s.toJson.write .pretty = .ok (s.toJson.render .pretty)

theorem isSpellable_receipt : receipt.IsSpellable := ⟨rfl, rfl, rfl⟩

theorem isSpellable_manifest : manifest.IsSpellable := ⟨rfl, rfl, rfl⟩

variable {s : Schema} {name : Text}

theorem IsSpellable.ofDocument (h : s.IsSpellable) :
    Json.ofDocument (.bytes (Utf8.encodeLoose (s.toJson.render .pretty ++ "\n"))) =
      .ok s.toJson := by
  have hbegins : Json.BeginsAscii (s.toJson.render .pretty ++ "\n") :=
    ⟨_, _, _, rfl, by decide, by decide, by decide⟩
  refine Json.ofDocument_bytes_of_begins hbegins ?_
  rw [Json.read_write h.floatFree (by decide) h.write]
  exact congrArg Except.ok h.readBack

/-- A schema that is published is in its file, and no other place is touched. -/
theorem isPublished_of_run_publishOne (h : s.IsSpellable)
    (hrun : (publishOne directory name s).run.run tree = (.ok p, after)) :
    tree.ChangesAt (directory.join (Path.ofText name)) after ∧
      IsPublished after (directory.join (Path.ofText name)) s.toJson := by
  obtain ⟨_, between, hwrite, hrest⟩ := run_bind_eq_ok hrun
  cases hrest
  have hchanges := FileTree.changesAt_writeText tree (directory.join (Path.ofText name))
    (s.toJson.render .pretty ++ "\n")
  have hwriting := FileTree.writing_writeText tree (directory.join (Path.ofText name))
    (s.toJson.render .pretty ++ "\n")
  rw [hwrite] at hchanges hwriting
  refine ⟨hchanges, ?_⟩
  cases hwriting with
  | written _ hadds => exact ⟨_, hadds.holdsFile, h.ofDocument⟩

theorem mapM_published (directory : Path) :
    published.mapM (fun entry => publishOne directory entry.1 entry.2) = do
      let first ← publishOne directory "receipt.schema.json" receipt
      let second ← publishOne directory "manifest.schema.json" manifest
      return [first, second] := by
  simp [published]

/-- **Both schemas are in their files when they have been published.** -/
theorem isPublished_of_run_publish
    (hrun : (publish directory).run.run tree = (.ok report, after)) :
    IsPublished after (directory.join (Path.ofText "receipt.schema.json")) receipt.toJson ∧
      IsPublished after (directory.join (Path.ofText "manifest.schema.json")) manifest.toJson := by
  unfold publish at hrun
  rw [mapM_published] at hrun
  obtain ⟨_, opened, _, hrun⟩ := run_bind_eq_ok hrun
  obtain ⟨_, made, _, hrun⟩ := run_bind_eq_ok hrun
  obtain ⟨_, made, _, hrun⟩ := run_bind_eq_ok hrun
  obtain ⟨_, last, hpaths, hrun⟩ := run_bind_eq_ok hrun
  cases hrun
  obtain ⟨_, between, hfirst, hpaths⟩ := run_bind_eq_ok hpaths
  obtain ⟨_, last, hsecond, hpaths⟩ := run_bind_eq_ok hpaths
  cases hpaths
  obtain ⟨-, content, hfile, hcontent⟩ :=
    isPublished_of_run_publishOne isSpellable_receipt hfirst
  obtain ⟨hchanges, hpublished⟩ := isPublished_of_run_publishOne isSpellable_manifest hsecond
  -- the second file is not the first one
  refine ⟨⟨content, hchanges.holdsFile hfile ?_, hcontent⟩, hpublished⟩
  obtain ⟨place, isPrivate, hplace, -⟩ := hfile
  rw [hplace]
  exact (FileTree.locate_ne_of_name_ne (by decide) (by decide) (by decide) hplace).symm

/-- A schema can be written to any file that can be written. -/
theorem run_publishOne (hs : s.IsSpellable)
    (h : tree.IsWritable (directory.join (Path.ofText name))) :
    ∃ after, (publishOne directory name s).run.run tree =
      (.ok (directory.join (Path.ofText name)), after) := by
  have hscalar : (s.toJson.render .pretty ++ "\n").isScalar = true := by
    rw [Text.isScalar_append, Text.isScalar_of_isPlain (Json.isPlain_render rfl hs.floatFree)]
    decide
  obtain ⟨after, hwrite, -⟩ := FileTree.run_writeText h hscalar
  exact ⟨after, run_bind_of_ok hwrite⟩

/-- **Schemas are published** where the directory is there, or only it is missing, and both files
can be written in it. -/
theorem exists_run_publish {made : FileTree} (hmade : tree.makeOne directory = .ok made)
    (hreceipt : made.IsWritable (directory.join (Path.ofText "receipt.schema.json")))
    (hmanifest : made.IsWritable (directory.join (Path.ofText "manifest.schema.json"))) :
    ∃ report after, (publish directory).run.run tree = (.ok report, after) := by
  have hget : (get : FileAction FileTree).run.run tree = (.ok tree, tree) := rfl
  have hlift : (liftM (tree.makeOne directory) : FileAction FileTree).run.run tree =
      (.ok made, tree) := by
    rw [hmade]
    rfl
  have hset : (set made : FileAction PUnit).run.run tree = (.ok ⟨⟩, made) := rfl
  obtain ⟨between, hfirst⟩ := run_publishOne isSpellable_receipt hreceipt
  have hchanges := (isPublished_of_run_publishOne isSpellable_receipt hfirst).1
  obtain ⟨place, hplace, -⟩ := hreceipt
  have hother : made.locate (directory.join (Path.ofText "manifest.schema.json")) ≠
      made.locate (directory.join (Path.ofText "receipt.schema.json")) := by
    rw [hplace]
    exact FileTree.locate_ne_of_name_ne (by decide) (by decide) (by decide) hplace
  obtain ⟨after, hsecond⟩ := run_publishOne isSpellable_manifest
    (hchanges.isWritable hmanifest hother)
  unfold publish
  rw [mapM_published, run_bind_of_ok hget, run_bind_of_ok hlift, run_bind_of_ok hset]
  exact ⟨_, _, run_bind_of_ok ((run_bind_of_ok hfirst).trans (run_bind_of_ok hsecond))⟩

/-! ## Agreement -/

theorem receipt_agrees {ms : Json.Members} (hf : (Json.object ms).floatFree = true) :
    (∃ r, Receipt.ofValue (.object ms) = .ok r) ↔ Validates receipt.toJson (.object ms) := by
  rw [Receipt.exists_ofValue_iff_admits, validates_iff (by decide) hf]

theorem manifest_agrees {ms : Json.Members} (hf : (Json.object ms).floatFree = true) :
    (∃ m, Manifest.ofValue (.object ms) = .ok m) ↔
      Validates manifest.toJson (.object ms) ∧ Manifest.NamesModule ms := by
  rw [Manifest.exists_ofValue_iff, validates_iff (by decide) hf]

/-- The document of a receipt in range is valid. -/
theorem validates_receipt_document {r : Receipt} {t : Text} (hr : r.InRange)
    (ht : r.toDocument = .ok t) :
    ∃ v, Json.ofDocument (.text t) = .ok v ∧ Validates receipt.toJson v := by
  refine ⟨r.paired.toValue, ?_, ?_⟩
  · rw [← r.readBack_toValue]
    exact Json.ofDocument_of_toDocument rfl ht
  · exact (receipt_agrees rfl).mp ⟨_, Receipt.ofValue_toValue (Receipt.inRange_paired hr)⟩

/-- A property that admits the members of a manifest admits them with other texts in the
manifest. -/
theorem admits_of_texts {m : Manifest} {p : Property} (hp : p ∈ manifest.properties)
    (h : p.Admits m.toMembers) (version moduleHash : Text) :
    p.Admits ({ m with version := version, moduleHash := moduleHash } : Manifest).toMembers := by
  simp only [manifest, List.mem_cons, List.not_mem_nil, or_false] at hp
  rcases hp with rfl | rfl | rfl | rfl | rfl
  · exact ⟨version, rfl⟩
  · exact ⟨moduleHash, rfl⟩
  · exact h
  · exact h
  · exact h

/-- So is the document of a manifest that passes its own checks. -/
theorem validates_manifest_document {m : Manifest} {t : Text}
    (hm : Manifest.ofValue m.toValue = .ok m) (ht : m.toDocument = .ok t) :
    ∃ v, Json.ofDocument (.text t) = .ok v ∧ Validates manifest.toJson v := by
  refine ⟨m.toValue.readBack true, Json.ofDocument_of_toDocument rfl ht, ?_⟩
  -- what is read is the manifest with the surrogate pairs in its texts joined
  have hback : m.toValue.readBack true = ({ m with
      version := m.version.paired, moduleHash := m.moduleHash.paired } : Manifest).toValue := rfl
  have hadmits := (Manifest.succeeds_ofMembers_iff.mp ⟨m, Checked.orFail_eq_ok_iff.mp hm⟩).1
  rw [hback]
  exact (validates_iff (by decide) rfl).mpr fun p hp => admits_of_texts hp (hadmits p hp) _ _

/-- **The published schemas and the readers agree.** An object without doubles is read as a receipt
exactly when it is valid under the first published schema; it is read as a manifest exactly when it
is valid under the second and names a module by a content hash. The document of every receipt and of
every manifest that passes its own checks is valid under its schema. -/
theorem publish_agrees (hrun : (publish directory).run.run tree = (.ok report, after)) :
    ∃ receiptSchema manifestSchema,
      IsPublished after (directory.join (Path.ofText "receipt.schema.json")) receiptSchema ∧
      IsPublished after (directory.join (Path.ofText "manifest.schema.json")) manifestSchema ∧
      (∀ ms, (Json.object ms).floatFree = true →
        ((∃ r, Receipt.ofValue (.object ms) = .ok r) ↔ Validates receiptSchema (.object ms))) ∧
      (∀ ms, (Json.object ms).floatFree = true →
        ((∃ m, Manifest.ofValue (.object ms) = .ok m) ↔
          Validates manifestSchema (.object ms) ∧ Manifest.NamesModule ms)) ∧
      (∀ r t, Receipt.ofValue r.toValue = .ok r → r.toDocument = .ok t →
        ∃ v, Json.ofDocument (.text t) = .ok v ∧ Validates receiptSchema v) ∧
      ∀ m t, Manifest.ofValue m.toValue = .ok m → m.toDocument = .ok t →
        ∃ v, Json.ofDocument (.text t) = .ok v ∧ Validates manifestSchema v := by
  obtain ⟨hreceipt, hmanifest⟩ := isPublished_of_run_publish hrun
  exact ⟨_, _, hreceipt, hmanifest, fun ms => receipt_agrees, fun ms => manifest_agrees,
    fun r t hr => validates_receipt_document (Receipt.inRange_of_ofValue hr),
    fun m t => validates_manifest_document⟩

/-- Schemas that are published in a new directory: an object with nothing in it is no receipt, so it
is not valid under the schema of receipts. -/
theorem publish_agrees_fresh :
    ∃ report after receiptSchema,
      (publish (Path.ofText "/schemas")).run.run (.empty []) = (.ok report, after) ∧
      IsPublished after (Path.ofText "/schemas/receipt.schema.json") receiptSchema ∧
      ¬ Validates receiptSchema (.object []) := by
  have hrun : ∃ report after,
      (publish (Path.ofText "/schemas")).run.run (.empty []) = (.ok report, after) := by
    have hmade : (FileTree.empty []).makeOne (Path.ofText "/schemas") =
        .ok ((FileTree.empty []).put ["schemas"] .directory) := rfl
    exact exists_run_publish hmade
      ⟨["schemas", "receipt.schema.json"], rfl, FileTree.mayWrite_of_new rfl rfl⟩
      ⟨["schemas", "manifest.schema.json"], rfl, FileTree.mayWrite_of_new rfl rfl⟩
  obtain ⟨report, after, hrun⟩ := hrun
  obtain ⟨receiptSchema, -, hpublished, -, hagrees, -⟩ := publish_agrees hrun
  refine ⟨report, after, receiptSchema, hrun, hpublished, ?_⟩
  rw [← hagrees [] rfl]
  rintro ⟨r, hr⟩
  cases hr

end Schema

end WasmReceipt
