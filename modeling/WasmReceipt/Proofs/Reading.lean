import WasmReceipt.Proofs.Json.Refusal
import WasmReceipt.Proofs.Schema.Faults

/-! # How the reading of documents ends

A document that gives no record is to be at fault in its form, unless its text holds an integer that
is too long to be read. That is so for receipts. A manifest has one fault that quotes what was
given, and if that holds half of a surrogate pair, a failure to encode the complaint comes out
instead. -/

namespace WasmReceipt

/-! ## Faults that cannot be told -/

/-- If one fault cannot be told, none is. -/
theorem Checked.orFail_of_not_tellable {α : Type} {x : Checked α} (h : ¬ x.Tellable)
    (record : RecordKind) (wrap : Invalid → Failure) :
    ∃ fault, x.orFail record wrap = .error (.unencodable fault) := by
  cases x with
  | valid a => exact absurd (tellable_valid a) h
  | faulty faults =>
    cases hfault : faults.findSome? (fun f => f.reason.encodeFault?) with
    | none =>
      refine absurd ?_ h
      rintro others ⟨⟩
      exact List.findSome?_eq_none_iff.mp hfault
    | some fault =>
      refine ⟨fault, ?_⟩
      simp only [orFail, Failure.ofInvalid, Invalid.encodeFault?, hfault]

theorem Field.encodeFault?_notContentHash {given : Text} :
    (Reason.notContentHash given).encodeFault? = none ↔ given.isScalar = true := by
  have hfirst : Text.isScalar ("module_hash '" : Text) = true := by decide
  have hlast : Text.isScalar ("' must look like 'sha256:<hex>'" : Text) = true := by decide
  rw [Reason.encodeFault?, Utf8.firstSurrogates_eq_none_iff, hashComplaint, Text.isScalar_append,
    Text.isScalar_append, hfirst, hlast, Bool.true_and, Bool.and_true]

/-! ## Manifests -/

/-- Resources are read field by field. -/
theorem Limits.ofMembers_eq_valid_iff {ms : Json.Members} {limits : Limits} :
    ofMembers ms = .valid limits ↔
      Field.withDefault ms "cpu_cores" standard.cpuCores amount = .valid limits.cpuCores ∧
      Field.withDefault ms "memory_mb" standard.memoryMb amount = .valid limits.memoryMb ∧
      Field.withDefault ms "timeout_seconds" standard.timeoutSeconds amount =
        .valid limits.timeoutSeconds := by
  constructor
  · intro h
    unfold ofMembers at h
    -- the fields come off from the last one on
    obtain ⟨_, timeoutSeconds, h₁, htimeout, rfl⟩ := Checked.seq_eq_valid_iff.mp h
    obtain ⟨_, memoryMb, h₂, hmemory, rfl⟩ := Checked.seq_eq_valid_iff.mp h₁
    obtain ⟨cpuCores, hcpu, rfl⟩ := Checked.map_eq_valid_iff.mp h₂
    exact ⟨hcpu, hmemory, htimeout⟩
  · rintro ⟨hcpu, hmemory, htimeout⟩
    rw [ofMembers, hcpu, hmemory, htimeout]
    rfl

namespace Manifest

variable {ms : Json.Members} {v : Json} {m : Manifest} {n : Int} {failure : Failure}

/-- What a manifest that has been checked is like: the content hash of its module has its form, and
the job is given something of every resource. -/
structure IsSound (m : Manifest) : Prop where
  moduleHash : ∃ digits, digits ≠ [] ∧ m.moduleHash = ("sha256:" : Text) ++ digits
  cpuCores : 1 ≤ m.limits.cpuCores
  memoryMb : 1 ≤ m.limits.memoryMb
  timeoutSeconds : 1 ≤ m.limits.timeoutSeconds

/-- Members give a content hash of the wrong form that holds half of a surrogate pair. -/
def HashUntellable (ms : Json.Members) : Prop :=
  ∃ given, ms.get? "module_hash" = some (.string given) ∧
    ContentHash.isWellFormed given = false ∧ given.isScalar = false

theorem one_le_of_amount (h : Limits.amount v = .valid n) : 1 ≤ n := by
  obtain ⟨k, rfl, hleast, -⟩ := (takes_amount v).mp ⟨n, h⟩
  have hk : ¬ k < 1 := Int.not_lt.mpr (hleast 1 rfl)
  rw [Limits.amount, Field.strictInteger, Checked.andThen, Field.atLeast, if_neg hk] at h
  cases h
  exact Int.not_lt.mp hk

/-- An amount that is read is at least one, if the default is. -/
theorem one_le_of_withDefault {name : Text} {default : Int} (hd : 1 ≤ default)
    (h : Field.withDefault ms name default Limits.amount = .valid n) : 1 ≤ n := by
  unfold Field.withDefault at h
  split at h
  · exact one_le_of_amount (Checked.under_eq_valid_iff.mp h)
  · cases h
    exact hd

/-- So are manifests. -/
theorem ofMembers_eq_valid_iff :
    ofMembers ms = .valid m ↔
      Field.withDefault ms "version" currentVersion Field.text = .valid m.version ∧
      Field.required ms "module_hash" contentHash = .valid m.moduleHash ∧
      Limits.ofMembers ms = .valid m.limits := by
  constructor
  · intro h
    unfold ofMembers at h
    obtain ⟨_, limits, h₁, hlimits, rfl⟩ := Checked.seq_eq_valid_iff.mp h
    obtain ⟨_, moduleHash, h₂, hmodule, rfl⟩ := Checked.seq_eq_valid_iff.mp h₁
    obtain ⟨version, hversion, rfl⟩ := Checked.map_eq_valid_iff.mp h₂
    exact ⟨hversion, hmodule, hlimits⟩
  · rintro ⟨hversion, hmodule, hlimits⟩
    rw [ofMembers, hversion, hmodule, hlimits]
    rfl

theorem isSound_of_ofMembers (h : ofMembers ms = .valid m) : m.IsSound := by
  obtain ⟨-, hmodule, hlimits⟩ := ofMembers_eq_valid_iff.mp h
  obtain ⟨hcpu, hmemory, htimeout⟩ := Limits.ofMembers_eq_valid_iff.mp hlimits
  obtain ⟨v, -, hv⟩ := Field.required_eq_valid_iff.mp hmodule
  exact ⟨ContentHash.isWellFormed_iff.mp (contentHash_eq_valid_iff.mp hv).2,
    one_le_of_withDefault (by decide) hcpu, one_le_of_withDefault (by decide) hmemory,
    one_le_of_withDefault (by decide) htimeout⟩

theorem tellable_amount (v : Json) : (Limits.amount v).Tellable := by
  cases v with
  | int n =>
    rw [Limits.amount, Field.strictInteger, Checked.andThen, Field.atLeast]
    split
    · exact Checked.tellable_fault rfl
    · exact Checked.tellable_valid n
  | _ => exact Checked.tellable_fault rfl

/-- What is wrong with a content hash can be told unless it is of the wrong form and cannot be
encoded: the complaint quotes it. -/
theorem tellable_contentHash_iff :
    (contentHash v).Tellable ↔
      ∀ given, v = .string given → ContentHash.isWellFormed given = false →
        given.isScalar = true := by
  cases v with
  | string given =>
    cases hform : ContentHash.isWellFormed given with
    | true =>
      have hvalid : contentHash (.string given) = .valid given :=
        contentHash_eq_valid_iff.mpr ⟨rfl, hform⟩
      rw [hvalid]
      refine iff_of_true (Checked.tellable_valid given) ?_
      rintro others ⟨⟩ hwrong
      rw [hform] at hwrong
      cases hwrong
    | false =>
      have hfault : contentHash (.string given) = .fault (.notContentHash given) := by
        simp [contentHash, Field.text, Checked.andThen, hform]
      rw [hfault, Checked.tellable_iff]
      constructor
      · rintro h others ⟨⟩ -
        exact Field.encodeFault?_notContentHash.mp (h _ List.mem_cons_self)
      · intro h f hf
        rw [List.mem_singleton.mp hf]
        exact Field.encodeFault?_notContentHash.mpr (h given rfl hform)
  | _ =>
    refine iff_of_true (Checked.tellable_fault rfl) ?_
    rintro given ⟨⟩

theorem tellable_moduleHash_iff :
    (Field.required ms "module_hash" contentHash).Tellable ↔ ¬ HashUntellable ms := by
  unfold Field.required HashUntellable
  cases ms.get? "module_hash" with
  | none =>
    refine iff_of_true (Checked.tellable_under_iff.mpr (Checked.tellable_fault rfl)) ?_
    rintro ⟨given, ⟨⟩, -⟩
  | some v =>
    dsimp only
    rw [Checked.tellable_under_iff, tellable_contentHash_iff]
    constructor
    · rintro h ⟨given, hv, hform, hscalar⟩
      rw [h given (Option.some.inj hv) hform] at hscalar
      cases hscalar
    · rintro h given rfl hform
      exact Bool.of_not_eq_false fun hscalar => h ⟨given, rfl, hform, hscalar⟩

/-- **What is wrong with the members of a manifest can be told**, but for one fault of one field. -/
theorem tellable_ofMembers_iff : (ofMembers ms).Tellable ↔ ¬ HashUntellable ms := by
  have hversion := Field.tellable_withDefault Field.tellable_text ms "version" currentVersion
  have hamount (name : Text) (n : Int) := Field.tellable_withDefault tellable_amount ms name n
  unfold ofMembers Limits.ofMembers
  simp only [Checked.tellable_seq_iff, Checked.tellable_map_iff, hversion, hamount, true_and,
    and_true]
  exact tellable_moduleHash_iff

theorem isSound_of_ofValue (h : ofValue v = .ok m) : m.IsSound := by
  cases v with
  | object ms => exact isSound_of_ofMembers (Checked.orFail_eq_ok_iff.mp h)
  | _ => cases h

theorem kind_of_ofValue (h : ofValue v = .error failure)
    (ht : ∀ ms, v = .object ms → ¬ HashUntellable ms) : failure.kind = .format := by
  cases v with
  | object ms =>
    obtain ⟨invalid, rfl⟩ := (tellable_ofMembers_iff.mpr (ht ms rfl)).orFail h
    rfl
  | _ =>
    cases h
    rfl

theorem ofValue_of_untellable (h : HashUntellable ms) :
    ∃ fault, ofValue (.object ms) = .error (.unencodable fault) := by
  have hnot : ¬ (ofMembers ms).Tellable := fun ht => tellable_ofMembers_iff.mp ht h
  exact Checked.orFail_of_not_tellable hnot .manifest .badManifest

end Manifest

/-! ## Documents -/

variable {document : Content} {failure : Failure}

/-- The ways in which the reading of a record from a document may end: with a good record, with a
failure of form, or with a plain failure of value if the text of the document holds an integer of
more than 4300 digits. -/
inductive Settles {α : Type} (document : Content) (Good : α → Prop) : Except Failure α → Prop
  | made {a : α} : Good a → Settles document Good (.ok a)
  | malformed {failure : Failure} : failure.kind = .format → Settles document Good (.error failure)
  | longInteger {failure : Failure} {t : Text} : failure.kind = .value → document.DecodesTo t →
      Json.HoldsLongLiteral t → Settles document Good (.error failure)

def Manifest.DocumentUntellable (document : Content) : Prop :=
  ∃ ms, Json.ofDocument document = .ok (.object ms) ∧ HashUntellable ms

/-- A document that cannot be read at all settles the reading of a record. -/
theorem Settles.of_unread {α : Type} {Good : α → Prop} (hs : document.IsShallow)
    (h : Json.ofDocument document = .error failure) :
    Settles document Good (.error failure) := by
  rcases Json.ofDocument_error h with hformat | ⟨digits, rfl, hlong⟩ | ⟨-, hdeep⟩
  · exact .malformed hformat
  · obtain ⟨t, ht, hholds⟩ := Json.holdsLongLiteral_of_readDocument hlong
    exact .longInteger rfl ht hholds
  · exact absurd hdeep (Json.ne_tooDeep_of_isShallow hs)

namespace Receipt

theorem exists_ofDocument_iff :
    (∃ r, ofDocument document = .ok r) ↔
      ∃ ms, Json.ofDocument document = .ok (.object ms) ∧ IsWire ms := by
  constructor
  · rintro ⟨r, hr⟩
    obtain ⟨v, hread, hv⟩ := bind_eq_ok hr
    obtain ⟨ms, rfl, -⟩ := ofValue_eq_ok_iff.mp hv
    exact ⟨ms, hread, exists_ofValue_iff.mp ⟨r, hv⟩⟩
  · rintro ⟨ms, hread, hms⟩
    rw [ofDocument, hread]
    exact exists_ofValue_iff.mpr hms

theorem ofDocument_settles (hs : document.IsShallow) :
    Settles document InRange (ofDocument document) := by
  cases hr : ofDocument document with
  | ok r => exact .made (inRange_of_ofDocument hr)
  | error failure =>
    rcases bind_eq_error hr with hunread | ⟨v, -, hv⟩
    · exact .of_unread hs hunread
    · exact .malformed (kind_of_ofValue hv)

end Receipt

namespace Manifest

theorem exists_ofDocument_iff :
    (∃ m, ofDocument document = .ok m) ↔
      ∃ ms, Json.ofDocument document = .ok (.object ms) ∧
        (∀ p ∈ Schema.manifest.properties, p.Admits ms) ∧ NamesModule ms := by
  constructor
  · rintro ⟨m, hm⟩
    obtain ⟨v, hread, hv⟩ := bind_eq_ok hm
    cases v with
    | object ms => exact ⟨ms, hread, exists_ofValue_iff.mp ⟨m, hv⟩⟩
    | _ => cases hv
  · rintro ⟨ms, hread, hms⟩
    rw [ofDocument, hread]
    exact exists_ofValue_iff.mpr hms

theorem ofDocument_of_untellable (h : DocumentUntellable document) :
    ∃ fault, ofDocument document = .error (.unencodable fault) := by
  obtain ⟨ms, hread, hms⟩ := h
  obtain ⟨fault, hfault⟩ := ofValue_of_untellable hms
  refine ⟨fault, ?_⟩
  rw [ofDocument, hread]
  exact hfault

theorem not_settles_of_untellable (h : DocumentUntellable document) :
    ¬ Settles document IsSound (ofDocument document) := by
  obtain ⟨fault, hfault⟩ := ofDocument_of_untellable h
  rw [hfault]
  intro hsettles
  cases hsettles with
  | malformed hkind => cases hkind
  | longInteger hkind => cases hkind

theorem ofDocument_settles (hs : document.IsShallow) (h : ¬ DocumentUntellable document) :
    Settles document IsSound (ofDocument document) := by
  cases hm : ofDocument document with
  | ok m =>
    obtain ⟨v, -, hv⟩ := bind_eq_ok hm
    exact .made (isSound_of_ofValue hv)
  | error failure =>
    rcases bind_eq_error hm with hunread | ⟨v, hv, hfails⟩
    · exact .of_unread hs hunread
    · refine .malformed (kind_of_ofValue hfails ?_)
      rintro ms rfl hms
      exact h ⟨ms, hv, hms⟩

end Manifest

/-- **How reading ends.** A receipt that is read from a shallow document is in range; otherwise the
failure is one of form, or one of value for an integer that is too long. A manifest is read in the
same way, except from a document that gives a content hash of the wrong form with half of a
surrogate pair in it. -/
theorem reading_settles (document : Content) (hs : document.IsShallow) :
    Settles document Receipt.InRange (Receipt.ofDocument document) ∧
      ((∃ r, Receipt.ofDocument document = .ok r) ↔
        ∃ ms, Json.ofDocument document = .ok (.object ms) ∧ Receipt.IsWire ms) ∧
      (Settles document Manifest.IsSound (Manifest.ofDocument document) ↔
        ¬ Manifest.DocumentUntellable document) ∧
      (Manifest.DocumentUntellable document → ∃ failure,
        Manifest.ofDocument document = .error failure ∧ failure.kind = .encoding) ∧
      ((∃ m, Manifest.ofDocument document = .ok m) ↔
        ∃ ms, Json.ofDocument document = .ok (.object ms) ∧
          (∀ p ∈ Schema.manifest.properties, p.Admits ms) ∧ Manifest.NamesModule ms) := by
  refine ⟨Receipt.ofDocument_settles hs, Receipt.exists_ofDocument_iff,
    ⟨?_, Manifest.ofDocument_settles hs⟩, ?_, Manifest.exists_ofDocument_iff⟩
  · intro hsettles huntellable
    exact Manifest.not_settles_of_untellable huntellable hsettles
  · intro h
    obtain ⟨fault, hfault⟩ := Manifest.ofDocument_of_untellable h
    exact ⟨_, hfault, rfl⟩

namespace Settles.Sample

/-- A document that gives half of a surrogate pair for a content hash. -/
def halfHash : Content := .text "\x7b\n  \"module_hash\": \"\\ud800\"\n\x7d"

def halfHashMembers : Json.Members := [("module_hash", .string [CodePoint.ofNat 0xD800])]

theorem halfHash_eq : halfHash = .text ((Json.object halfHashMembers).render .pretty) := rfl

theorem isShallow_halfHash : halfHash.IsShallow := by
  intro t ht
  cases ht
  decide

theorem ofDocument_halfHash : Json.ofDocument halfHash = .ok (.object halfHashMembers) := by
  have hwrite : (Json.object halfHashMembers).write .pretty =
      .ok ((Json.object halfHashMembers).render .pretty) := rfl
  have hread := Json.read_write rfl (List.forall_mem_nil _) hwrite
  rw [List.append_nil] at hread
  rw [halfHash_eq]
  exact Json.ofDocument_of_begins ⟨_, _, _, rfl, by decide, by decide, by decide⟩ hread

theorem untellable_halfHash : Manifest.DocumentUntellable halfHash :=
  ⟨_, ofDocument_halfHash, _, rfl, by decide, by decide⟩

end Settles.Sample

/-- The manifest with half of a surrogate pair for a content hash: as a receipt, the document is
refused for its form. -/
theorem reading_settles_halfHash :
    Settles.Sample.halfHash.IsShallow ∧
      Settles Settles.Sample.halfHash Receipt.InRange (Receipt.ofDocument Settles.Sample.halfHash) ∧
      ∃ failure, Manifest.ofDocument Settles.Sample.halfHash = .error failure ∧
        failure.kind = .encoding := by
  obtain ⟨hreceipt, -, -, hmanifest, -⟩ := reading_settles _ Settles.Sample.isShallow_halfHash
  exact ⟨Settles.Sample.isShallow_halfHash, hreceipt, hmanifest Settles.Sample.untellable_halfHash⟩

/-- Reading that manifest ends in none of the three ways. -/
theorem not_settles_halfHash :
    Settles.Sample.halfHash.IsShallow ∧
      ¬ Settles Settles.Sample.halfHash Manifest.IsSound
        (Manifest.ofDocument Settles.Sample.halfHash) :=
  ⟨Settles.Sample.isShallow_halfHash,
    Manifest.not_settles_of_untellable Settles.Sample.untellable_halfHash⟩

end WasmReceipt
