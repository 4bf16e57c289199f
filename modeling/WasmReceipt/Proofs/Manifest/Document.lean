import WasmReceipt.Proofs.Json.Integers
import WasmReceipt.Proofs.Json.SurrogatePairs
import WasmReceipt.Proofs.Manifest.Changes

/-! # Manifests and their documents

A manifest has a document exactly if none of its resources is too long an integer to be written. The
document is read as the manifest with the surrogate pairs in its texts joined, and that manifest has
the same document. -/

namespace WasmReceipt

namespace Limits

variable {limits : Limits} {ms : Json.Members} {n : Int}

/-- Every resource has at most 4300 digits. -/
structure IsWritable (limits : Limits) : Prop where
  cpuCores : Decimal.digitCount limits.cpuCores ≤ 4300
  memoryMb : Decimal.digitCount limits.memoryMb ≤ 4300
  timeoutSeconds : Decimal.digitCount limits.timeoutSeconds ≤ 4300

/-- An amount that is read can be written if the members and the default can. -/
theorem digitCount_of_withDefault {name : Text} {default : Int}
    (hms : ∀ c ∈ ms, c.2.integersFit = true) (hd : Decimal.digitCount default ≤ 4300)
    (h : Field.withDefault ms name default amount = .valid n) : Decimal.digitCount n ≤ 4300 := by
  unfold Field.withDefault at h
  split at h
  · rename_i v hget
    obtain ⟨rfl, -⟩ := amount_eq_valid_iff.mp (Checked.under_eq_valid_iff.mp h)
    obtain ⟨before, behind, rfl, -⟩ := List.lookup_eq_some_iff.mp hget
    exact of_decide_eq_true (hms (name, .int n) (by simp))
  · cases h
    exact hd

theorem isWritable_of_ofMembers (hms : ∀ c ∈ ms, c.2.integersFit = true)
    (h : ofMembers ms = .valid limits) : limits.IsWritable := by
  obtain ⟨hcpu, hmemory, htimeout⟩ := ofMembers_eq_valid_iff.mp h
  exact ⟨digitCount_of_withDefault hms (by decide) hcpu,
    digitCount_of_withDefault hms (by decide) hmemory,
    digitCount_of_withDefault hms (by decide) htimeout⟩

end Limits

namespace Manifest

variable {m changed : Manifest} {t : Text} {document : Content}

/-- The manifest with the surrogate pairs in its texts joined. -/
def paired (m : Manifest) : Manifest :=
  { m with version := m.version.paired, moduleHash := m.moduleHash.paired }

def HoldsPair (m : Manifest) : Prop := m.version.HoldsPair ∨ m.moduleHash.HoldsPair

theorem paired_eq_self_iff : m.paired = m ↔ ¬ m.HoldsPair := by
  rw [HoldsPair, not_or, ← Text.paired_eq_self_iff, ← Text.paired_eq_self_iff]
  constructor
  · intro h
    exact ⟨congrArg version h, congrArg moduleHash h⟩
  · rintro ⟨hversion, hhash⟩
    rw [paired, hversion, hhash]

/-- A content hash keeps its form: there is no surrogate in its beginning. -/
theorem IsSound.paired (h : m.IsSound) : m.paired.IsSound := by
  obtain ⟨⟨digits, hdigits, hhash⟩, hcpu, hmemory, htimeout⟩ := h
  refine ⟨⟨Text.paired digits, Text.paired_ne_nil hdigits, ?_⟩, hcpu, hmemory, htimeout⟩
  have hscheme : ∀ c ∈ ("sha256:" : Text), c.isHighSurrogate = false := by decide
  rw [Manifest.paired, hhash]
  exact Text.paired_append hscheme digits

/-! ## Writing -/

theorem integersFit_toValue_iff : m.toValue.integersFit = true ↔ m.limits.IsWritable := by
  rw [toValue, Json.integersFit_object_iff]
  simp only [toMembers, Limits.toMembers, List.forall_mem_cons, List.not_mem_nil, false_implies,
    implies_true, and_true, Json.integersFit, true_and, Decimal.isWritable, decide_eq_true_eq]
  constructor
  · rintro ⟨hcpu, hmemory, htimeout⟩
    exact ⟨hcpu, hmemory, htimeout⟩
  · rintro ⟨hcpu, hmemory, htimeout⟩
    exact ⟨hcpu, hmemory, htimeout⟩

theorem write_toValue (m : Manifest) :
    m.toValue.write .pretty =
      if m.toValue.integersFit then .ok (m.toValue.render .pretty) else .error .longInteger := by
  have hdepth : ¬ Json.maxDepth < m.toValue.depth := by
    have hone : m.toValue.depth = 1 := rfl
    rw [hone]
    decide
  rw [Json.write, if_neg hdepth]

theorem toDocument_eq (h : m.limits.IsWritable) :
    m.toDocument = .ok (m.toValue.render .pretty) := by
  rw [toDocument, Json.toDocument, write_toValue, if_pos (integersFit_toValue_iff.mpr h)]
  rfl

theorem toDocument_eq_error (h : ¬ m.limits.IsWritable) :
    m.toDocument = .error .longIntegerText := by
  rw [toDocument, Json.toDocument, write_toValue, if_neg (mt integersFit_toValue_iff.mp h)]
  rfl

/-- **A manifest has a document exactly if its resources can be written.** -/
theorem toDocument_eq_ok_iff :
    m.toDocument = .ok t ↔ m.limits.IsWritable ∧ t = m.toValue.render .pretty := by
  by_cases h : m.limits.IsWritable
  · rw [toDocument_eq h, Except.ok.injEq, eq_comm, and_iff_right h]
  · rw [toDocument_eq_error h]
    exact iff_of_false nofun fun hboth => h hboth.1

/-- **Joining pairs changes nothing that is written.** -/
theorem render_paired (m : Manifest) :
    m.paired.toValue.render .pretty = m.toValue.render .pretty := by
  simp only [Json.render, toValue, toMembers, Json.renderAt, Json.renderMembers, paired,
    Limits.toMembers, Json.Layout.pretty, Json.stringText_paired]

theorem toDocument_paired (m : Manifest) : m.paired.toDocument = m.toDocument := by
  by_cases h : m.limits.IsWritable
  · have hpaired : m.paired.limits.IsWritable := h
    rw [toDocument_eq h, toDocument_eq hpaired, render_paired]
  · have hpaired : ¬ m.paired.limits.IsWritable := h
    rw [toDocument_eq_error h, toDocument_eq_error hpaired]

/-! ## Reading back -/

theorem readBack_toValue (m : Manifest) : m.toValue.readBack true = m.paired.toValue := rfl

/-- **The document of a sound manifest is read as that manifest**, with surrogate pairs joined. -/
theorem ofDocument_toDocument (hm : m.IsSound) (h : m.toDocument = .ok t) :
    ofDocument (.text t) = .ok m.paired := by
  have hread : Json.ofDocument (.text t) = .ok m.paired.toValue := by
    rw [← readBack_toValue]
    exact Json.ofDocument_of_toDocument rfl h
  rw [ofDocument, hread]
  exact ofValue_toValue_iff.mpr hm.paired

/-- A manifest that is read from a document can be written. -/
theorem isWritable_of_ofDocument (h : ofDocument document = .ok m) : m.limits.IsWritable := by
  obtain ⟨v, hread, hv⟩ := bind_eq_ok h
  have hfit := Json.integersFit_of_ofDocument hread
  cases v with
  | object ms =>
    have hmembers : ofMembers ms = .valid m := Checked.orFail_eq_ok_iff.mp hv
    obtain ⟨-, -, hlimits⟩ := ofMembers_eq_valid_iff.mp hmembers
    exact Limits.isWritable_of_ofMembers (Json.integersFit_object_iff.mp hfit) hlimits
  | _ => cases hv

theorem isSound_of_ofDocument (h : ofDocument document = .ok m) : m.IsSound := by
  obtain ⟨v, -, hv⟩ := bind_eq_ok h
  exact isSound_of_ofValue hv

/-- **What is read, written and read again is written as before.** -/
theorem exists_reprint (h : ofDocument document = .ok m) :
    ∃ p, m.toDocument = .ok p ∧
      ∃ again, ofDocument (.text p) = .ok again ∧ again.toDocument = .ok p := by
  have hp := toDocument_eq (isWritable_of_ofDocument h)
  refine ⟨_, hp, m.paired, ofDocument_toDocument (isSound_of_ofDocument h) hp, ?_⟩
  rw [toDocument_paired, hp]

/-! ## How manifests come about -/

/-- The ways in which a manifest comes about: from a module file and resources that have been
checked, from a value, from a document, and from another manifest by changes. -/
inductive Arises : Manifest → Prop
  | moduleFile {tree : FileTree} {p : Path} {ms : Json.Members} {limits : Limits} {m : Manifest} :
      Limits.ofGiven ms = .ok limits → ofModuleFile tree p limits = .ok m → Arises m
  | value {v : Json} {m : Manifest} : ofValue v = .ok m → Arises m
  | document {document : Content} {m : Manifest} : ofDocument document = .ok m → Arises m
  | changed {m changed : Manifest} {a : Changes} :
      Arises m → m.withLimits a.members = .ok changed → Arises changed

theorem Arises.isSound (h : Arises m) : m.IsSound := by
  induction h with
  | moduleFile hlimits hmade =>
    obtain ⟨content, -, rfl⟩ := ofModuleFile_eq_ok_iff.mp hmade
    exact isSound_of_ofBytes (Limits.isPositive_of_ofGiven hlimits)
  | value h => exact isSound_of_ofValue h
  | document h => exact isSound_of_ofDocument h
  | changed _ hchanged ih =>
    obtain ⟨ha, hchanged⟩ := (withLimits_eq_ok_iff ih).mp hchanged
    exact hchanged.isSound ih ha.givesAmounts

/-- **How manifests come back from their documents.** A manifest has a document exactly if each of
its resources has at most 4300 digits. The document is read as the manifest with adjacent surrogate
pairs joined, so as that manifest itself exactly if there is no such pair. What is read from any
document is written and read again without a change in what is written. -/
theorem document_comes_back :
    (∀ m : Manifest, Arises m →
      ((∃ t, m.toDocument = .ok t) ↔ m.limits.IsWritable) ∧
      (¬ m.limits.IsWritable → m.toDocument = .error .longIntegerText ∧
        Failure.longIntegerText.kind.isA .value = true) ∧
      ∀ t, m.toDocument = .ok t →
        ofDocument (.text t) = .ok m.paired ∧
          (ofDocument (.text t) = .ok m ↔ ¬ m.HoldsPair)) ∧
    ∀ (document : Content) (m : Manifest), ofDocument document = .ok m →
      ∃ p, m.toDocument = .ok p ∧
        ∃ again, ofDocument (.text p) = .ok again ∧ again.toDocument = .ok p := by
  refine ⟨fun m hm => ⟨?_, fun h => ⟨toDocument_eq_error h, rfl⟩, ?_⟩,
    fun document m h => exists_reprint h⟩
  · constructor
    · rintro ⟨t, ht⟩
      exact (toDocument_eq_ok_iff.mp ht).1
    · intro h
      exact ⟨_, toDocument_eq h⟩
  · intro t ht
    have hback := ofDocument_toDocument hm.isSound ht
    refine ⟨hback, ?_⟩
    rw [hback, Except.ok.injEq]
    exact paired_eq_self_iff

namespace Sample

def halves : Text := [CodePoint.ofNat 0xD83D, CodePoint.ofNat 0xDE00]

def halved : Manifest := ⟨halves, "sha256:a1b2", .standard⟩

theorem reservedName_ne_memory : reservedName ≠ "memory_mb" := by decide

/-- More memory than can be written. -/
def muchMemory : Changes :=
  .single "memory_mb" (.int (Nat.pow 10 Decimal.maxDigits)) reservedName_ne_memory

theorem accepted_muchMemory : muchMemory.Accepted := by
  -- for every power, so that none is evaluated
  have hpos (n : Nat) : (1 : Int) ≤ Nat.pow 10 n := Int.ofNat_le.mpr (Nat.pow_pos (by decide))
  exact List.forall_mem_singleton.mpr ⟨by decide, _, rfl, hpos _⟩

theorem not_isWritable_of_changedBy (h : m.ChangedBy muchMemory.get? changed) :
    ¬ changed.limits.IsWritable := by
  have hmemory : Json.int changed.limits.memoryMb = .int (Nat.pow 10 Decimal.maxDigits) :=
    Option.some.inj (h.limits "memory_mb" (by decide))
  have hlong := Decimal.not_isWritable_pow (Nat.le_refl Decimal.maxDigits)
  rw [← Json.int.inj hmemory, Decimal.isWritable, decide_eq_false_iff_not] at hlong
  exact fun hwritable => hlong hwritable.memoryMb

end Sample

/-- A manifest that comes back as another one, and one that has no document, since it asks for more
memory than can be written. -/
theorem document_comes_back_halved :
    Arises Sample.halved ∧
      (∃ t, Sample.halved.toDocument = .ok t ∧ ofDocument (.text t) ≠ .ok Sample.halved ∧
        ∃ p, Sample.halved.paired.toDocument = .ok p ∧
          ∃ again, ofDocument (.text p) = .ok again ∧ again.toDocument = .ok p) ∧
      ∃ much, Arises much ∧ much.toDocument = .error .longIntegerText := by
  have harises : Arises Sample.halved := .value (v := Sample.halved.toValue) rfl
  have hwritable : Sample.halved.limits.IsWritable := ⟨by decide, by decide, by decide⟩
  have hpair : Sample.halved.HoldsPair := .inl ⟨[], _, _, [], rfl, by decide, by decide⟩
  obtain ⟨hall, hreprint⟩ := document_comes_back
  obtain ⟨hdocument, -, hback⟩ := hall _ harises
  obtain ⟨t, ht⟩ := hdocument.mpr hwritable
  obtain ⟨hread, hsame⟩ := hback t ht
  obtain ⟨much, hmuch⟩ :=
    (exists_withLimits_iff harises.isSound).mpr Sample.accepted_muchMemory
  have hchanged := ((withLimits_eq_ok_iff harises.isSound).mp hmuch).2
  obtain ⟨-, hrefused, -⟩ := hall much (.changed harises hmuch)
  exact ⟨harises, ⟨t, ht, fun h => hsame.mp h hpair, hreprint _ _ hread⟩, much,
    .changed harises hmuch, (hrefused (Sample.not_isWritable_of_changedBy hchanged)).1⟩

end Manifest

end WasmReceipt
