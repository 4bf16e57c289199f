import WasmReceipt.Execution.Remote
import WasmReceipt.Proofs.FileTree

/-! # Requests that may leave

A request is prepared from the file of a path. It may leave when the file holds the module that the
manifest names; else the refusal says what is wrong, and nobody outside has been called. -/

namespace WasmReceipt

/-- The file of a path holds the module of a manifest: it may be read and is not empty, and its
bytes have the content hash that the manifest names. -/
structure FileTree.HoldsModule (tree : FileTree) (p : Path) (manifest : Manifest)
    (content : Bytes) : Prop where
  file : tree.HoldsReadable p content
  ne_nil : content ≠ []
  moduleHash : ContentHash.ofBytes content = manifest.moduleHash

/-- The request to run the module of a manifest, without arguments. -/
def Manifest.request (manifest : Manifest) (jobId : Text) (content : Bytes) : JobRequest :=
  ⟨jobId, manifest.moduleHash, content, [], manifest⟩

namespace JobRequest

/-- The request for a file holds what the file holds, and it has an id. -/
theorem ofModuleFile_of_holdsReadable {tree : FileTree} {p : Path} {content : Bytes}
    (h : tree.HoldsReadable p content) (manifest : Manifest) (jobId : Option Text) (fresh : Text)
    (arguments : List Text) :
    ofModuleFile tree p manifest jobId fresh arguments =
      .ok ⟨if (jobId.getD []).isEmpty then fresh else jobId.getD [], manifest.moduleHash, content,
        arguments, manifest⟩ := by
  rw [ofModuleFile, FileTree.isFile_of_holdsFile h.holdsFile, FileTree.read_eq_ok_iff.mpr h]
  rfl

theorem validate_eq_ok_iff {request : JobRequest} :
    request.validate = .ok () ↔
      request.jobId ≠ [] ∧ request.content ≠ [] ∧
        ContentHash.ofBytes request.content = request.moduleHash := by
  unfold validate
  dsimp only
  split_ifs with hid hcontent hhash
  · exact iff_of_false nofun fun h => h.1 (List.isEmpty_iff.mp hid)
  · exact iff_of_false nofun fun h => h.2.1 (List.isEmpty_iff.mp hcontent)
  · exact iff_of_false nofun fun h => hhash h.2.2
  · rw [List.isEmpty_iff] at hid hcontent
    exact iff_of_true rfl ⟨hid, hcontent, not_not.mp hhash⟩

end JobRequest

namespace Collaborators

variable {tree : FileTree} {p : Path} {manifest : Manifest} {fresh : Text} {content : Bytes}
  {request : JobRequest} {failure : Failure}

/-- Why no request leaves. -/
inductive Refusal (tree : FileTree) (p : Path) (manifest : Manifest) (fresh : Text) :
    Failure → Prop
  | refused {trouble : PathTrouble} : tree.Refuses p trouble →
      Refusal tree p manifest fresh (.path trouble p)
  | noFile : tree.isFile p = .ok false → Refusal tree p manifest fresh (.noModule p)
  | noId : fresh = [] → Refusal tree p manifest fresh .emptyJobId
  | empty : tree.HoldsReadable p [] → Refusal tree p manifest fresh .emptyModule
  | otherModule {content : Bytes} : tree.HoldsReadable p content →
      ContentHash.ofBytes content ≠ manifest.moduleHash →
      Refusal tree p manifest fresh
        (.moduleMismatch manifest.moduleHash (ContentHash.ofBytes content))

theorem ofModuleFile_of_holdsReadable (h : tree.HoldsReadable p content) :
    JobRequest.ofModuleFile tree p manifest none fresh [] =
      .ok (manifest.request fresh content) :=
  JobRequest.ofModuleFile_of_holdsReadable h manifest none fresh []

theorem validate_request :
    (manifest.request fresh content).validate =
      if fresh.isEmpty then .error .emptyJobId
      else if content.isEmpty then .error .emptyModule
      else if ContentHash.ofBytes content ≠ manifest.moduleHash then
        .error (.moduleMismatch manifest.moduleHash (ContentHash.ofBytes content))
      else .ok () := rfl

/-- A request for a file leaves when it passes the check. -/
theorem prepare_of_holdsReadable (h : tree.HoldsReadable p content) :
    prepare tree p manifest fresh =
      (manifest.request fresh content).validate.map fun _ => manifest.request fresh content := by
  rw [prepare, ofModuleFile_of_holdsReadable h]
  rfl

/-- Without a file there is nothing to prepare a request from. -/
theorem refusal_of_isFile (h : tree.isFile p ≠ .ok true) :
    ∃ failure, Refusal tree p manifest fresh failure ∧
      prepare tree p manifest fresh = .error failure := by
  cases hfile : tree.isFile p with
  | error failure =>
    obtain ⟨trouble, rfl, hrefuses⟩ := FileTree.isFile_eq_error hfile
    refine ⟨_, .refused hrefuses, ?_⟩
    rw [prepare, JobRequest.ofModuleFile, hfile]
    rfl
  | ok found =>
    cases found with
    | true => exact absurd hfile h
    | false =>
      refine ⟨_, .noFile hfile, ?_⟩
      rw [prepare, JobRequest.ofModuleFile, hfile]
      rfl

/-- Either there is the module of the manifest to send, or something is wrong. -/
theorem prepare_cases (tree : FileTree) (p : Path) (manifest : Manifest) (fresh : Text) :
    (∃ content, fresh ≠ [] ∧ tree.HoldsModule p manifest content ∧
      prepare tree p manifest fresh = .ok (manifest.request fresh content)) ∨
    ∃ failure, Refusal tree p manifest fresh failure ∧
      prepare tree p manifest fresh = .error failure := by
  by_cases hfile : tree.isFile p = .ok true
  · obtain ⟨content, hheld⟩ := FileTree.exists_holdsFile hfile
    rcases hheld.isUnreadable_or with hunreadable | hcontent
    · refine .inr ⟨_, .refused (.unreadable hunreadable), ?_⟩
      rw [prepare, JobRequest.ofModuleFile, hfile]
      dsimp only [bind, Except.bind]
      rw [FileTree.read_of_isUnreadable hunreadable]
      rfl
    rw [prepare_of_holdsReadable hcontent, validate_request]
    by_cases hid : fresh = []
    · rw [if_pos (List.isEmpty_iff.mpr hid)]
      exact .inr ⟨_, .noId hid, rfl⟩
    rw [if_neg (by simpa using hid)]
    by_cases hempty : content = []
    · rw [if_pos (List.isEmpty_iff.mpr hempty)]
      rw [hempty] at hcontent
      exact .inr ⟨_, .empty hcontent, rfl⟩
    rw [if_neg (by simpa using hempty)]
    by_cases hhash : ContentHash.ofBytes content = manifest.moduleHash
    · rw [if_neg (not_not_intro hhash)]
      exact .inl ⟨content, hid, ⟨hcontent, hempty, hhash⟩, rfl⟩
    · rw [if_pos hhash]
      exact .inr ⟨_, .otherModule hcontent hhash, rfl⟩
  · exact .inr (refusal_of_isFile hfile)

/-- **A request leaves exactly when there is the module of the manifest to send.** -/
theorem prepare_eq_ok_iff :
    prepare tree p manifest fresh = .ok request ↔
      fresh ≠ [] ∧ ∃ content, tree.HoldsModule p manifest content ∧
        request = manifest.request fresh content := by
  constructor
  · intro h
    rcases prepare_cases tree p manifest fresh with ⟨content, hid, hmodule, hok⟩ | ⟨_, -, herror⟩
    · rw [h] at hok
      exact ⟨hid, content, hmodule, Except.ok.inj hok⟩
    · rw [h] at herror
      cases herror
  · rintro ⟨hid, content, hmodule, rfl⟩
    rw [prepare_of_holdsReadable hmodule.file, validate_request, if_neg (by simpa using hid),
      if_neg (by simpa using hmodule.ne_nil), if_neg (not_not_intro hmodule.moduleHash)]
    rfl

theorem refusal_of_prepare (h : prepare tree p manifest fresh = .error failure) :
    Refusal tree p manifest fresh failure := by
  rcases prepare_cases tree p manifest fresh with ⟨_, -, -, hok⟩ | ⟨_, hrefusal, herror⟩
  · rw [h] at hok
    cases hok
  · rw [h] at herror
    cases herror
    exact hrefusal

end Collaborators

end WasmReceipt
