import WasmReceipt.Proofs.CommandLine.Verification
import WasmReceipt.Proofs.FileTree
import WasmReceipt.Proofs.Json.Canonical

/-! # What a report on a verification vouches for

A positive report is written only by a run in which the receipt checks out, and it names the key
that the receipt was checked against. There is one exception: a receipt of an execution by the
caller is checked against no key, and yet the report on it names any key that was given. -/

namespace WasmReceipt

/-! ## Writing a report -/

/-- The ways in which writing a report ends: no file has a new content, or the report is in a
file. -/
inductive Reporting (tree : FileTree) (directory : Path) (name : Text) (report : Json) :
    Except Failure Path → FileTree → Prop
  | unwritten {failure : Failure} {after : FileTree} : tree.AddsNothing after →
      Reporting tree directory name report (.error failure) after
  | written {t : Text} {after : FileTree} {place : Location} : report.toCanonical = .ok t →
      tree.Adds after (directory.join (Path.ofText name)) (Utf8.encodeLoose (t ++ "\n")) place →
      Reporting tree directory name report (.ok (directory.join (Path.ofText name))) after

theorem Reporting.addsNothing {tree after : FileTree} {directory : Path} {name : Text}
    {report : Json} {failure : Failure}
    (h : Reporting tree directory name report (.error failure) after) : tree.AddsNothing after := by
  cases h with
  | unwritten hadds => exact hadds

theorem Reporting.exists_adds {tree after : FileTree} {directory q : Path} {name : Text} {report : Json}
    (h : Reporting tree directory name report (.ok q) after) :
    ∃ t place, report.toCanonical = .ok t ∧ q = directory.join (Path.ofText name) ∧
      tree.Adds after (directory.join (Path.ofText name)) (Utf8.encodeLoose (t ++ "\n")) place := by
  cases h with
  | written hcanonical hadds => exact ⟨_, _, hcanonical, rfl, hadds⟩

theorem reporting_writeReport (tree : FileTree) (directory : Path) (name : Text) (report : Json) :
    Reporting tree directory name report ((writeReport directory name report).run.run tree).1
      ((writeReport directory name report).run.run tree).2 := by
  have hmade := FileTree.preserves_makeDirectories tree directory
  have hmake := FileTree.run_makeDirectory tree directory
  generalize tree.makeDirectories directory = made at hmade hmake
  obtain ⟨made, outcome⟩ := made
  unfold writeReport
  cases outcome with
  | error failure =>
    rw [run_bind_of_error hmake]
    exact .unwritten hmade.addsNothing
  | ok _ =>
    rw [run_bind_of_ok hmake]
    dsimp only
    cases hcanonical : report.toCanonical with
    | error failure => exact .unwritten hmade.addsNothing
    | ok t =>
      dsimp only
      have hwriting := FileTree.writing_writeText made (directory.join (Path.ofText name)) (t ++ "\n")
      cases hwrite :
        (FileTree.writeText (directory.join (Path.ofText name)) (t ++ "\n")).run.run made with
      | mk outcome after =>
        rw [hwrite] at hwriting
        cases hwriting with
        | unwritten hadds =>
          rw [run_bind_of_error hwrite]
          exact .unwritten (hmade.trans_addsNothing hadds)
        | written _ hadds =>
          rw [run_bind_of_ok hwrite]
          exact .written hcanonical (hmade.trans_adds hadds)

namespace CommandLine

open Session

/-! ## What a report says -/

/-- A document is a positive report that names a key. -/
def Names (content : Bytes) (key : Text) : Prop :=
  ∃ ms : Json.Members, Json.ofDocument (.bytes content) = .ok (.object ms) ∧
    ms.get? "ok" = some (.bool true) ∧ ms.get? "node_pubkey" = some (.string key)

/-- The key that a report on a receipt names. -/
def reportedKey (r : Receipt) (key : Option Text) : Text :=
  let given := key.getD []
  if given.isEmpty then r.nodeKey else given

variable {scheme : SignatureScheme} {s : Session} {isQuiet isVerbose isGood : Bool}
  {file path directory : Path} {key : Option Text} {r : Receipt} {t : Text}

theorem distinct_verificationReport (r : Receipt) (isGood : Bool) (key : Option Text) :
    (verificationReport r isGood key).Distinct := by
  refine Json.distinct_of_flat ?_ ?_
  · simp only [List.map_cons, List.map_nil]
    decide
  · intro m hm
    simp only [List.map_cons, List.map_nil, List.mem_cons, List.not_mem_nil, or_false] at hm
    rcases hm with rfl | rfl | rfl | rfl | rfl <;> rfl

/-- A report is read back with its verdict and its key. -/
theorem names_report_iff (h : (verificationReport r isGood key).toCanonical = .ok t) {k : Text} :
    Names (Utf8.encodeLoose (t ++ "\n")) k ↔ isGood = true ∧ k = reportedKey r key := by
  have hdistinct := distinct_verificationReport r isGood key
  have hwrite : (Json.sorted (verificationReport r isGood key)).write .compact = .ok t := by
    unfold Json.toCanonical Json.canonical at h
    cases hw : (Json.sorted (verificationReport r isGood key)).write .compact with
    | ok written =>
      rw [hw] at h
      cases h
      rfl
    | error fault =>
      rw [hw] at h
      cases h
  have hfree : (Json.sorted (verificationReport r isGood key)).floatFree = true := by
    rw [Json.floatFree_sorted]
    rfl
  have hread := Json.ofDocument_write_line rfl rfl hfree (Json.inOrder_sorted hdistinct).distinct
    hwrite
  obtain ⟨ms, hms, hget⟩ := Json.exists_sorted_get? (hdistinct _ .self)
  have hok : ms.get? "ok" = some (.bool isGood) := hget ("ok", .bool isGood) (by simp)
  have hkey : ms.get? "node_pubkey" = some (.string (reportedKey r key)) :=
    hget ("node_pubkey", .string (reportedKey r key)) (by simp [reportedKey])
  have hms' : Json.sorted (verificationReport r isGood key) = .object ms := hms
  rw [hms'] at hread
  unfold Names
  rw [hread]
  constructor
  · rintro ⟨found, hfound, hgood, hnamed⟩
    cases hfound
    rw [hok] at hgood
    rw [hkey] at hnamed
    cases hgood
    cases hnamed
    exact ⟨rfl, rfl⟩
  · rintro ⟨rfl, rfl⟩
    exact ⟨ms, rfl, hok, hkey⟩

theorem not_names_nil (k : Text) : ¬ Names [] k := by
  rintro ⟨ms, hms, -⟩
  have hread : Json.read [] = .error (.text .expectingValue) := by
    rw [Json.read, Json.tokens_nil]
    rfl
  have hdocument : Json.readDocument (.bytes []) = (Json.read []).mapError .content := rfl
  rw [Json.ofDocument, hdocument, hread] at hms
  cases hms

/-! ## Which keys are named rightly -/

/-- A key in hexadecimal of the right length, under which the scheme accepts the signature of the
receipt over the digest of its message. -/
def VouchedBy (scheme : SignatureScheme) (r : Receipt) (k : Text) : Prop :=
  ∃ key digest signature, Bytes.Spells k key ∧ key.length = SignatureScheme.publicKeyBytes ∧
    Bytes.Spells r.signature signature ∧ signature.length = SignatureScheme.signatureBytes ∧
    r.message >>= messageDigest = .ok digest ∧ scheme.verify key digest signature = true

/-- What a positive report is to promise by the key that it names: the key vouches for the receipt
unless it is the marker of executions by the caller, and it is the marker if no key was checked. -/
structure IsFaithful (scheme : SignatureScheme) (r : Receipt) (k : Text) : Prop where
  vouched : k ≠ Receipt.localMarker → VouchedBy scheme r k
  unchecked : r.isLocal = true → k = Receipt.localMarker

/-- A key is given for the receipt of an execution by the caller, which is checked against none. -/
def GivenInVain (r : Receipt) (key : Option Text) : Prop :=
  r.isLocal = true ∧ ∃ k, key = some k ∧ k ≠ [] ∧ k ≠ Receipt.localMarker

theorem vouchedBy_of_isVouched (h : Receipt.IsVouched scheme r key) :
    VouchedBy scheme r (r.keyFor key) := by
  obtain ⟨-, ht, k, signature, hk, hkl, hs, hsl, hv⟩ := h
  have hdigest : r.message >>= messageDigest =
      .ok (Sha256.digest (Utf8.encodeLoose r.signedText)) := by
    rw [Receipt.message_of_short ht.short]
    exact messageDigest_of_isScalar (Receipt.isScalar_signedText_iff.mpr ht.scalar)
  exact ⟨k, _, signature, hk, hkl, hs, hsl, hdigest, hv⟩

/-- **A report is faithful unless a key was given in vain.** -/
theorem isFaithful_iff (h : r.verify scheme key = .ok true) :
    IsFaithful scheme r (reportedKey r key) ↔ ¬ GivenInVain r key := by
  rcases Receipt.verify_eq_true_iff.mp h with hl | hv
  · have hlocal := Receipt.isLocal_iff.mpr hl
    have hmarker : reportedKey r key = Receipt.localMarker ↔ ¬ GivenInVain r key := by
      unfold reportedKey GivenInVain
      cases key with
      | none => simp [hl]
      | some k =>
        cases k with
        | nil => simp [hl]
        | cons c rest => simp [hlocal]
    rw [← hmarker]
    exact ⟨fun hf => hf.unchecked hlocal, fun hm => ⟨fun hne => (hne hm).elim, fun _ => hm⟩⟩
  · have hnot : ¬ r.isLocal = true := fun hl => hv.1.attested (Receipt.isLocal_iff.mp hl)
    have hkey : reportedKey r key = r.keyFor key := by
      have hne := hv.1.key
      unfold reportedKey
      unfold Receipt.keyFor at hne ⊢
      cases key with
      | none => rfl
      | some k =>
        cases k with
        | nil => exact absurd rfl hne
        | cons c rest => rfl
    rw [hkey]
    refine iff_of_true ⟨fun _ => vouchedBy_of_isVouched hv, fun hl => (hnot hl).elim⟩ ?_
    intro hvain
    exact hnot hvain.1

/-! ## Runs that write a report -/

def reportPath (directory : Path) : Path := directory.join (Path.ofText reportName)

/-- A run comes to write its report: it reads a receipt, checks it to a verdict, finds the
directory, and writes. -/
structure Writes (scheme : SignatureScheme) (files : FileTree) (file : Path) (key : Option Text)
    (directory out : Path) (r : Receipt) (isGood : Bool) (after : FileTree) : Prop where
  read : ∃ path, files.resolve file = .ok path ∧ Receipt.ofFile files path = .ok r
  verify : r.verify scheme key = .ok isGood
  resolve : files.resolve directory = .ok out
  write : (writeReport out reportName (verificationReport r isGood key)).run.run files =
    (.ok (reportPath out), after)

/-- The courses of a run that is asked for a report: it fails without a new report, or the verdict
follows the report. -/
inductive ReportCourse (scheme : SignatureScheme) (console : Console) (isQuiet : Bool)
    (files : FileTree) (file : Path) (key : Option Text) (directory : Path) :
    Except Failure Nat → FileTree → Prop
  | unwritten {ending : Except Failure Nat} {after : FileTree} :
      (∀ out r isGood after, ¬ Writes scheme files file key directory out r isGood after) →
      files.AddsNothing after → ending ≠ .ok 0 →
      ReportCourse scheme console isQuiet files file key directory ending after
  | written {out : Path} {r : Receipt} {isGood : Bool} {after : FileTree}
      {outcome : Except Stop Unit} :
      Writes scheme files file key directory out r isGood after →
      Concluded console isQuiet isGood (verdictLines r isGood (some (reportPath out))) outcome →
      ReportCourse scheme console isQuiet files file key directory
        (outcomeOf (outcome.mapError (Stop.handled verifyCodes))) after

variable {console : Console} {files after : FileTree} {out : Path}

/-- What a run writes is its report, with its verdict. -/
theorem Writes.exists_adds (h : Writes scheme files file key directory out r isGood after) :
    ∃ t place, (verificationReport r isGood key).toCanonical = .ok t ∧
      files.Adds after (reportPath out) (Utf8.encodeLoose (t ++ "\n")) place := by
  have hreporting := reporting_writeReport files out reportName (verificationReport r isGood key)
  rw [h.write] at hreporting
  obtain ⟨t, place, hcanonical, -, hadds⟩ := hreporting.exists_adds
  exact ⟨t, place, hcanonical, hadds⟩

/-- What is read and checked does not depend on how the run goes on. -/
theorem Writes.unique {r' : Receipt} {isGood' : Bool}
    (h : Writes scheme files file key directory out r isGood after)
    (hpath : files.resolve file = .ok path) (hr : Receipt.ofFile files path = .ok r')
    (hv : r'.verify scheme key = .ok isGood') : r = r' ∧ isGood = isGood' := by
  obtain ⟨found, hfound, hread⟩ := h.read
  cases hfound.symm.trans hpath
  cases hread.symm.trans hr
  cases h.verify.symm.trans hv
  exact ⟨rfl, rfl⟩

/-- A failure never ends a verification with 0. -/
theorem outcomeOf_handled_ne (failure : Failure) :
    outcomeOf (.error (Stop.handled verifyCodes (.failure failure))) ≠ .ok 0 := by
  intro h
  rcases handled_verifyCodes failure with hone | hthrough | ⟨-, htwo⟩
  · rw [hone] at h
    cases h
  · rw [hthrough] at h
    cases h
  · rw [htwo] at h
    cases h

/-- A verdict ends the run by itself, unless a line of it is refused. -/
theorem Concluded.ending {isQuiet isGood : Bool} {lines : List Text} {outcome : Except Stop Unit}
    (h : Concluded console isQuiet isGood lines outcome) :
    outcomeOf (outcome.mapError (Stop.handled verifyCodes)) = .ok (if isGood then 0 else 1) ∨
      isQuiet = false ∧ (∃ t ∈ lines, ¬ console.Takes t) ∧
        ∃ fault, outcomeOf (outcome.mapError (Stop.handled verifyCodes)) =
          .error (.unencodable fault) := by
  cases h with
  | told _ =>
    left
    cases isGood <;> rfl
  | untold hloud hrefused => exact .inr ⟨hloud, hrefused, _, rfl⟩

/-- **Every run takes one of the courses.** -/
theorem reportCourse_invoke (scheme : SignatureScheme) (around : Circumstances)
    (files : FileTree) {arguments : List Text} (hread : Invocation.read arguments =
      .ok (some ⟨.verify file key (some directory), isQuiet, isVerbose⟩)) :
    ReportCourse scheme around.console isQuiet files file key directory
      (invoke scheme around files arguments).1 (invoke scheme around files arguments).2.files := by
  rw [invoke_eq hread, verifyReceipt_eq]
  rcases run_checking scheme file key (announce isQuiet key (some directory))
      (opened around files isVerbose) with
    ⟨failure, after, hrun, hfiles, hfails⟩ |
      ⟨path, r, isGood, checked, hpath, hr, hv, hfiles, hconsole, hrun⟩
  · obtain ⟨told, htold, hsame⟩ := run_handling hrun
    rw [htold]
    refine .unwritten ?_ ?_ (outcomeOf_handled_ne failure)
    · intro out r isGood written hwrites
      obtain ⟨path, hpath, hr⟩ := hwrites.read
      have hcheck := hfails path hpath
      have hgood : check scheme files path key = .ok isGood := by
        rw [check, hr]
        exact hwrites.verify
      cases hgood.symm.trans hcheck
    · show files.AddsNothing told.files
      rw [hsame, hfiles]
      exact (FileTree.preserves_refl files).addsNothing
  · have hopened : checked.files = files := hfiles
    obtain ⟨outcome, after, hrest, hannounced⟩ := run_announce isQuiet key directory r isGood checked
    obtain ⟨told, htold, hsame⟩ := run_handling (hrun.trans hrest)
    rw [htold]
    dsimp only
    rw [hsame]
    cases hannounced with
    | @unresolved failure hresolve =>
      rw [hopened] at hresolve ⊢
      refine .unwritten ?_ (FileTree.preserves_refl files).addsNothing (outcomeOf_handled_ne failure)
      intro out other isGood' written hwrites
      cases hwrites.resolve.symm.trans hresolve
    | @unwritten out failure _ hresolve hwrite =>
      rw [hopened] at hresolve hwrite
      have hreporting := reporting_writeReport files out reportName (verificationReport r isGood key)
      rw [hwrite] at hreporting
      refine .unwritten ?_ hreporting.addsNothing (outcomeOf_handled_ne failure)
      intro out' other isGood' written hwrites
      obtain ⟨rfl, rfl⟩ := hwrites.unique hpath hr hv
      cases hwrites.resolve.symm.trans hresolve
      cases hwrites.write.symm.trans hwrite
    | @concluded out report _ _ hresolve hwrite hconcluded =>
      rw [hopened] at hresolve hwrite
      rw [hconsole] at hconcluded
      have hreporting := reporting_writeReport files out reportName (verificationReport r isGood key)
      rw [hwrite] at hreporting
      obtain ⟨-, -, -, rfl, -⟩ := hreporting.exists_adds
      exact .written ⟨⟨path, hpath, hr⟩, hv, hresolve, hwrite⟩ hconcluded

/-- What a positive report comes from: a run that read a receipt, found that it checks out, and
wrote the report where it was asked to. -/
structure ReportedOn (scheme : SignatureScheme) (files after : FileTree) (file directory : Path)
    (key : Option Text) (out : Path) (r : Receipt) (k : Text) : Prop where
  writes : Writes scheme files file key directory out r true after
  report : ∃ content, after.HoldsFile (reportPath out) content ∧ Names content k

variable {around : Circumstances} {arguments : List Text} {ending : Except Failure Nat}

/-- A positive report that is new is the one that the run was asked for. -/
theorem ReportCourse.only_report
    (h : ReportCourse scheme console isQuiet files file key directory ending after)
    {place : Location} {content : Bytes} {isPrivate : Bool} {k : Text}
    (hfile : after.get? place = some (.file content isPrivate))
    (hnew : files.get? place ≠ some (.file content isPrivate)) (hnames : Names content k) :
    ∃ out r, ReportedOn scheme files after file directory key out r k ∧
      after.locate (reportPath out) = .ok place := by
  cases h with
  | unwritten _ hadds _ =>
    rcases hadds place content isPrivate hfile with hold | rfl
    · exact absurd hold hnew
    · exact absurd hnames (not_names_nil k)
  | @written out r isGood after outcome hwrites _ =>
    obtain ⟨t, goal, hcanonical, hadds⟩ := hwrites.exists_adds
    by_cases hplace : place = goal
    · subst hplace
      obtain ⟨isPrivate', hwritten⟩ := hadds.written
      rw [hfile] at hwritten
      cases hwritten
      obtain ⟨rfl, -⟩ := (names_report_iff hcanonical).mp hnames
      exact ⟨out, r, ⟨hwrites, _, hadds.holdsFile, hnames⟩, hadds.located⟩
    · exact absurd (hadds.others place content isPrivate hplace hfile) hnew

theorem eq_true_of_status {isGood : Bool}
    (h : (.ok (if isGood then 0 else 1) : Except Failure Nat) = .ok 0) : isGood = true := by
  cases isGood with
  | true => rfl
  | false => cases h

theorem ReportCourse.exists_report
    (h : ReportCourse scheme console isQuiet files file key directory ending after)
    (hending : ending = .ok 0) :
    ∃ out r k, ReportedOn scheme files after file directory key out r k := by
  cases h with
  | unwritten _ _ hne => exact absurd hending hne
  | written hwrites hconcluded =>
    rcases hconcluded.ending with hverdict | ⟨-, -, fault, hfault⟩
    · have hgood := eq_true_of_status (hverdict.symm.trans hending)
      subst hgood
      obtain ⟨t, place, hcanonical, hadds⟩ := hwrites.exists_adds
      exact ⟨_, _, _, hwrites, _, hadds.holdsFile, (names_report_iff hcanonical).mpr ⟨rfl, rfl⟩⟩
    · cases hfault.symm.trans hending

/-- A run that has written a positive report ends with 0, unless the verdict cannot be told. -/
theorem ReportCourse.ending_of_report {k : Text}
    (h : ReportCourse scheme console isQuiet files file key directory ending after)
    (hreport : ReportedOn scheme files after file directory key out r k) :
    ending = .ok 0 ∨ isQuiet = false ∧
      (∃ t ∈ verdictLines r true (some (reportPath out)), ¬ console.Takes t) ∧
        ∃ fault, ending = .error (.unencodable fault) := by
  cases h with
  | unwritten hnone _ _ => exact absurd hreport.writes (hnone _ _ _ _)
  | written hwrites hconcluded =>
    obtain ⟨path, hpath, hr⟩ := hwrites.read
    obtain ⟨rfl, hgood⟩ := hreport.writes.unique hpath hr hwrites.verify
    cases hgood
    cases hwrites.resolve.symm.trans hreport.writes.resolve
    exact hconcluded.ending

/-- Which key the report names is decided by what was read and given. -/
theorem ReportedOn.isFaithful_iff {k : Text}
    (h : ReportedOn scheme files after file directory key out r k) :
    IsFaithful scheme r k ↔ ¬ GivenInVain r key := by
  obtain ⟨t, place, hcanonical, hadds⟩ := h.writes.exists_adds
  obtain ⟨content, hfile, hnames⟩ := h.report
  have hsame := hadds.holdsFile.unique hfile
  subst hsame
  obtain ⟨-, rfl⟩ := (names_report_iff hcanonical).mp hnames
  exact CommandLine.isFaithful_iff h.writes.verify

/-- **A positive report is sound for the key that it names, unless a key was given in vain.** If a
file has become a positive report, then the run was asked for it and has written it on a receipt
that checks out. Its key vouches for the receipt, or is the marker of executions by the caller,
except when a key was given for the receipt of such an execution. The run ends with 0, unless its
verdict cannot be printed. -/
theorem verify_report_sound (scheme : SignatureScheme) (around : Circumstances) (files : FileTree)
    (arguments : List Text) (file directory : Path) (key : Option Text) (isQuiet isVerbose : Bool)
    (hread : Invocation.read arguments =
      .ok (some ⟨.verify file key (some directory), isQuiet, isVerbose⟩)) :
    let ending := (invoke scheme around files arguments).1
    let after := (invoke scheme around files arguments).2.files
    (∀ place content isPrivate k, after.get? place = some (.file content isPrivate) →
      files.get? place ≠ some (.file content isPrivate) → Names content k →
      ∃ out r, ReportedOn scheme files after file directory key out r k ∧
        after.locate (reportPath out) = .ok place) ∧
    (ending = .ok 0 → ∃ out r k, ReportedOn scheme files after file directory key out r k) ∧
    ∀ out r k, ReportedOn scheme files after file directory key out r k →
      (IsFaithful scheme r k ↔ ¬ GivenInVain r key) ∧
      (ending = .ok 0 ∨ isQuiet = false ∧
        (∃ t ∈ verdictLines r true (some (reportPath out)), ¬ around.console.Takes t) ∧
          ∃ fault, ending = .error (.unencodable fault)) := by
  have hcourse : ReportCourse scheme around.console isQuiet files file key directory _ _ :=
    reportCourse_invoke scheme around files hread
  dsimp only
  generalize (invoke scheme around files arguments).1 = ending at hcourse
  generalize (invoke scheme around files arguments).2.files = after at hcourse
  exact ⟨fun _ _ _ _ hfile hnew hnames => hcourse.only_report hfile hnew hnames,
    hcourse.exists_report, fun _ _ _ h => ⟨h.isFaithful_iff, hcourse.ending_of_report h⟩⟩

/-! ## Runs that can write their report -/

/-- The members of a report in the order of their names. -/
theorem sorted_verificationReport (r : Receipt) (isGood : Bool) (key : Option Text) :
    Json.sorted (verificationReport r isGood key) = .ofFields
      [("exit_code", .int r.exitCode), ("module_hash", .string r.moduleHash),
        ("node_pubkey", .string (reportedKey r key)), ("ok", .bool isGood),
        ("trust", .string (trustName r))] := by
  -- the verdict and the trust go behind the others, and the hash behind the exit code
  have hperm (a b c d e : Text × Json) : [a, b, c, d, e].Perm [d, c, e, a, b] := by
    have hcomm : ([a, b] ++ [c, d, e]).Perm ([c, d, e] ++ [a, b]) := List.perm_append_comm
    exact hcomm.trans (List.Perm.swap d c _)
  unfold verificationReport Json.ofFields
  rw [Json.sorted_object]
  simp only [List.map_cons, List.map_nil, Json.sortedMember, Json.sorted]
  refine congrArg Json.object ((Json.mergeSort_eq_of_perm ?_ (hperm _ _ _ _ _)).trans
    (List.mergeSort_of_pairwise ?_))
  · simp only [List.map_cons, List.map_nil]
    decide
  · refine (List.pairwise_map (f := Prod.fst) (R := fun a b => Text.le a b = true)).mp ?_
    simp only [List.map_cons, List.map_nil]
    decide

/-- Every receipt in range has reports that can be put into text. -/
theorem toCanonical_verificationReport (hr : r.InRange) (isGood : Bool) (key : Option Text) :
    (verificationReport r isGood key).toCanonical =
      .ok ((Json.sorted (verificationReport r isGood key)).render .compact) := by
  have hfit : (Json.sorted (verificationReport r isGood key)).integersFit = true := by
    rw [sorted_verificationReport]
    simp [Json.ofFields, Json.integersFit, Json.membersFit, hr.hasShortNumbers.exitCode]
  have hdepth : ¬ Json.maxDepth < (Json.sorted (verificationReport r isGood key)).depth := by
    rw [sorted_verificationReport]
    have hone : Json.depth (.ofFields
      [("exit_code", .int r.exitCode), ("module_hash", .string r.moduleHash),
        ("node_pubkey", .string (reportedKey r key)), ("ok", .bool isGood),
        ("trust", .string (trustName r))]) = 1 := rfl
    rw [hone]
    decide
  rw [Json.toCanonical, Json.canonical, Json.write, if_neg hdepth, if_pos hfit]
  rfl

/-- A report can be written: there is a directory for it, or one can be made, nothing else stands in
its place, and its text can be encoded. -/
structure CanReport (files : FileTree) (directory out : Path) (r : Receipt) (isGood : Bool)
    (key : Option Text) : Prop where
  resolved : files.resolve directory = .ok out
  inRange : r.InRange
  isScalar : ((Json.sorted (verificationReport r isGood key)).render .compact).isScalar = true
  opens : ∃ made place isPrivate, files.makeDirectories out = (made, .ok ()) ∧
    made.target (reportPath out) = .ok (place, isPrivate)

theorem CanReport.run_writeReport {out : Path} (h : CanReport files directory out r isGood key) :
    ∃ after, (writeReport out reportName (verificationReport r isGood key)).run.run files =
      (.ok (reportPath out), after) := by
  obtain ⟨made, place, isPrivate, hmade, htarget⟩ := h.opens
  have hmake := FileTree.run_makeDirectory files out
  rw [hmade] at hmake
  have hline : ((Json.sorted (verificationReport r isGood key)).render .compact ++
      "\n").isScalar = true := by
    rw [Text.isScalar_append, h.isScalar]
    rfl
  unfold writeReport
  rw [run_bind_of_ok hmake]
  dsimp only
  rw [toCanonical_verificationReport h.inRange]
  exact ⟨_, run_bind_of_ok (FileTree.run_writeText_of_target htarget hline)⟩

theorem CanReport.writes (h : CanReport files directory out r isGood key)
    (hpath : files.resolve file = .ok path) (hr : Receipt.ofFile files path = .ok r)
    (hv : r.verify scheme key = .ok isGood) :
    ∃ after, Writes scheme files file key directory out r isGood after := by
  obtain ⟨after, hwrite⟩ := h.run_writeReport
  exact ⟨after, ⟨path, hpath, hr⟩, hv, h.resolved, hwrite⟩

/-- What a run can write is what it has written. -/
theorem ReportCourse.exists_of_writes {written : FileTree}
    (h : ReportCourse scheme console isQuiet files file key directory ending after)
    (hwrites : Writes scheme files file key directory out r true written) :
    ∃ k, ReportedOn scheme files after file directory key out r k := by
  cases h with
  | unwritten hnone _ _ => exact absurd hwrites (hnone _ _ _ _)
  | written hdone _ =>
    obtain ⟨path, hpath, hr⟩ := hdone.read
    obtain ⟨rfl, hgood⟩ := hwrites.unique hpath hr hdone.verify
    cases hgood
    cases hdone.resolve.symm.trans hwrites.resolve
    obtain ⟨t, place, hcanonical, hadds⟩ := hdone.exists_adds
    exact ⟨_, hdone, _, hadds.holdsFile, (names_report_iff hcanonical).mpr ⟨rfl, rfl⟩⟩

/-! ## A report in which a key is named in vain -/

namespace Sample

/-- A report on the receipt of an execution by the caller is written. -/
theorem exists_report_receipt {arguments : List Text} {key : Option Text}
    (hread : Invocation.read arguments = .ok (some
      ⟨.verify (Path.ofText "r.json") key (some (Path.ofText "out")), false, false⟩))
    (hscalar : ((Json.sorted (verificationReport Receipt.Sample.receipt true key)).render
      .compact).isScalar = true) :
    ∃ k, ReportedOn Receipt.Sample.scheme (tree (bytesOf Receipt.Sample.receipt))
      (invoke Receipt.Sample.scheme circumstances (tree (bytesOf Receipt.Sample.receipt))
        arguments).2.files (Path.ofText "r.json") (Path.ofText "out") key (Path.ofText "/out")
      Receipt.Sample.receipt k := by
  have hone : (tree (bytesOf Receipt.Sample.receipt)).makeOne (Path.ofText "/out") =
      .ok (tree (bytesOf Receipt.Sample.receipt)) := rfl
  have hmade : (tree (bytesOf Receipt.Sample.receipt)).makeDirectories (Path.ofText "/out") =
      (tree (bytesOf Receipt.Sample.receipt), .ok ()) := by
    rw [FileTree.makeDirectories, hone]
  have hcan : CanReport (tree (bytesOf Receipt.Sample.receipt)) (Path.ofText "out")
      (Path.ofText "/out") Receipt.Sample.receipt true key :=
    ⟨rfl, inRange_receipt, hscalar, _, ["out", "verify_receipt.json"], false, hmade, rfl⟩
  obtain ⟨written, hwrites⟩ :=
    hcan.writes (resolve_tree _) ofFile_receipt (Receipt.verify_of_marker rfl)
  exact (reportCourse_invoke Receipt.Sample.scheme circumstances _ hread).exists_of_writes hwrites

def keyText : Text := "d75a980182b10ab7d54bfed3c964073a0ee172f3daa62325af021a68f707511a"

theorem read_report : Invocation.read ["verify", "r.json", "--output-dir", "out"] = .ok (some
    ⟨.verify (Path.ofText "r.json") none (some (Path.ofText "out")), false, false⟩) := rfl

theorem read_report_key :
    Invocation.read ["verify", "r.json", "--output-dir", "out", "--pubkey", keyText] = .ok (some
      ⟨.verify (Path.ofText "r.json") (some keyText) (some (Path.ofText "out")), false, false⟩) :=
  rfl

end Sample

open Sample in
/-- Without a given key, the report on the receipt of an execution by the caller is faithful. -/
theorem verify_report_sound_caller :
    ∃ out r k, ReportedOn Receipt.Sample.scheme (tree (bytesOf Receipt.Sample.receipt))
        (invoke Receipt.Sample.scheme circumstances (tree (bytesOf Receipt.Sample.receipt))
          ["verify", "r.json", "--output-dir", "out"]).2.files
        (Path.ofText "r.json") (Path.ofText "out") none out r k ∧
      IsFaithful Receipt.Sample.scheme r k := by
  obtain ⟨k, hreport⟩ :=
    exists_report_receipt read_report (by rw [sorted_verificationReport]; decide +kernel)
  obtain ⟨-, -, hfaithful⟩ :=
    verify_report_sound Receipt.Sample.scheme circumstances _ _ _ _ _ _ _ read_report
  refine ⟨_, _, k, hreport, (hfaithful _ _ k hreport).1.mpr ?_⟩
  intro hvain
  obtain ⟨-, key, hkey, -⟩ := hvain
  cases hkey

open Sample in
/-- With a key given, the report on the same receipt names that key, which was never checked. -/
theorem verify_report_unsound_key :
    ∃ out r k, ReportedOn Receipt.Sample.scheme (tree (bytesOf Receipt.Sample.receipt))
        (invoke Receipt.Sample.scheme circumstances (tree (bytesOf Receipt.Sample.receipt))
          ["verify", "r.json", "--output-dir", "out", "--pubkey", keyText]).2.files
        (Path.ofText "r.json") (Path.ofText "out") (some keyText) out r k ∧
      ¬ IsFaithful Receipt.Sample.scheme r k := by
  obtain ⟨k, hreport⟩ :=
    exists_report_receipt read_report_key (by rw [sorted_verificationReport]; decide +kernel)
  refine ⟨_, _, k, hreport, fun hf => hreport.isFaithful_iff.mp hf ?_⟩
  exact ⟨rfl, keyText, rfl, by decide, by decide⟩

end CommandLine

end WasmReceipt
