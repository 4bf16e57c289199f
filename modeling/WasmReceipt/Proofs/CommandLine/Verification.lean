import WasmReceipt.CommandLine
import WasmReceipt.Proofs.CommandLine.Session
import WasmReceipt.Proofs.Json.Nesting
import WasmReceipt.Proofs.Receipt.Provenance
import WasmReceipt.Proofs.Receipt.Verification

/-! # How the command that verifies ends

The exit code keeps three things apart: the receipt checks out, its signature does not match, or
nothing could be checked. All reasons not to check a receipt are faults of form but three: a file
that may not be read, an integer that is too long, and half of a surrogate pair in a signed text. A
receipt by the caller always checks out, but the verdict may not be printable. -/

namespace WasmReceipt.CommandLine

open Session

/-! ## The command in parts -/

/-- What the command handles: a file that is missing, and whatever is malformed. -/
def verifyCodes : List (FailureKind × Nat) := [(.fileNotFound, 1), (.format, 2)]

def reportTo (r : Receipt) (isGood : Bool) (key : Option Text) (directory : Path) : Action Path := do
  onFiles (writeReport (← resolve directory) reportName (verificationReport r isGood key))

def verdictLines (r : Receipt) (isGood : Bool) (report : Option Path) : List Text :=
  let written : List Text := report.elim [] fun p => [item "Report" p.text]
  ["[" ++ verdict isGood ++ "] Verification complete"] ++ written ++
    [item "Status" (verdict isGood), item "Trust" (trustName r), item "Module" r.moduleHash]

def conclude (isQuiet isGood : Bool) (lines : List Text) : Action Unit := do
  if !isQuiet then print lines
  if !isGood then exit 1

/-- What follows the check of a receipt: a report, if there is a place for it, and the verdict. -/
def announce (isQuiet : Bool) (key : Option Text) (directory : Option Path) (r : Receipt)
    (isGood : Bool) : Action Unit := do
  let report ← directory.mapM (reportTo r isGood key)
  conclude isQuiet isGood (verdictLines r isGood report)

/-- Reads a receipt and checks it, and goes on with both. -/
def checking (scheme : SignatureScheme) (file : Path) (key : Option Text)
    (rest : Receipt → Bool → Action Unit) : Action Unit := do
  let path ← resolve file
  let r ← attempt (Receipt.ofFile (← get).files path)
  rest r (← verify scheme r key)

theorem verifyReceipt_eq (scheme : SignatureScheme) (isQuiet : Bool) (file : Path)
    (key : Option Text) (directory : Option Path) :
    verifyReceipt scheme isQuiet file key directory =
      handling verifyCodes (checking scheme file key (announce isQuiet key directory)) := rfl

variable {scheme : SignatureScheme} {s : Session} {isQuiet isGood : Bool} {file path : Path}
  {key : Option Text} {r : Receipt} {content : Bytes}

def endOfVerdict (isGood : Bool) : Except Stop Unit :=
  if isGood then .ok () else .error (.exit 1)

theorem takes_item {console : Console} {label value : Text} (h : label.isScalar = true) :
    console.Takes (item label value) ↔ console.Takes value := by
  have hbefore : console.Takes ("  " ++ label ++ ": ") := by
    refine Console.takes_of_isScalar ?_
    rw [Text.isScalar_append, Text.isScalar_append, h]
    rfl
  unfold item
  rw [Console.takes_append]
  exact and_iff_right hbefore

/-- What the command says about a receipt can be printed when its content hash can, and the path of
the report. -/
theorem takes_verdictLines {console : Console} {report : Option Path} :
    (∀ t ∈ verdictLines r isGood report, console.Takes t) ↔
      console.Takes r.moduleHash ∧ ∀ p ∈ report, console.Takes p.text := by
  have htold : console.Takes ("[" ++ (verdict isGood ++ "] Verification complete")) :=
    Console.takes_of_isScalar (by cases isGood <;> rfl)
  have hhash : console.Takes (item "Module" r.moduleHash) ↔ console.Takes r.moduleHash :=
    takes_item rfl
  have hstatus : console.Takes (item "Status" (verdict isGood)) :=
    Console.takes_of_isScalar (by cases isGood <;> rfl)
  have htrust : console.Takes (item "Trust" (trustName r)) := by
    unfold trustName
    split <;> exact Console.takes_of_isScalar rfl
  cases report with
  | none => simp [verdictLines, htold, hstatus, htrust, hhash]
  | some p =>
    have hreport : console.Takes (item "Report" p.text) ↔ console.Takes p.text := takes_item rfl
    simp [verdictLines, htold, hstatus, htrust, hhash, hreport, and_comm]

/-- The ends of a verdict: it is told, or a line of it is refused by the standard output. -/
inductive Concluded (console : Console) (isQuiet isGood : Bool) (lines : List Text) :
    Except Stop Unit → Prop
  | told : (isQuiet = false → ∀ t ∈ lines, console.Takes t) →
      Concluded console isQuiet isGood lines (endOfVerdict isGood)
  | untold {fault : Utf8.EncodeFault} : isQuiet = false → (∃ t ∈ lines, ¬ console.Takes t) →
      Concluded console isQuiet isGood lines (.error (.failure (.unencodable fault)))

theorem run_conclude (isQuiet isGood : Bool) (lines : List Text) (s : Session) :
    ∃ outcome after, (conclude isQuiet isGood lines).run.run s = (outcome, after) ∧
      after.files = s.files ∧ Concluded s.console isQuiet isGood lines outcome := by
  cases isQuiet with
  | true => cases isGood <;> exact ⟨_, s, rfl, rfl, .told nofun⟩
  | false =>
    rcases print_cases lines s with ⟨after, hrun, hfiles, htakes⟩ | ⟨fault, after, hrun, hfiles, ht⟩
    · refine ⟨_, after, (run_bind_of_ok hrun).trans ?_, hfiles, .told fun _ => htakes⟩
      cases isGood <;> rfl
    · exact ⟨_, after, run_bind_of_error hrun, hfiles, .untold rfl ht⟩

/-! ## Its end -/

/-- The receipt in a file is read, and the check of it gives a verdict. -/
def ChecksTo (scheme : SignatureScheme) (files : FileTree) (path : Path) (key : Option Text)
    (isGood : Bool) : Prop :=
  ∃ r, Receipt.ofFile files path = .ok r ∧ r.verify scheme key = .ok isGood

/-- Nothing can be checked, for one of the three reasons that are no faults of form. A surrogate is
in the way of a receipt with a key and a signature only. -/
inductive StopsCheck (files : FileTree) (path : Path) (key : Option Text) : Prop
  | unreadable : files.IsUnreadable path → StopsCheck files path key
  | longInteger {digits : Nat} :
      Receipt.ofFile files path = .error (.longInteger digits) → StopsCheck files path key
  | surrogate {r : Receipt} : Receipt.ofFile files path = .ok r → r.HasMaterial key →
      r.HoldsSurrogate → StopsCheck files path key

/-- The ways around the three exit codes: nothing can be checked although nothing is malformed, or
the receipt is by the caller and its content hash is refused by the standard output. -/
inductive Escapes (console : Console) (isQuiet : Bool) (files : FileTree) (path : Path)
    (key : Option Text) : Prop
  | unchecked : StopsCheck files path key → Escapes console isQuiet files path key
  | untold {r : Receipt} : Receipt.ofFile files path = .ok r → r.isLocal = true → isQuiet = false →
      ¬ console.Takes r.moduleHash → Escapes console isQuiet files path key

/-- The kinds of the failures that the command does not handle. -/
def escapeKinds : List FailureKind := [.permission, .value, .encoding]

/-- What the command is to tell by its exit code about the receipt in a file: 0 for a receipt that
checks out, 1 for one that does not, and 2 when nothing could be checked. -/
structure KeepsPromise (scheme : SignatureScheme) (files : FileTree) (path : Path)
    (key : Option Text) (ending : Except Failure Nat) : Prop where
  good : ending = .ok 0 ↔ ChecksTo scheme files path key true
  bad : ending = .ok 1 ↔ ChecksTo scheme files path key false
  malformed : ending = .ok 2 ↔ ∀ isGood, ¬ ChecksTo scheme files path key isGood

/-- The courses of a check: a verdict, a fault of form, or a failure of another kind. -/
inductive Course (scheme : SignatureScheme) (files : FileTree) (path : Path) (key : Option Text) :
    Except Failure Bool → Prop
  | verdict {isGood : Bool} : ChecksTo scheme files path key isGood → ¬ StopsCheck files path key →
      Course scheme files path key (.ok isGood)
  | malformed {failure : Failure} : (∀ isGood, ¬ ChecksTo scheme files path key isGood) →
      ¬ StopsCheck files path key → failure.kind = .format ∨ failure.kind = .missingKey →
      Course scheme files path key (.error failure)
  | stopped {failure : Failure} : (∀ isGood, ¬ ChecksTo scheme files path key isGood) →
      StopsCheck files path key → failure.kind ∈ escapeKinds →
      Course scheme files path key (.error failure)

def check (scheme : SignatureScheme) (files : FileTree) (path : Path) (key : Option Text) :
    Except Failure Bool := do
  (← Receipt.ofFile files path).verify scheme key

theorem not_checksTo_of_unread (scheme : SignatureScheme) (key : Option Text)
    {files : FileTree} {failure : Failure} (h : Receipt.ofFile files path = .error failure) :
    ∀ isGood, ¬ ChecksTo scheme files path key isGood := by
  intro isGood hcheck
  obtain ⟨r, hr, -⟩ := hcheck
  rw [h] at hr
  cases hr

theorem not_checksTo_of_unchecked {files : FileTree} {failure : Failure}
    (hr : Receipt.ofFile files path = .ok r) (h : r.verify scheme key = .error failure) :
    ∀ isGood, ¬ ChecksTo scheme files path key isGood := by
  intro isGood hcheck
  obtain ⟨other, hother, hverify⟩ := hcheck
  rw [hr] at hother
  cases hother
  rw [h] at hverify
  cases hverify

theorem not_isUnreadable_of_read {files : FileTree} (hr : Receipt.ofFile files path = .ok r) :
    ¬ files.IsUnreadable path := by
  intro hdenied
  rw [Receipt.ofFile, FileTree.read_of_isUnreadable hdenied] at hr
  cases hr

/-- For a receipt that was read, only a surrogate stops the check. -/
theorem stopsCheck_iff_of_read {files : FileTree} (hr : Receipt.ofFile files path = .ok r) :
    StopsCheck files path key ↔ r.HasMaterial key ∧ r.HoldsSurrogate := by
  constructor
  · intro h
    cases h with
    | unreadable hdenied => exact (not_isUnreadable_of_read hr hdenied).elim
    | longInteger hlong =>
      rw [hr] at hlong
      cases hlong
    | surrogate hother hm hs =>
      rw [hr] at hother
      cases hother
      exact ⟨hm, hs⟩
  · intro h
    exact .surrogate hr h.1 h.2

/-- A document that may be read and makes no receipt is malformed, or holds an integer that is too
long. -/
theorem course_of_unread (scheme : SignatureScheme) (key : Option Text) {files : FileTree}
    {failure : Failure} (hfile : files.HoldsReadable path content)
    (hshallow : ∀ t, Json.decode content = .ok t → t.openers ≤ Json.maxDepth)
    (hr : Receipt.ofFile files path = .error failure) :
    Course scheme files path key (.error failure) := by
  have hread := not_checksTo_of_unread scheme key hr
  have hdocument := Receipt.ofFile_of_holdsReadable hfile
  rw [hdocument] at hr
  rcases Receipt.ofDocument_error hr with hformat | ⟨digits, rfl⟩ | ⟨-, hdeep⟩
  · refine .malformed hread ?_ (.inl hformat)
    intro h
    cases h with
    | unreadable hdenied =>
      have hfails := FileTree.read_of_isUnreadable hdenied
      rw [FileTree.read_eq_ok_iff.mpr hfile] at hfails
      cases hfails
    | longInteger hlong =>
      rw [hdocument, hr] at hlong
      cases hlong
      cases hformat
    | surrogate hother _ _ =>
      rw [hdocument, hr] at hother
      cases hother
  · rw [← hdocument] at hr
    exact .stopped hread (.longInteger hr) (by simp [Failure.kind, escapeKinds])
  · exact absurd hdeep (Json.readDocument_ne_tooDeep hshallow)

theorem course_of_read (scheme : SignatureScheme) (key : Option Text) {files : FileTree}
    (hr : Receipt.ofFile files path = .ok r) :
    Course scheme files path key (r.verify scheme key) := by
  cases hv : r.verify scheme key with
  | ok isGood =>
    refine .verdict ⟨r, hr, hv⟩ ?_
    rw [stopsCheck_iff_of_read hr]
    intro h
    -- a surrogate in a signed text leaves no verdict
    cases hd : Receipt.verify_eq_iff.mp hv with
    | byCaller hl => exact h.1.attested hl
    | checked _ ht _ _ => exact ht.scalar h.2
  | error failure =>
    have hread := not_checksTo_of_unchecked hr hv
    rcases (Receipt.verify_eq_iff.mp hv).kind with
      ⟨hk, hmissing⟩ | ⟨hk, hm, hs⟩ | ⟨hk, -, hs⟩ | ⟨-, -, hlong⟩
    · refine .malformed hread ?_ (.inr hk)
      rw [stopsCheck_iff_of_read hr]
      intro h
      rcases hmissing with hkey | hunsigned
      · exact h.1.key hkey
      · exact h.1.signed hunsigned
    · exact .stopped hread ((stopsCheck_iff_of_read hr).mpr ⟨hm, hs⟩) (by simp [hk, escapeKinds])
    · refine .malformed hread ?_ (.inl hk)
      rw [stopsCheck_iff_of_read hr]
      intro h
      exact hs h.2
    · exact (hlong (Receipt.inRange_of_ofFile hr).hasShortNumbers).elim

/-- **A check takes one of the courses**, if the document is no deeper than it may be. -/
theorem course_check (scheme : SignatureScheme) (key : Option Text) {files : FileTree}
    (hfile : files.HoldsFile path content)
    (hshallow : ∀ t, Json.decode content = .ok t → t.openers ≤ Json.maxDepth) :
    Course scheme files path key (check scheme files path key) := by
  unfold check
  cases hr : Receipt.ofFile files path with
  | ok r => exact course_of_read scheme key hr
  | error failure =>
    show Course scheme files path key (.error failure)
    rcases hfile.isUnreadable_or with hdenied | hreadable
    · have hfails := FileTree.read_of_isUnreadable hdenied
      have hread := not_checksTo_of_unread scheme key hr
      rw [Receipt.ofFile, hfails] at hr
      cases hr
      exact .stopped hread (.unreadable hdenied) (by simp [Failure.kind, escapeKinds])
    · exact course_of_unread scheme key hreadable hshallow hr

/-! ## Its exit code -/

theorem handled_of_form {failure : Failure}
    (h : failure.kind = .format ∨ failure.kind = .missingKey) :
    Stop.handled verifyCodes (.failure failure) = .exit 2 := by
  dsimp only [Stop.handled]
  rcases h with h | h
  · rw [h]
    rfl
  · rw [h]
    rfl

theorem handled_of_escape {failure : Failure} (h : failure.kind ∈ escapeKinds) :
    Stop.handled verifyCodes (.failure failure) = .failure failure := by
  dsimp only [Stop.handled]
  simp only [escapeKinds, List.mem_cons, List.not_mem_nil, or_false] at h
  rcases h with h | h | h
  · rw [h]
    rfl
  · rw [h]
    rfl
  · rw [h]
    rfl

/-- A failure ends the command with 1 or goes through, unless it is a fault of form. -/
theorem handled_verifyCodes (failure : Failure) :
    Stop.handled verifyCodes (.failure failure) = .exit 1 ∨
      Stop.handled verifyCodes (.failure failure) = .failure failure ∨
      failure.kind.isA .format = true ∧ Stop.handled verifyCodes (.failure failure) = .exit 2 := by
  dsimp only [Stop.handled]
  cases hfound : verifyCodes.find? fun c => failure.kind.isA c.1 with
  | none => exact .inr (.inl rfl)
  | some found =>
    have hkind := List.find?_some hfound
    have hmem := List.mem_of_find?_eq_some hfound
    simp only [verifyCodes, List.mem_cons, List.not_mem_nil, or_false] at hmem
    rcases hmem with rfl | rfl
    · exact .inl rfl
    · exact .inr (.inr ⟨hkind, rfl⟩)

theorem run_resolve (hresolve : s.files.resolve file = .ok path) :
    (resolve file).run.run s = (.ok path, s) := by
  have hrun : (resolve file).run.run s = (attempt (s.files.resolve file)).run.run s := rfl
  rw [hrun, hresolve]
  rfl

theorem run_resolve_of_error {failure : Failure} (hresolve : s.files.resolve file = .error failure) :
    (resolve file).run.run s = (.error (.failure failure), s) := by
  have hrun : (resolve file).run.run s = (attempt (s.files.resolve file)).run.run s := rfl
  rw [hrun, hresolve]
  rfl

/-- The courses of what follows a check when a report is asked for: its directory is not found, it
is not written, or the verdict concludes the command. -/
inductive Announcing (isQuiet : Bool) (key : Option Text) (directory : Path) (r : Receipt)
    (isGood : Bool) (s : Session) : Except Stop Unit → Session → Prop
  | unresolved {failure : Failure} : s.files.resolve directory = .error failure →
      Announcing isQuiet key directory r isGood s (.error (.failure failure)) s
  | unwritten {out : Path} {failure : Failure} {after : Session} :
      s.files.resolve directory = .ok out →
      (writeReport out reportName (verificationReport r isGood key)).run.run s.files =
        (.error failure, after.files) →
      Announcing isQuiet key directory r isGood s (.error (.failure failure)) after
  | concluded {out report : Path} {outcome : Except Stop Unit} {after : Session} :
      s.files.resolve directory = .ok out →
      (writeReport out reportName (verificationReport r isGood key)).run.run s.files =
        (.ok report, after.files) →
      Concluded s.console isQuiet isGood (verdictLines r isGood (some report)) outcome →
      Announcing isQuiet key directory r isGood s outcome after

theorem run_announce (isQuiet : Bool) (key : Option Text) (directory : Path) (r : Receipt)
    (isGood : Bool) (s : Session) :
    ∃ outcome after, (announce isQuiet key (some directory) r isGood).run.run s = (outcome, after) ∧
      Announcing isQuiet key directory r isGood s outcome after := by
  unfold announce
  cases hresolve : s.files.resolve directory with
  | error failure =>
    have hreport : ((some directory).mapM (reportTo r isGood key)).run.run s =
        (.error (.failure failure), s) :=
      run_bind_of_error (run_bind_of_error (run_resolve_of_error hresolve))
    exact ⟨_, s, run_bind_of_error hreport, .unresolved hresolve⟩
  | ok out =>
    cases hwrite : (writeReport out reportName (verificationReport r isGood key)).run.run s.files with
    | mk outcome files =>
      have hreport : (reportTo r isGood key directory).run.run s =
          (outcome.mapError .failure, { s with files := files }) := by
        rw [reportTo, run_bind_of_ok (run_resolve hresolve), run_onFiles, hwrite]
      cases outcome with
      | error failure =>
        have hsome : ((some directory).mapM (reportTo r isGood key)).run.run s =
            (.error (.failure failure), { s with files := files }) := run_bind_of_error hreport
        exact ⟨_, _, run_bind_of_error hsome, .unwritten hresolve hwrite⟩
      | ok report =>
        have hsome : ((some directory).mapM (reportTo r isGood key)).run.run s =
            (.ok (some report), { s with files := files }) := run_bind_of_ok hreport
        obtain ⟨outcome, after, hend, hfiles, hconcluded⟩ := run_conclude isQuiet isGood
          (verdictLines r isGood (some report)) { s with files := files }
        refine ⟨outcome, after, (run_bind_of_ok hsome).trans hend, .concluded hresolve ?_ hconcluded⟩
        rw [hwrite, hfiles]

/-- **Reading and checking either fail or go on with the verdict.** No file is changed by them. -/
theorem run_checking (scheme : SignatureScheme) (file : Path) (key : Option Text)
    (rest : Receipt → Bool → Action Unit) (s : Session) :
    (∃ failure after, (checking scheme file key rest).run.run s = (.error (.failure failure), after) ∧
      after.files = s.files ∧
      ∀ path, s.files.resolve file = .ok path → check scheme s.files path key = .error failure) ∨
    ∃ path r isGood checked, s.files.resolve file = .ok path ∧
      Receipt.ofFile s.files path = .ok r ∧ r.verify scheme key = .ok isGood ∧
      checked.files = s.files ∧ checked.console = s.console ∧
      (checking scheme file key rest).run.run s = (rest r isGood).run.run checked := by
  unfold checking
  cases hresolve : s.files.resolve file with
  | error failure =>
    refine .inl ⟨failure, s, run_bind_of_error (run_resolve_of_error hresolve), rfl, ?_⟩
    intro path hpath
    cases hpath
  | ok path =>
    rw [run_bind_of_ok (run_resolve hresolve), run_bind_of_ok run_get]
    cases hr : Receipt.ofFile s.files path with
    | error failure =>
      refine .inl ⟨failure, s, run_bind_of_error (run_attempt _), rfl, ?_⟩
      intro found hfound
      cases hfound
      rw [check, hr]
      rfl
    | ok r =>
      rw [run_bind_of_ok (run_attempt _)]
      obtain ⟨checked, hverify, hfiles, hconsole⟩ := run_verify scheme r key s
      cases hv : r.verify scheme key with
      | error failure =>
        rw [hv] at hverify
        refine .inl ⟨failure, checked, run_bind_of_error hverify, hfiles, ?_⟩
        intro found hfound
        cases hfound
        rw [check, hr]
        exact hv
      | ok isGood =>
        rw [hv] at hverify
        exact .inr ⟨path, r, isGood, checked, rfl, hr, hv, hfiles, hconsole, run_bind_of_ok hverify⟩

/-- Whoever vouches for a receipt with a signature has signed its content hash, which can therefore
be printed. -/
theorem byCaller_of_not_takes {console : Console} (hv : r.verify scheme key = .ok isGood)
    (h : ¬ console.Takes r.moduleHash) : r.isLocal = true ∧ isGood = true := by
  generalize hsome : Except.ok isGood = outcome at hv
  cases Receipt.verify_eq_iff.mp hv with
  | byCaller hl => exact ⟨Receipt.isLocal_iff.mpr hl, Except.ok.inj hsome⟩
  | checked _ ht _ _ =>
    have hscalar := Receipt.isScalar_signedText_iff.mpr ht.scalar
    rw [Receipt.isScalar_signedText, Bool.and_eq_true] at hscalar
    exact absurd (Console.takes_of_isScalar hscalar.2) h
  | _ => cases hsome

/-- The ends of the command: by the verdict, with 2 for what is malformed, or with a failure,
because nothing could be checked or because the verdict could not be told. -/
inductive Ending (scheme : SignatureScheme) (console : Console) (isQuiet : Bool) (files : FileTree)
    (path : Path) (key : Option Text) : Except Failure Nat → Prop
  | verdict {isGood : Bool} : ChecksTo scheme files path key isGood →
      ¬ Escapes console isQuiet files path key →
      Ending scheme console isQuiet files path key (.ok (if isGood then 0 else 1))
  | malformed : (∀ isGood, ¬ ChecksTo scheme files path key isGood) →
      ¬ Escapes console isQuiet files path key →
      Ending scheme console isQuiet files path key (.ok 2)
  | unchecked {failure : Failure} : (∀ isGood, ¬ ChecksTo scheme files path key isGood) →
      StopsCheck files path key → failure.kind ∈ escapeKinds →
      Ending scheme console isQuiet files path key (.error failure)
  | untold {fault : Utf8.EncodeFault} : ChecksTo scheme files path key true →
      Escapes console isQuiet files path key →
      Ending scheme console isQuiet files path key (.error (.unencodable fault))

/-- **Without a report, the command takes one of the ends.** -/
theorem ending_verifyReceipt (hresolve : s.files.resolve file = .ok path)
    (hcourse : Course scheme s.files path key (check scheme s.files path key)) :
    Ending scheme s.console isQuiet s.files path key
      (outcomeOf ((verifyReceipt scheme isQuiet file key none).run.run s).1) := by
  rw [verifyReceipt_eq]
  rcases run_checking scheme file key (announce isQuiet key none) s with
    ⟨failure, after, hrun, -, hcheck⟩ |
      ⟨found, r, isGood, checked, hfound, hr, hv, -, hconsole, hrun⟩
  · obtain ⟨told, htold, -⟩ := run_handling hrun
    rw [hcheck path hresolve] at hcourse
    rw [htold]
    cases hcourse with
    | malformed hnone hgoes hkind =>
      dsimp only [Except.mapError]
      rw [handled_of_form hkind]
      refine .malformed hnone fun h => ?_
      cases h with
      | unchecked hstops => exact hgoes hstops
      | untold hr hl _ _ =>
        exact hnone true ⟨_, hr, Receipt.verify_of_marker (Receipt.isLocal_iff.mp hl)⟩
    | stopped hnone hstops hkind =>
      dsimp only [Except.mapError]
      rw [handled_of_escape hkind]
      exact .unchecked hnone hstops hkind
  · rw [hresolve] at hfound
    cases hfound
    have hcheck : check scheme s.files path key = .ok isGood := by
      rw [check, hr]
      exact hv
    rw [hcheck] at hcourse
    cases hcourse with
    | verdict hverdict hgoes =>
      obtain ⟨outcome, after, hend, -, hconcluded⟩ :=
        run_conclude isQuiet isGood (verdictLines r isGood none) checked
      obtain ⟨told, htold, -⟩ := run_handling (hrun.trans hend)
      rw [htold]
      cases hconcluded with
      | told htakes =>
        have hescape : ¬ Escapes s.console isQuiet s.files path key := by
          intro h
          cases h with
          | unchecked hstops => exact hgoes hstops
          | untold hother _ hloud hrefused =>
            rw [hr] at hother
            cases hother
            rw [← hconsole] at hrefused
            exact hrefused (takes_verdictLines.mp (htakes hloud)).1
        cases isGood with
        | true => exact .verdict hverdict hescape
        | false => exact .verdict hverdict hescape
      | untold hloud hrefused =>
        have hhash : ¬ checked.console.Takes r.moduleHash := by
          intro htakes
          obtain ⟨t, ht, hrefuses⟩ := hrefused
          exact hrefuses (takes_verdictLines.mpr ⟨htakes, fun _ h => by cases h⟩ t ht)
        obtain ⟨hl, rfl⟩ := byCaller_of_not_takes hv hhash
        rw [hconsole] at hhash
        exact .untold hverdict (.untold hr hl hloud hhash)

variable {around : Circumstances} {files : FileTree} {arguments : List Text} {isVerbose : Bool}

/-- The session in which a command begins its work. -/
def opened (around : Circumstances) (files : FileTree) (isVerbose : Bool) : Session :=
  { Session.start around.console files with isVerbose := isVerbose }

/-- The work of an invocation, in a session that has been opened for it. -/
def carryOut (scheme : SignatureScheme) (around : Circumstances) (i : Invocation) : Action Unit :=
  match i.command with
  | .run file input inputFile runner receiptOut limits =>
    run scheme around i.isQuiet file input inputFile runner receiptOut limits
  | .verify receipt key outputDirectory =>
    verifyReceipt scheme i.isQuiet receipt key outputDirectory
  | .manifest file limits => printManifest file limits
  | .hash file => printHash file
  | .keygen out => makeKey scheme around i.isQuiet out
  | .sign receipt key out => signReceipt scheme i.isQuiet receipt key out

/-- A command line that is read to its end does the work of its invocation. -/
theorem invoke_of_run {i : Invocation} {outcome : Except Stop Unit} {after : Session}
    (hread : Invocation.read arguments = .ok (some i))
    (hrun : (carryOut scheme around i).run.run (opened around files i.isVerbose) = (outcome, after)) :
    invoke scheme around files arguments = (outcomeOf outcome, after) := by
  have hinvoke : invoke scheme around files arguments =
      (outcomeOf ((carryOut scheme around i).run.run (opened around files i.isVerbose)).1,
        ((carryOut scheme around i).run.run (opened around files i.isVerbose)).2) := by
    rw [invoke, action, hread]
    rfl
  rw [hinvoke, hrun]

/-- A command line that asks for a verification runs one. -/
theorem invoke_eq {directory : Option Path} (hread : Invocation.read arguments =
      .ok (some ⟨.verify file key directory, isQuiet, isVerbose⟩)) :
    invoke scheme around files arguments =
      let (outcome, session) :=
        (verifyReceipt scheme isQuiet file key directory).run.run (opened around files isVerbose)
      (outcomeOf outcome, session) :=
  invoke_of_run hread (Prod.eta _).symm

theorem ChecksTo.unique {b c : Bool} (hb : ChecksTo scheme files path key b)
    (hc : ChecksTo scheme files path key c) : b = c := by
  obtain ⟨r, hr, hb⟩ := hb
  obtain ⟨other, hother, hc⟩ := hc
  rw [hr] at hother
  cases hother
  rw [hb] at hc
  exact Except.ok.inj hc

theorem keepsPromise_of_verdict {isGood : Bool} (h : ChecksTo scheme files path key isGood) :
    KeepsPromise scheme files path key (.ok (if isGood then 0 else 1)) := by
  have hsome : ¬ ∀ isGood, ¬ ChecksTo scheme files path key isGood := fun hnone => hnone _ h
  cases isGood with
  | true =>
    have hbad : ¬ ChecksTo scheme files path key false := by
      intro hbad
      cases h.unique hbad
    exact ⟨iff_of_true rfl h, iff_of_false (by simp) hbad, iff_of_false (by simp) hsome⟩
  | false =>
    have hgood : ¬ ChecksTo scheme files path key true := by
      intro hgood
      cases h.unique hgood
    exact ⟨iff_of_false (by simp) hgood, iff_of_true rfl h, iff_of_false (by simp) hsome⟩

/-- Without a verdict, only the third exit code can be right. -/
theorem keepsPromise_iff_of_no_verdict {ending : Except Failure Nat}
    (h : ∀ isGood, ¬ ChecksTo scheme files path key isGood) :
    KeepsPromise scheme files path key ending ↔ ending = .ok 2 := by
  constructor
  · intro hp
    exact hp.malformed.mpr h
  · rintro rfl
    exact ⟨iff_of_false (by simp) (h true), iff_of_false (by simp) (h false), iff_of_true rfl h⟩

/-- What each end tells. -/
theorem Ending.tells {console : Console} {ending : Except Failure Nat}
    (h : Ending scheme console isQuiet files path key ending) :
    (ending = .ok 0 ↔
        ChecksTo scheme files path key true ∧ ¬ Escapes console isQuiet files path key) ∧
      (ending = .ok 1 ↔ ChecksTo scheme files path key false) ∧
      (KeepsPromise scheme files path key ending ↔ ¬ Escapes console isQuiet files path key) ∧
      (Escapes console isQuiet files path key →
        ∃ failure, ending = .error failure ∧ failure.kind ∈ escapeKinds) := by
  cases h with
  | verdict hcheck hescape =>
    have hp := keepsPromise_of_verdict hcheck
    exact ⟨hp.good.trans (and_iff_left hescape).symm, hp.bad, iff_of_true hp hescape,
      fun h => (hescape h).elim⟩
  | malformed hnone hescape =>
    have hp := (keepsPromise_iff_of_no_verdict hnone).mpr rfl
    exact ⟨hp.good.trans (and_iff_left hescape).symm, hp.bad, iff_of_true hp hescape,
      fun h => (hescape h).elim⟩
  | unchecked hnone hstops hkind =>
    have hescape : Escapes console isQuiet files path key := .unchecked hstops
    rw [keepsPromise_iff_of_no_verdict hnone]
    exact ⟨iff_of_false nofun fun h => h.2 hescape, iff_of_false nofun (hnone false),
      iff_of_false nofun fun h => h hescape, fun _ => ⟨_, rfl, hkind⟩⟩
  | untold hcheck hescape =>
    have hbad : ¬ ChecksTo scheme files path key false := by
      intro hbad
      cases hcheck.unique hbad
    have hbroken {fault : Utf8.EncodeFault} :
        ¬ KeepsPromise scheme files path key (.error (.unencodable fault)) := by
      intro hp
      cases hp.good.mpr hcheck
    exact ⟨iff_of_false nofun fun h => h.2 hescape, iff_of_false nofun hbad,
      iff_of_false hbroken fun h => h hescape, fun _ => ⟨_, rfl, by simp [Failure.kind, escapeKinds]⟩⟩

theorem ending_invoke (scheme : SignatureScheme) (around : Circumstances)
    (hread : Invocation.read arguments =
      .ok (some ⟨.verify file key none, isQuiet, isVerbose⟩))
    (hresolve : files.resolve file = .ok path) (hfile : files.HoldsFile path content)
    (hshallow : ∀ t, Json.decode content = .ok t → t.openers ≤ 500) :
    Ending scheme around.console isQuiet files path key
      (invoke scheme around files arguments).1 := by
  have hcourse : Course scheme files path key (check scheme files path key) :=
    course_check scheme key hfile fun t ht => Nat.le_trans (hshallow t ht) (by decide)
  have hopened : (opened around files isVerbose).files.resolve file = .ok path := hresolve
  rw [invoke_eq hread]
  exact ending_verifyReceipt hopened hcourse

/-- **The exit code tells the three answers apart, unless the command escapes.** 0 is told of a
receipt that checks out if its verdict can be printed, and 1 in every case of one that does not.
What cannot be checked ends with 2 for every fault of form, and otherwise escapes as a failure of
its own. -/
theorem verify_exit_code (scheme : SignatureScheme) (around : Circumstances) (files : FileTree)
    (arguments : List Text) (file path : Path) (key : Option Text) (isQuiet isVerbose : Bool)
    (content : Bytes)
    (hread : Invocation.read arguments =
      .ok (some ⟨.verify file key none, isQuiet, isVerbose⟩))
    (hresolve : files.resolve file = .ok path) (hfile : files.HoldsFile path content)
    (hshallow : ∀ t, Json.decode content = .ok t → t.openers ≤ 500) :
    let ending := (invoke scheme around files arguments).1
    let escapes := Escapes around.console isQuiet files path key
    (ending = .ok 0 ↔ ChecksTo scheme files path key true ∧ ¬ escapes) ∧
      (ending = .ok 1 ↔ ChecksTo scheme files path key false) ∧
      (KeepsPromise scheme files path key ending ↔ ¬ escapes) ∧
      (escapes → ∃ failure, ending = .error failure ∧ failure.kind ∈ escapeKinds) :=
  (ending_invoke scheme around hread hresolve hfile hshallow).tells

/-! ## A receipt that checks out and one that escapes -/

namespace Sample

def bytesOf (r : Receipt) : Bytes := Utf8.encodeLoose (r.toValue.render .pretty ++ "\n")

/-- A directory with one file, `r.json`, and an empty directory, `out`. -/
def tree (content : Bytes) : FileTree :=
  ⟨[], [(["r.json"], .file content false), (["out"], .directory)], []⟩

def circumstances : Circumstances := ⟨.strict, [], ⟨.ok (), [], [], 0, .zero, .zero, 0⟩, []⟩

/-- A receipt whose version is half of a surrogate pair. -/
def halved : Receipt :=
  ⟨[CodePoint.ofNat 0xD800], "sha256:a1b2", 0, 12, 1762663835, "d75a9801", "9286cb2e"⟩

theorem read_arguments : Invocation.read ["verify", "r.json"] =
    .ok (some ⟨.verify (Path.ofText "r.json") none none, false, false⟩) := rfl

theorem resolve_tree (content : Bytes) :
    (tree content).resolve (Path.ofText "r.json") = .ok (Path.ofText "/r.json") := rfl

theorem holdsReadable_tree (content : Bytes) :
    (tree content).HoldsReadable (Path.ofText "/r.json") content :=
  ⟨["r.json"], false, rfl, rfl, rfl⟩

theorem decode_bytesOf (r : Receipt) :
    Json.decode (bytesOf r) = .ok (r.toValue.render .pretty ++ "\n") :=
  Json.decode_encodeLoose ⟨_, _, _, rfl, by decide, by decide, by decide⟩

theorem ofFile_tree (hr : r.InRange) :
    Receipt.ofFile (tree (bytesOf r)) (Path.ofText "/r.json") = .ok r.paired := by
  rw [Receipt.ofFile_of_holdsReadable (holdsReadable_tree _)]
  exact Receipt.ofDocument_bytes hr

theorem inRange_receipt : Receipt.Sample.receipt.InRange :=
  ⟨by decide, by decide, by decide, by decide, by decide, by decide⟩

theorem inRange_halved : halved.InRange :=
  ⟨by decide, by decide, by decide, by decide, by decide, by decide⟩

theorem escapes_halved :
    Escapes .strict false (tree (bytesOf halved)) (Path.ofText "/r.json") none := by
  have hpaired : halved.paired = halved := rfl
  have hread := ofFile_tree inRange_halved
  rw [hpaired] at hread
  refine .unchecked (.surrogate hread ⟨by decide, by decide, ?_⟩ ?_)
  · intro h
    rcases h with h | h
    · cases h
    · exact absurd h (by decide)
  · exact ⟨CodePoint.ofNat 0xD800, List.mem_cons_self, by decide⟩

theorem ofFile_receipt :
    Receipt.ofFile (tree (bytesOf Receipt.Sample.receipt)) (Path.ofText "/r.json") =
      .ok Receipt.Sample.receipt :=
  ofFile_tree inRange_receipt

theorem not_escapes_receipt :
    ¬ Escapes .strict false (tree (bytesOf Receipt.Sample.receipt)) (Path.ofText "/r.json") none := by
  intro h
  cases h with
  | unchecked hstops =>
    rw [stopsCheck_iff_of_read ofFile_receipt] at hstops
    exact hstops.1.attested rfl
  | untold hr _ _ hrefused =>
    rw [ofFile_receipt] at hr
    cases hr
    exact hrefused (Console.takes_of_isScalar rfl)

end Sample

open Sample in
/-- A receipt by the caller checks out. -/
theorem verify_exit_code_caller :
    (invoke Receipt.Sample.scheme circumstances (tree (bytesOf Receipt.Sample.receipt))
      ["verify", "r.json"]).1 = .ok 0 := by
  have hshallow : ∀ t, Json.decode (bytesOf Receipt.Sample.receipt) = .ok t → t.openers ≤ 500 := by
    intro t ht
    rw [decode_bytesOf] at ht
    cases ht
    decide +kernel
  obtain ⟨hgood, -⟩ := verify_exit_code Receipt.Sample.scheme circumstances _ _ _ _ _ _ _ _
    read_arguments (resolve_tree _) (holdsReadable_tree _).holdsFile hshallow
  exact hgood.mpr ⟨⟨_, ofFile_receipt, Receipt.verify_of_marker rfl⟩, not_escapes_receipt⟩

open Sample in
/-- A receipt with half of a surrogate pair in its version ends the command with a failure that it
does not handle, so that the promise is broken. -/
theorem verify_exit_code_halved :
    (∀ t, Json.decode (bytesOf halved) = .ok t → t.openers ≤ 500) ∧
      ¬ KeepsPromise Receipt.Sample.scheme (tree (bytesOf halved)) (Path.ofText "/r.json") none
        (invoke Receipt.Sample.scheme circumstances (tree (bytesOf halved))
          ["verify", "r.json"]).1 := by
  have hshallow : ∀ t, Json.decode (bytesOf halved) = .ok t → t.openers ≤ 500 := by
    intro t ht
    rw [decode_bytesOf] at ht
    cases ht
    decide +kernel
  have hending := ending_invoke Receipt.Sample.scheme circumstances read_arguments (resolve_tree _)
    (holdsReadable_tree (bytesOf halved)).holdsFile hshallow
  refine ⟨hshallow, ?_⟩
  rw [hending.tells.2.2.1]
  exact fun h => h escapes_halved

end WasmReceipt.CommandLine
