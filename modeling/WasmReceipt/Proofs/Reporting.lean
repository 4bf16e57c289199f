import WasmReceipt.Proofs.FileTree.Frame
import WasmReceipt.Proofs.Json.Atoms

/-! # Reports, whole or not at all

A report goes into its file in four steps: the directory is made, the text is made, the file is
opened, which empties it, and the text is encoded. A failure of one of the first three leaves every
file as it was; a failure of the last comes too late, and only a surrogate brings it about. -/

namespace WasmReceipt

open FileTree

/-- A report: names with one value each, and no value inside another. -/
structure Report where
  members : Json.Members
  distinct : (members.map Prod.fst).Nodup
  atoms : ∀ m ∈ members, m.2.IsAtom

namespace Report

variable {tree after : FileTree} {directory : Path} {name : Text} {report other : Report}

def json (report : Report) : Json := .object report.members

/-- The line that is written for a report. Nothing is said of whether it can be written. -/
def line (report : Report) : Text := (Json.sorted report.json).render .compact ++ "\n"

theorem isScalar_line (report : Report) : report.line.isScalar = report.members.isEncodable := by
  have hfeed : ("\n" : Text).isScalar = true := rfl
  rw [line, Text.isScalar_append, hfeed, Bool.and_true, json,
    Json.isScalar_render_sorted report.atoms]

theorem isData (report : Report) : report.json.IsData :=
  Json.isData_of_atoms report.distinct report.atoms

theorem toCanonical_eq (hl : ¬ report.json.HoldsLongInteger) :
    report.json.toCanonical = .ok ((Json.sorted report.json).render .compact) := by
  rw [Json.toCanonical, Json.canonical_eq report.isData hl]
  rfl

theorem toCanonical_of_holdsLongInteger (hl : report.json.HoldsLongInteger) :
    report.json.toCanonical = .error .longIntegerText := by
  rw [Json.toCanonical, Json.canonical_of_holdsLongInteger report.isData hl]
  rfl

/-- The order of the members makes no difference to the text. -/
theorem sorted_eq_of_perm (h : other.members.Perm report.members) :
    Json.sorted other.json = Json.sorted report.json := by
  rw [json, json, Json.sorted_of_atoms other.atoms, Json.sorted_of_atoms report.atoms,
    Json.mergeSort_eq_of_perm other.distinct h]

/-! ## The courses of writing -/

def path (directory : Path) (name : Text) : Path := directory.join (Path.ofText name)

/-- Writing a report: the outcome and the tree after it. -/
def write (tree : FileTree) (directory : Path) (name : Text) (report : Report) :
    Except Failure Path × FileTree :=
  (writeReport directory name report.json).run.run tree

/-- The courses that the writing of a report takes once its directory is there, by the step that
fails. -/
inductive Course (tree : FileTree) (p : Path) (report : Report) : Except Failure Path → FileTree → Prop
  | tooLong : report.json.HoldsLongInteger → Course tree p report (.error .longIntegerText) tree
  | unopened {failure : Failure} : ¬ report.json.HoldsLongInteger →
      tree.target p = .error failure → Course tree p report (.error failure) tree
  | emptied {place : Location} {isPrivate : Bool} {fault : Utf8.EncodeFault} :
      ¬ report.json.HoldsLongInteger → tree.target p = .ok (place, isPrivate) →
      report.members.isEncodable = false →
      Course tree p report (.error (.unencodable fault)) (tree.put place (.file [] isPrivate))
  | written {place : Location} {isPrivate : Bool} :
      ¬ report.json.HoldsLongInteger → tree.target p = .ok (place, isPrivate) →
      report.members.isEncodable = true →
      Course tree p report (.ok p) (tree.put place (.file (Utf8.encodeLoose report.line) isPrivate))

/-- What is done in a directory that could not be made. -/
theorem write_of_unmade {made : FileTree} {failure : Failure}
    (h : tree.makeDirectories directory = (made, .error failure)) :
    write tree directory name report = (.error failure, made) := by
  have hmake := run_makeDirectory tree directory
  rw [h] at hmake
  exact run_bind_of_error hmake

/-- The steps behind the making of the directory. -/
theorem course_write {made : FileTree} (h : tree.makeDirectories directory = (made, .ok ())) :
    Course made (path directory name) report (write tree directory name report).1
      (write tree directory name report).2 := by
  have hmake := run_makeDirectory tree directory
  rw [h] at hmake
  unfold write writeReport
  rw [run_bind_of_ok hmake]
  dsimp only
  by_cases hl : report.json.HoldsLongInteger
  · rw [toCanonical_of_holdsLongInteger hl]
    exact .tooLong hl
  rw [toCanonical_eq hl]
  dsimp only
  cases htarget : made.target (path directory name) with
  | error failure =>
    have hwrite := run_writeText_of_target_error htarget report.line
    exact (run_bind_of_error hwrite).symm ▸ .unopened hl htarget
  | ok target =>
    obtain ⟨place, isPrivate⟩ := target
    cases hscalar : report.line.isScalar with
    | true =>
      have hwrite := run_writeText_of_target htarget hscalar
      rw [isScalar_line] at hscalar
      exact (run_bind_of_ok hwrite).symm ▸ .written hl htarget hscalar
    | false =>
      obtain ⟨fault, hwrite⟩ := run_writeText_of_surrogate htarget hscalar
      rw [isScalar_line] at hscalar
      exact (run_bind_of_error hwrite).symm ▸ .emptied hl htarget hscalar

/-- A report that can be written is written. -/
theorem Course.eq_written {p : Path} {outcome : Except Failure Path} {place : Location}
    {isPrivate : Bool} (h : Course tree p report outcome after)
    (hl : ¬ report.json.HoldsLongInteger) (htarget : tree.target p = .ok (place, isPrivate))
    (he : report.members.isEncodable = true) :
    outcome = .ok p ∧
      after = tree.put place (.file (Utf8.encodeLoose report.line) isPrivate) := by
  cases h with
  | tooLong hl' => exact absurd hl' hl
  | unopened _ htarget' =>
    rw [htarget] at htarget'
    cases htarget'
  | emptied _ _ he' =>
    rw [he] at he'
    cases he'
  | written _ htarget' _ =>
    rw [htarget] at htarget'
    cases htarget'
    exact ⟨rfl, rfl⟩

/-- A report with a surrogate is refused when its file has been emptied. -/
theorem Course.emptied_file {p : Path} {outcome : Except Failure Path} {place : Location}
    {isPrivate : Bool} (h : Course tree p report outcome after)
    (hl : ¬ report.json.HoldsLongInteger) (htarget : tree.target p = .ok (place, isPrivate))
    (he : report.members.isEncodable = false) :
    (∃ fault, outcome = .error (.unencodable fault)) ∧ after.HoldsFile p [] := by
  cases h with
  | tooLong hl' => exact absurd hl' hl
  | unopened _ htarget' =>
    rw [htarget] at htarget'
    cases htarget'
  | @emptied _ _ fault _ htarget' _ =>
    exact ⟨⟨fault, rfl⟩, (adds_of_target htarget' []).holdsFile⟩
  | written _ _ he' =>
    rw [he] at he'
    cases he'

/-! ## Writing the same report again -/

theorem holdsLongInteger_iff_of_perm (h : other.members.Perm report.members) :
    other.json.HoldsLongInteger ↔ report.json.HoldsLongInteger := by
  rw [Json.holdsLongInteger_iff, Json.holdsLongInteger_iff, ← Json.integersFit_sorted,
    sorted_eq_of_perm h, Json.integersFit_sorted]

theorem isEncodable_eq_of_perm (h : other.members.Perm report.members) :
    other.members.isEncodable = report.members.isEncodable := h.all_eq

/-- The second time the directory is there, and the file is emptied for what it held. -/
theorem write_again {place : Location} {isPrivate : Bool} (hd : tree.HoldsDirectory directory)
    (hl : ¬ report.json.HoldsLongInteger)
    (htarget : tree.target (path directory name) = .ok (place, isPrivate))
    (he : report.members.isEncodable = true) (h : other.members.Perm report.members) :
    write (tree.put place (.file (Utf8.encodeLoose report.line) isPrivate)) directory name other =
      (.ok (path directory name),
        tree.put place (.file (Utf8.encodeLoose report.line) isPrivate)) := by
  obtain ⟨hplace, hwrite⟩ := locate_of_target htarget
  have hmade := makeDirectories_of_holdsDirectory
    ((changesAt_put hplace hwrite.noDirectory (Utf8.encodeLoose report.line) isPrivate).holdsDirectory
      hd)
  have hline : other.line = report.line := by rw [line, line, sorted_eq_of_perm h]
  obtain ⟨houtcome, hafter⟩ := (course_write hmade).eq_written
    (mt (holdsLongInteger_iff_of_perm h).mp hl) (target_put htarget _)
    ((isEncodable_eq_of_perm h).trans he)
  rw [put_put hwrite.ne_nil, hline] at hafter
  exact Prod.ext houtcome hafter

/-! ## Whole or not at all -/

/-- The file of a path is as it was: it holds what it held, and where none was there is none. -/
structure KeepsFile (tree : FileTree) (p : Path) (after : FileTree) : Prop where
  kept : ∀ content, tree.HoldsFile p content → after.HoldsFile p content
  noneNew : ∀ place content isPrivate, after.locate p = .ok place →
    after.get? place = some (.file content isPrivate) →
    tree.get? place = some (.file content isPrivate)

/-- How the writing of a report is to end: the report is in its file, and to write it again in
whatever order changes nothing; or the writing fails and the file is as it was. -/
inductive WholeOrNot (tree : FileTree) (directory : Path) (name : Text) (report : Report) :
    Except Failure Path → FileTree → Prop
  | whole {t : Text} {bytes : Bytes} {after : FileTree} : report.json.toCanonical = .ok t →
      Utf8.encode (t ++ "\n") = .ok bytes → after.HoldsFile (path directory name) bytes →
      (∀ other : Report, other.members.Perm report.members →
        write after directory name other = (.ok (path directory name), after)) →
      WholeOrNot tree directory name report (.ok (path directory name)) after
  | unwritten {failure : Failure} {after : FileTree} : KeepsFile tree (path directory name) after →
      WholeOrNot tree directory name report (.error failure) after

/-- A report with a surrogate gets as far as its file, at a place that does not hold an empty file
already. -/
structure LostAt (tree : FileTree) (directory : Path) (name : Text) (report : Report)
    (place : Location) : Prop where
  made : (tree.makeDirectories directory).2 = .ok ()
  located : (tree.makeDirectories directory).1.locate (path directory name) = .ok place
  opens : (tree.makeDirectories directory).1.MayWrite place
  noEmptyFile : ∀ isPrivate, tree.get? place ≠ some (.file [] isPrivate)
  writable : ¬ report.json.HoldsLongInteger
  surrogate : report.members.isEncodable = false

theorem keepsFile_of_makesWay {q p : Path} (h : tree.MakesWay q after) :
    KeepsFile tree p after where
  kept _ hfile := h.holdsFile hfile
  noneNew _ _ _ _ hfile := h.file_iff.mp hfile

/-- An empty file may be emptied. -/
theorem keepsFile_of_empty {q p : Path} {made : FileTree} {place : Location}
    {isPrivate wasPrivate : Bool} (h : tree.MakesWay q made)
    (htarget : made.target p = .ok (place, isPrivate))
    (hempty : tree.get? place = some (.file [] wasPrivate)) :
    KeepsFile tree p (made.put place (.file [] isPrivate)) := by
  obtain ⟨hplace, hwrite⟩ := locate_of_target htarget
  have hmade := h.file_iff.mpr hempty
  obtain rfl := eq_of_target htarget hmade
  have hsame (goal : Location) : (made.put place (.file [] wasPrivate)).get? goal =
      made.get? goal :=
    get?_put_of_eq hmade hwrite.ne_nil
  refine ⟨fun content hfile => ?_, fun goal content isPrivate' _ hfile => ?_⟩
  · obtain ⟨goal, isPrivate', hgoal, hfile⟩ := h.holdsFile hfile
    exact ⟨goal, isPrivate', locate_put hgoal hwrite.noDirectory, (hsame goal).trans hfile⟩
  · rw [hsame] at hfile
    exact h.file_iff.mp hfile

/-- A file that is emptied without having been empty is not as it was. -/
theorem not_keepsFile_of_emptied {p : Path} {made : FileTree} {place : Location} {isPrivate : Bool}
    (htarget : made.target p = .ok (place, isPrivate))
    (hfull : ∀ wasPrivate, tree.get? place ≠ some (.file [] wasPrivate)) :
    ¬ KeepsFile tree p (made.put place (.file [] isPrivate)) := by
  intro hkeeps
  have hadds := adds_of_target htarget []
  obtain ⟨isPrivate', hfile⟩ := hadds.written
  exact hfull isPrivate' (hkeeps.noneNew place [] isPrivate' hadds.located hfile)

/-- The courses by which a report is lost are those that reach its file and do not get further. -/
theorem Course.whole_iff {made : FileTree} {outcome : Except Failure Path}
    (hmade : tree.makeDirectories directory = (made, .ok ()))
    (h : Course made (path directory name) report outcome after) :
    WholeOrNot tree directory name report outcome after ↔
      ∀ place, ¬ LostAt tree directory name report place := by
  have hways := makesWay_makeDirectories tree directory
  have hthere := holdsDirectory_of_makeDirectories (congrArg Prod.snd hmade)
  rw [hmade] at hways hthere
  cases h with
  | tooLong hl => exact iff_of_true (.unwritten (keepsFile_of_makesWay hways)) fun _ h => h.writable hl
  | unopened _ htarget =>
    refine iff_of_true (.unwritten (keepsFile_of_makesWay hways)) fun place h => ?_
    have hlocated := h.located
    have hopens := h.opens
    rw [hmade] at hlocated hopens
    obtain ⟨isPrivate, htarget'⟩ := exists_target hlocated hopens
    rw [htarget] at htarget'
    cases htarget'
  | @emptied place isPrivate _ hl htarget he =>
    obtain ⟨hplace, hopens⟩ := locate_of_target htarget
    by_cases hempty : ∃ wasPrivate, tree.get? place = some (.file [] wasPrivate)
    · obtain ⟨wasPrivate, hempty⟩ := hempty
      refine iff_of_true (.unwritten (keepsFile_of_empty hways htarget hempty)) fun goal h => ?_
      have hgoal := h.located
      rw [hmade, hplace] at hgoal
      cases hgoal
      exact h.noEmptyFile wasPrivate hempty
    · have hfull := not_exists.mp hempty
      refine iff_of_false ?_ fun h => h place ?_
      · rintro ⟨⟩
        exact not_keepsFile_of_emptied htarget hfull ‹_›
      · refine ⟨congrArg Prod.snd hmade, ?_, ?_, hfull, hl, he⟩
        · rw [hmade]
          exact hplace
        · rw [hmade]
          exact hopens
  | @written place isPrivate hl htarget he =>
    have hadds := adds_of_target htarget (Utf8.encodeLoose report.line)
    refine iff_of_true ?_ fun _ h => ?_
    · refine .whole (toCanonical_eq hl) (Utf8.encode_of_isScalar ?_) hadds.holdsFile fun other hperm =>
        write_again hthere hl htarget he hperm
      rw [← he]
      exact isScalar_line report
    · have hlost := h.surrogate
      rw [he] at hlost
      cases hlost

theorem whole_iff (tree : FileTree) (directory : Path) (name : Text) (report : Report) :
    WholeOrNot tree directory name report (write tree directory name report).1
        (write tree directory name report).2 ↔
      ∀ place, ¬ LostAt tree directory name report place := by
  cases hmade : tree.makeDirectories directory with
  | mk made outcome =>
    cases outcome with
    | error failure =>
      have hways := makesWay_makeDirectories tree directory
      rw [hmade] at hways
      rw [write_of_unmade hmade]
      refine iff_of_true (.unwritten (keepsFile_of_makesWay hways)) fun _ h => ?_
      have hlost := h.made
      rw [hmade] at hlost
      cases hlost
    | ok _ => exact (course_write hmade).whole_iff hmade

/-- What is left of a report that is lost is an empty file. -/
theorem LostAt.write {place : Location} (h : LostAt tree directory name report place) :
    (∃ fault, (Report.write tree directory name report).1 = .error (.unencodable fault)) ∧
      (Report.write tree directory name report).2.HoldsFile (path directory name) [] := by
  have hmade : tree.makeDirectories directory = ((tree.makeDirectories directory).1, .ok ()) :=
    Prod.ext rfl h.made
  obtain ⟨isPrivate, htarget⟩ := exists_target h.located h.opens
  exact (course_write hmade).emptied_file h.writable htarget h.surrogate

/-- A report can be written: its directory is there or can be made, its file can be opened, and its
text can be made and encoded. -/
structure CanWrite (tree : FileTree) (directory : Path) (name : Text) (report : Report) : Prop where
  made : (tree.makeDirectories directory).2 = .ok ()
  opens : (tree.makeDirectories directory).1.IsWritable (path directory name)
  writable : ¬ report.json.HoldsLongInteger
  encodable : report.members.isEncodable = true

theorem canWrite_iff (tree : FileTree) (directory : Path) (name : Text) (report : Report) :
    CanWrite tree directory name report ↔
      (write tree directory name report).1 = .ok (path directory name) := by
  constructor
  · intro h
    have hmade : tree.makeDirectories directory = ((tree.makeDirectories directory).1, .ok ()) :=
      Prod.ext rfl h.made
    obtain ⟨place, hplace, hfile⟩ := h.opens
    obtain ⟨isPrivate, htarget⟩ := exists_target hplace hfile
    exact ((course_write hmade).eq_written h.writable htarget h.encodable).1
  · intro h
    cases hmade : tree.makeDirectories directory with
    | mk made outcome =>
      cases outcome with
      | error failure =>
        rw [write_of_unmade hmade] at h
        cases h
      | ok _ =>
        have hcourse : Course made (path directory name) report _ _ := course_write hmade
        rw [h] at hcourse
        generalize (write tree directory name report).2 = after at hcourse
        cases hcourse with
        | @written place _ hl htarget he =>
          refine ⟨congrArg Prod.snd hmade, ?_, hl, he⟩
          rw [hmade]
          exact ⟨place, locate_of_target htarget⟩

/-- **A report is written whole or not at all, unless it holds a surrogate.** It is written if it
can be. The writing ends with the whole report in its file, or with the file as it was, except when
a report with a surrogate gets as far as a file that is not empty already. That file is empty
afterwards. -/
theorem write_whole_unless_lost (tree : FileTree) (directory : Path) (name : Text)
    (report : Report) :
    (CanWrite tree directory name report ↔
      (write tree directory name report).1 = .ok (path directory name)) ∧
    (WholeOrNot tree directory name report (write tree directory name report).1
        (write tree directory name report).2 ↔
      ∀ place, ¬ LostAt tree directory name report place) ∧
    ∀ place, LostAt tree directory name report place →
      (∃ fault, (write tree directory name report).1 = .error (.unencodable fault)) ∧
      (write tree directory name report).2.HoldsFile (path directory name) [] :=
  ⟨canWrite_iff tree directory name report, whole_iff tree directory name report, fun _ h => h.write⟩

namespace Sample

def named (hash : Text) : Report where
  members := [("ok", .bool true), ("module_hash", .string hash)]
  distinct := by
    simp only [List.map_cons, List.map_nil]
    decide
  atoms := by
    intro m hm
    rcases List.mem_cons.mp hm with rfl | hm
    · exact .bool true
    · rw [List.mem_singleton.mp hm]
      exact .string hash

def reported : FileTree :=
  ⟨[], [(["out"], .directory), (["out", "report.json"], .file (Utf8.encodeLoose "\x7b\x7d\n") false)],
    []⟩

end Sample

open Sample in
/-- The first half of a surrogate pair takes the report with it that was there. -/
theorem write_loses_report :
    ¬ WholeOrNot reported (Path.ofText "/out") "report.json" (named [CodePoint.ofNat 0xD800])
        (write reported (Path.ofText "/out") "report.json" (named [CodePoint.ofNat 0xD800])).1
        (write reported (Path.ofText "/out") "report.json" (named [CodePoint.ofNat 0xD800])).2 := by
  have hmade : reported.makeDirectories (Path.ofText "/out") = (reported, .ok ()) :=
    makeDirectories_of_holdsDirectory ⟨["out"], rfl, rfl⟩
  have hlost : LostAt reported (Path.ofText "/out") "report.json" (named [CodePoint.ofNat 0xD800])
      ["out", "report.json"] := by
    refine ⟨?_, ?_, ?_, ?_, ?_, rfl⟩
    · rw [hmade]
    · rw [hmade]
      rfl
    · rw [hmade]
      exact ⟨by decide, fun _ => rfl, by decide⟩
    · intro isPrivate
      cases isPrivate <;> decide
    · rw [Json.holdsLongInteger_iff]
      decide
  exact fun h => (whole_iff _ _ _ _).mp h _ hlost

end Report

end WasmReceipt
