import WasmReceipt.Proofs.FileTree.Places
import WasmReceipt.Proofs.Utf8

/-! # Looking up and writing files

A path that leads to a regular file is found, and read if that is allowed; a path that leads to
anything else is no file, unless it cannot be asked about: it is too long, or a directory on the way
is closed. What is written to a path is in its file afterwards. -/

namespace WasmReceipt.FileTree

variable {tree after : FileTree} {p : Path} {place start goal : Location} {entry : Entry}
  {content : Bytes} {names : List Text}

/-! ## Looking up -/

/-- A path leads to a regular file with a content. -/
def HoldsFile (tree : FileTree) (p : Path) (content : Bytes) : Prop :=
  ∃ place isPrivate, tree.locate p = .ok place ∧ tree.get? place = some (.file content isPrivate)

/-- A path leads to a regular file with a content, and the file may be read. -/
def HoldsReadable (tree : FileTree) (p : Path) (content : Bytes) : Prop :=
  ∃ place isPrivate, tree.locate p = .ok place ∧
    tree.get? place = some (.file content isPrivate) ∧ tree.allows place .read = true

theorem HoldsReadable.holdsFile (h : tree.HoldsReadable p content) : tree.HoldsFile p content := by
  obtain ⟨place, isPrivate, hplace, hfile, -⟩ := h
  exact ⟨place, isPrivate, hplace, hfile⟩

theorem read_eq_ok_iff : tree.read p = .ok content ↔ tree.HoldsReadable p content := by
  constructor
  · intro h
    unfold read at h
    obtain ⟨place, hplace, h⟩ := bind_eq_ok h
    split at h
    · cases h
    · rename_i entry hentry
      split_ifs at h with hdenied
      split at h
      · rename_i content' isPrivate
        cases h
        exact ⟨place, isPrivate, hplace, hentry, by simpa using hdenied⟩
      · cases h
  · rintro ⟨place, isPrivate, hplace, hfile, hread⟩
    rw [read, hplace]
    dsimp only [bind, Except.bind]
    rw [hfile]
    dsimp only
    rw [hread]
    rfl

theorem HoldsFile.unique {other : Bytes} (h : tree.HoldsFile p content)
    (h' : tree.HoldsFile p other) : content = other := by
  obtain ⟨place, isPrivate, hplace, hfile⟩ := h
  obtain ⟨place', isPrivate', hplace', hfile'⟩ := h'
  rw [hplace] at hplace'
  cases hplace'
  rw [hfile] at hfile'
  cases hfile'
  rfl

theorem isFile_of_holdsFile (h : tree.HoldsFile p content) : tree.isFile p = .ok true := by
  obtain ⟨place, isPrivate, hplace, hfile⟩ := h
  rw [isFile, hplace]
  dsimp only
  rw [hfile]

theorem exists_holdsFile (h : tree.isFile p = .ok true) : ∃ content, tree.HoldsFile p content := by
  unfold isFile at h
  split at h
  · rename_i place hplace
    split at h
    · rename_i content isPrivate hfile
      exact ⟨content, place, isPrivate, hplace, hfile⟩
    · cases h
  · split_ifs at h
    cases h
  · cases h

/-- One name is looked up, and the others are followed from where it leads. -/
theorem follow_cons_eq_ok_iff {name : Text} :
    tree.follow start (name :: names) = .ok goal ↔
      tree.IsOpen start ∧ (systemBytes name).length ≤ maxNameBytes ∧
        tree.follow (Path.follow start name) names = .ok goal := by
  rw [follow]
  constructor
  · intro h
    split at h
    · cases h
    · cases h
    · rename_i hdirectory
      split_ifs at h with hdenied hlong
      exact ⟨⟨hdirectory, by simpa using hdenied⟩, Nat.le_of_not_lt hlong, h⟩
  · rintro ⟨⟨hdirectory, hsearch⟩, hshort, h⟩
    rw [hdirectory]
    dsimp only
    rw [hsearch, if_neg (by simp), if_neg (Nat.not_lt_of_le hshort)]
    exact h

/-! ## What cannot be asked about -/

/-- A path is too long for the system, as a whole or in one of its names. -/
def IsTooLong (p : Path) : Prop :=
  maxPathBytes < (systemBytes p.text).length ∨
    ∃ name ∈ p.names, maxNameBytes < (systemBytes name).length

/-- Some of the names lead to a directory in which the next one may not be looked up. -/
def LeadsToClosed (tree : FileTree) (start : Location) (names : List Text) : Prop :=
  ∃ done rest place, names = done ++ rest ∧ rest ≠ [] ∧ tree.follow start done = .ok place ∧
    tree.get? place = some .directory ∧ tree.allows place .search = false

def IsClosedTo (tree : FileTree) (p : Path) : Prop := tree.LeadsToClosed (tree.origin p) p.names

/-- Following names fails for one of the troubles that names can make. -/
inductive Stuck (tree : FileTree) (start : Location) (names : List Text) : PathTrouble → Prop
  | missing : Stuck tree start names .notFound
  | file : Stuck tree start names .notDirectory
  | tooLong {name : Text} : name ∈ names → maxNameBytes < (systemBytes name).length →
      Stuck tree start names .nameTooLong
  | closed : tree.LeadsToClosed start names → Stuck tree start names .denied

theorem stuck_of_follow {trouble : PathTrouble} (h : tree.follow start names = .error trouble) :
    Stuck tree start names trouble := by
  induction names generalizing start with
  | nil => cases h
  | cons name rest ih =>
    rw [follow] at h
    split at h
    · cases h
      exact .missing
    · cases h
      exact .file
    · rename_i hdirectory
      split_ifs at h with hdenied hlong
      · cases h
        exact .closed ⟨[], name :: rest, start, rfl, nofun, rfl, hdirectory, by simpa using hdenied⟩
      · cases h
        exact .tooLong List.mem_cons_self hlong
      · cases ih h with
        | missing => exact .missing
        | file => exact .file
        | tooLong hmem hlong => exact .tooLong (List.mem_cons_of_mem name hmem) hlong
        | closed hclosed =>
          obtain ⟨done, others, place, rfl, hothers, hfollow, hplace⟩ := hclosed
          have hfirst : tree.follow start (name :: done) = .ok place :=
            follow_cons_eq_ok_iff.mpr
              ⟨⟨hdirectory, by simpa using hdenied⟩, Nat.le_of_not_lt hlong, hfollow⟩
          exact .closed ⟨name :: done, others, place, rfl, hothers, hfirst, hplace⟩

/-- A path leads to a regular file that may not be read. -/
def IsUnreadable (tree : FileTree) (p : Path) : Prop :=
  ∃ place content isPrivate, tree.locate p = .ok place ∧
    tree.get? place = some (.file content isPrivate) ∧ tree.allows place .read = false

/-- Why a file is refused that may well be there: the system does not tell whether it is, or does
not give it out. -/
inductive Refuses (tree : FileTree) (p : Path) : PathTrouble → Prop
  | tooLong : IsTooLong p → Refuses tree p .nameTooLong
  | closed : tree.IsClosedTo p → Refuses tree p .denied
  | unreadable : tree.IsUnreadable p → Refuses tree p .denied

theorem refuses_of_reach {trouble : PathTrouble} (h : tree.reach p = .error trouble)
    (hmute : saysNothing trouble = false) : tree.Refuses p trouble := by
  unfold reach at h
  split at h
  · rename_i hlong
    cases h
    exact .tooLong (.inl hlong)
  · cases stuck_of_follow h with
    | missing => cases hmute
    | file => cases hmute
    | tooLong hmem hlong => exact .tooLong (.inr ⟨_, hmem, hlong⟩)
    | closed hclosed => exact .closed hclosed

theorem read_of_isUnreadable (h : tree.IsUnreadable p) :
    tree.read p = .error (.path .denied p) := by
  obtain ⟨place, content, isPrivate, hplace, hfile, hread⟩ := h
  rw [read, hplace]
  dsimp only [bind, Except.bind]
  rw [hfile]
  dsimp only
  rw [hread]
  rfl

theorem HoldsFile.isUnreadable_or (h : tree.HoldsFile p content) :
    tree.IsUnreadable p ∨ tree.HoldsReadable p content := by
  obtain ⟨place, isPrivate, hplace, hfile⟩ := h
  cases hread : tree.allows place .read with
  | false => exact .inl ⟨place, content, isPrivate, hplace, hfile, hread⟩
  | true => exact .inr ⟨place, isPrivate, hplace, hfile, hread⟩

theorem locate_eq (hs : sayable p = .ok ()) :
    tree.locate p = (tree.reach p).mapError (.path · p) := by
  rw [locate, hs]
  rfl

theorem locate_eq_ok_iff :
    tree.locate p = .ok place ↔
      sayable p = .ok () ∧ tree.reach p = .ok place := by
  cases hs : sayable p with
  | error failure =>
    rw [locate, hs]
    constructor
    · intro h
      cases h
    · rintro ⟨h, -⟩
      cases h
  | ok said =>
    rw [locate_eq hs]
    cases tree.reach p <;> simp [Except.mapError]

/-- A path that cannot be said is none that the system has trouble with. -/
theorem sayable_ne_path {trouble : PathTrouble} {q : Path} :
    sayable p ≠ .error (.path trouble q) := by
  intro h
  unfold sayable at h
  split at h
  · cases h
  · split at h
    · cases h
    · cases h

theorem reach_of_locate_eq_error {trouble : PathTrouble} {q : Path}
    (h : tree.locate p = .error (.path trouble q)) : q = p ∧ tree.reach p = .error trouble := by
  cases hs : sayable p with
  | error failure =>
    rw [locate, hs] at h
    cases h
    exact (sayable_ne_path hs).elim
  | ok said =>
    rw [locate_eq hs] at h
    cases hreach : tree.reach p with
    | error found =>
      rw [hreach] at h
      cases h
      exact ⟨rfl, rfl⟩
    | ok place =>
      rw [hreach] at h
      cases h

/-- The look-up of a file fails for nothing but a refusal. -/
theorem isFile_eq_error {failure : Failure} (h : tree.isFile p = .error failure) :
    ∃ trouble, failure = .path trouble p ∧ tree.Refuses p trouble := by
  unfold isFile at h
  split at h
  · split at h
    · cases h
    · cases h
  · rename_i trouble q hplace
    split_ifs at h with hmute
    cases h
    obtain ⟨rfl, hreach⟩ := reach_of_locate_eq_error hplace
    exact ⟨trouble, rfl, refuses_of_reach hreach (by simpa using hmute)⟩
  · cases h

/-- The last name of a path is the last name of its place, unless it goes back. -/
theorem getLast?_of_follow {name : Text} (hname : name ≠ Text.ofString "..")
    (h : tree.follow start (names ++ [name]) = .ok goal) : goal.getLast? = some name := by
  induction names generalizing start with
  | nil =>
    obtain ⟨-, -, h⟩ := follow_cons_eq_ok_iff.mp h
    rw [Path.follow, if_neg hname] at h
    cases h
    exact List.getLast?_concat
  | cons first rest ih =>
    obtain ⟨-, -, h⟩ := follow_cons_eq_ok_iff.mp h
    exact ih h

/-- Files of two names are at two places. -/
theorem locate_ne_of_name_ne {a b : Text} (ha : a ≠ Text.ofString "..")
    (hb : b ≠ Text.ofString "..") (hne : a ≠ b)
    (h : tree.locate ⟨p.root, p.names ++ [a]⟩ = .ok place) :
    tree.locate ⟨p.root, p.names ++ [b]⟩ ≠ .ok place := by
  intro h'
  have hlast {name : Text} (hname : name ≠ Text.ofString "..")
      (hplace : tree.locate ⟨p.root, p.names ++ [name]⟩ = .ok place) :
      place.getLast? = some name := by
    obtain ⟨-, hreach⟩ := locate_eq_ok_iff.mp hplace
    unfold reach at hreach
    split at hreach
    · cases hreach
    · exact getLast?_of_follow hname hreach
  rw [hlast ha h] at hlast
  exact hne (Option.some.inj (hlast hb h'))

/-! ## Writing -/

/-- A path can be opened for writing: it leads to a regular file that may be written to, or to
nothing in a directory that may be added to. -/
def IsWritable (tree : FileTree) (p : Path) : Prop :=
  ∃ place, tree.locate p = .ok place ∧ tree.MayWrite place

/-- Names lead to the same place in every tree that has the same open directories. -/
theorem follow_of_isOpen (hopen : ∀ q, tree.IsOpen q → after.IsOpen q)
    (h : tree.follow start names = .ok goal) : after.follow start names = .ok goal := by
  induction names generalizing start with
  | nil => exact h
  | cons name rest ih =>
    obtain ⟨hstart, hshort, h⟩ := follow_cons_eq_ok_iff.mp h
    exact follow_cons_eq_ok_iff.mpr ⟨hopen start hstart, hshort, ih h⟩

theorem reach_of_isOpen (hw : after.workingDirectory = tree.workingDirectory)
    (hopen : ∀ q, tree.IsOpen q → after.IsOpen q)
    (h : tree.reach p = .ok goal) : after.reach p = .ok goal := by
  unfold reach at h ⊢
  split at h
  · cases h
  · rename_i hlong
    have horigin : after.origin p = tree.origin p := by rw [origin, origin, hw]
    rw [if_neg hlong, horigin]
    exact follow_of_isOpen hopen h

theorem locate_of_isOpen (hw : after.workingDirectory = tree.workingDirectory)
    (hopen : ∀ q, tree.IsOpen q → after.IsOpen q)
    (h : tree.locate p = .ok goal) : after.locate p = .ok goal := by
  obtain ⟨hs, hreach⟩ := locate_eq_ok_iff.mp h
  exact locate_eq_ok_iff.mpr ⟨hs, reach_of_isOpen hw hopen hreach⟩

/-- A path leads to the same place after something else than a directory was put anew there. -/
theorem locate_put (hp : tree.locate p = .ok goal) (hd : tree.get? place ≠ some .directory) :
    (tree.put place entry).locate p = .ok goal := by
  refine locate_of_isOpen workingDirectory_put (fun q hq => ?_) hp
  have hne : q ≠ place := by
    rintro rfl
    exact hd hq.directory
  exact ⟨by rw [get?_put_of_ne hne, hq.directory], allows_put_of_allows hq.search⟩

theorem exists_target (hp : tree.locate p = .ok place) (hw : tree.MayWrite place) :
    ∃ isPrivate, tree.target p = .ok (place, isPrivate) := by
  rw [target, hp]
  dsimp only [bind, Except.bind]
  cases hentry : tree.get? place with
  | none => exact ⟨false, if_pos (hw.parent hentry)⟩
  | some entry =>
    cases entry with
    | directory => exact absurd hentry hw.noDirectory
    | file content isPrivate => exact ⟨isPrivate, if_pos (hw.file (by rw [hentry]; simp))⟩

theorem locate_of_target {isPrivate : Bool} (h : tree.target p = .ok (place, isPrivate)) :
    tree.locate p = .ok place ∧ tree.MayWrite place := by
  unfold target at h
  obtain ⟨found, hplace, h⟩ := bind_eq_ok h
  split at h
  · cases h
  · rename_i hentry
    split_ifs at h with hwrite
    cases h
    refine ⟨hplace, by rw [hentry]; simp, fun _ => hwrite, fun hnone => ?_⟩
    rw [hentry] at hnone
    cases hnone
  · rename_i hentry
    split_ifs at h with hwrite
    cases h
    exact ⟨hplace, by rw [hentry]; simp, fun hsome => absurd hentry hsome, fun _ => hwrite⟩

theorem run_openForWriting (tree : FileTree) (p : Path) :
    (openForWriting p).run.run tree =
      match tree.target p with
      | .ok (place, isPrivate) => (.ok (place, isPrivate), tree.put place (.file [] isPrivate))
      | .error failure => (.error failure, tree) := by
  have hrun : (openForWriting p).run.run tree = (do
      let target ← tree.target p
      modify (·.put target.1 (.file [] target.2))
      return target : FileAction (Location × Bool)).run.run tree := rfl
  rw [hrun]
  cases tree.target p <;> rfl

/-- A text that is not written because its file cannot be opened leaves everything as it was. -/
theorem run_writeText_of_target_error {failure : Failure} (h : tree.target p = .error failure)
    (t : Text) : (writeText p t).run.run tree = (.error failure, tree) := by
  have hopen := run_openForWriting tree p
  rw [h] at hopen
  exact run_bind_of_error hopen

/-- What is written takes the place of the file that opening made or emptied. -/
theorem run_writeText_of_target {t : Text} {isPrivate : Bool}
    (h : tree.target p = .ok (place, isPrivate)) (ht : t.isScalar = true) :
    (writeText p t).run.run tree =
      (.ok (), tree.put place (.file (Utf8.encodeLoose t) isPrivate)) := by
  have hopen := run_openForWriting tree p
  rw [h] at hopen
  rw [← put_put (locate_of_target h).2.ne_nil (.file [] isPrivate), writeText,
    ExceptT.run_bind, StateT.run_bind, hopen, Utf8.encode_of_isScalar ht]
  rfl

/-- A text with a surrogate is refused when its file is open, and leaves the file empty. -/
theorem run_writeText_of_surrogate {t : Text} {isPrivate : Bool}
    (h : tree.target p = .ok (place, isPrivate)) (ht : t.isScalar = false) :
    ∃ fault, (writeText p t).run.run tree =
      (.error (.unencodable fault), tree.put place (.file [] isPrivate)) := by
  obtain ⟨fault, hfault⟩ := Utf8.exists_encode_error ht
  have hopen := run_openForWriting tree p
  rw [h] at hopen
  refine ⟨fault, ?_⟩
  unfold writeText
  rw [run_bind_of_ok hopen]
  dsimp only
  rw [hfault]
  rfl

/-! ## What making directories leaves alone -/

/-- Every file of the later tree was in the earlier one, with the same content. -/
def Preserves (tree after : FileTree) : Prop :=
  ∀ place content isPrivate, after.get? place = some (.file content isPrivate) →
    tree.get? place = some (.file content isPrivate)

theorem Preserves.trans {between : FileTree} (h : tree.Preserves between)
    (h' : between.Preserves after) : tree.Preserves after :=
  fun _ _ _ hfile => h _ _ _ (h' _ _ _ hfile)

theorem preserves_refl (tree : FileTree) : tree.Preserves tree := fun _ _ _ hfile => hfile

theorem preserves_makeOne {made : FileTree} (h : tree.makeOne p = .ok made) :
    tree.Preserves made := by
  unfold makeOne at h
  obtain ⟨place, -, h⟩ := bind_eq_ok h
  split at h
  · cases h
    exact preserves_refl tree
  · cases h
  · split_ifs at h
    cases h
    intro goal content isPrivate hfile
    rcases get?_put_eq_file hfile with ⟨-, hentry⟩ | hold
    · cases hentry
    · exact hold

theorem preserves_makeDirectories (tree : FileTree) (p : Path) :
    tree.Preserves (tree.makeDirectories p).1 := by
  -- along the recursion: the directory above is made first
  fun_induction makeDirectories tree p with
  | case1 p made hmade => exact preserves_makeOne hmade
  | case2 p failure hfailure hmissing made other hup ih =>
    rw [hup] at ih
    exact ih
  | case3 p failure hfailure hmissing made hup made' hmade ih =>
    rw [hup] at ih
    exact ih.trans (preserves_makeOne hmade)
  | case4 p failure hfailure hmissing made hup other hother ih =>
    rw [hup] at ih
    exact ih
  | case5 p failure hfailure hmissing => exact preserves_refl tree

theorem run_makeDirectory (tree : FileTree) (p : Path) :
    (makeDirectory p).run.run tree = ((tree.makeDirectories p).2, (tree.makeDirectories p).1) := by
  have hget : (get : FileAction FileTree).run.run tree = (.ok tree, tree) := rfl
  unfold makeDirectory
  rw [run_bind_of_ok hget]
  cases tree.makeDirectories p with
  | mk made outcome => cases outcome <;> rfl

/-! ## What writing adds -/

/-- Every file of the later tree was in the earlier one, with the same content, or is empty. -/
def AddsNothing (tree after : FileTree) : Prop :=
  ∀ place content isPrivate, after.get? place = some (.file content isPrivate) →
    tree.get? place = some (.file content isPrivate) ∨ content = []

theorem Preserves.addsNothing (h : tree.Preserves after) : tree.AddsNothing after :=
  fun _ _ _ hfile => .inl (h _ _ _ hfile)

theorem addsNothing_put_empty (tree : FileTree) (place : Location) (isPrivate : Bool) :
    tree.AddsNothing (tree.put place (.file [] isPrivate)) := by
  intro goal content isPrivate' hfile
  rcases get?_put_eq_file hfile with ⟨-, hentry⟩ | hold
  · cases hentry
    exact .inr rfl
  · exact .inl hold

theorem Preserves.trans_addsNothing {between : FileTree} (h : tree.Preserves between)
    (h' : between.AddsNothing after) : tree.AddsNothing after := by
  intro place content isPrivate hfile
  rcases h' place content isPrivate hfile with hold | hempty
  · exact .inl (h place content isPrivate hold)
  · exact .inr hempty

/-- A path leads to a place that holds a content, and every file elsewhere was there before. -/
structure Adds (tree after : FileTree) (p : Path) (content : Bytes) (place : Location) : Prop where
  located : after.locate p = .ok place
  written : ∃ isPrivate, after.get? place = some (.file content isPrivate)
  others : ∀ goal found isPrivate, goal ≠ place →
    after.get? goal = some (.file found isPrivate) → tree.get? goal = some (.file found isPrivate)

theorem Adds.holdsFile (h : tree.Adds after p content place) : after.HoldsFile p content := by
  obtain ⟨isPrivate, hfile⟩ := h.written
  exact ⟨place, isPrivate, h.located, hfile⟩

theorem Preserves.trans_adds {between : FileTree} (h : tree.Preserves between)
    (h' : between.Adds after p content place) : tree.Adds after p content place where
  located := h'.located
  written := h'.written
  others goal found isPrivate hne hfile := h goal found isPrivate (h'.others goal _ _ hne hfile)

theorem adds_of_target {isPrivate : Bool} (h : tree.target p = .ok (place, isPrivate))
    (content : Bytes) :
    tree.Adds (tree.put place (.file content isPrivate)) p content place := by
  obtain ⟨hplace, hw⟩ := locate_of_target h
  refine ⟨locate_put hplace hw.noDirectory, ⟨isPrivate, get?_put_self hw.ne_nil⟩, ?_⟩
  intro goal found isPrivate' hgoal hfile
  rwa [get?_put_of_ne hgoal] at hfile

def MayBeRead (tree : FileTree) (p : Path) : Prop :=
  ∀ place, tree.locate p = .ok place → tree.get? place ≠ none → tree.allows place .read = true

/-- **A text that is written to a path is in its file**, from which it is read if the file may
be. -/
theorem run_writeText {t : Text} (hp : tree.IsWritable p) (ht : t.isScalar = true) :
    ∃ after, (writeText p t).run.run tree = (.ok (), after) ∧
      after.HoldsFile p (Utf8.encodeLoose t) ∧
      (tree.MayBeRead p → after.HoldsReadable p (Utf8.encodeLoose t)) := by
  obtain ⟨place, hplace, hw⟩ := hp
  obtain ⟨isPrivate, htarget⟩ := exists_target hplace hw
  have hadds := adds_of_target htarget (Utf8.encodeLoose t)
  refine ⟨_, run_writeText_of_target htarget ht, hadds.holdsFile, fun hread => ?_⟩
  obtain ⟨isPrivate', hfile⟩ := hadds.written
  refine ⟨place, isPrivate', hadds.located, hfile, ?_⟩
  by_cases hnone : tree.get? place = none
  · exact allows_put_of_none hnone
  · rw [allows_put_of_some hnone]
    exact hread place hplace hnone

/-- The ways in which writing a text ends: the file is not opened or is left empty, since the text
turned out not to be encodable, or the text is written. -/
inductive Writing (tree : FileTree) (p : Path) (t : Text) : Except Failure Unit → FileTree → Prop
  | unwritten {failure : Failure} {after : FileTree} : tree.AddsNothing after →
      Writing tree p t (.error failure) after
  | written {after : FileTree} {place : Location} : t.isScalar = true →
      tree.Adds after p (Utf8.encodeLoose t) place → Writing tree p t (.ok ()) after

theorem writing_writeText (tree : FileTree) (p : Path) (t : Text) :
    Writing tree p t ((writeText p t).run.run tree).1 ((writeText p t).run.run tree).2 := by
  cases htarget : tree.target p with
  | error failure =>
    rw [run_writeText_of_target_error htarget]
    exact .unwritten (preserves_refl tree).addsNothing
  | ok target =>
    obtain ⟨place, isPrivate⟩ := target
    cases hscalar : t.isScalar with
    | true =>
      rw [run_writeText_of_target htarget hscalar]
      exact .written hscalar (adds_of_target htarget _)
    | false =>
      obtain ⟨fault, hrun⟩ := run_writeText_of_surrogate htarget hscalar
      rw [hrun]
      exact .unwritten (addsNothing_put_empty tree place isPrivate)

end WasmReceipt.FileTree
