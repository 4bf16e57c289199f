import WasmReceipt.Proofs.FileTree

/-! # What actions on files leave alone

Writing a text or keeping a file to its owner touches the one place that the path leads to, and
never a directory, so every path leads to the same place afterwards. Making directories adds some on
the way of the path and changes nothing that was there. -/

namespace WasmReceipt.FileTree

variable {tree between after : FileTree} {p q : Path} {place goal : Location} {content : Bytes}
  {isPrivate : Bool}

/-! ## One file -/

/-- At most one place is changed: the one that a path leads to, where no directory was. A file
stands there afterwards, and nothing is denied of it that was allowed before. -/
structure ChangesAt (tree : FileTree) (p : Path) (after : FileTree) : Prop where
  workingDirectory : after.workingDirectory = tree.workingDirectory
  changed : ∀ place, after.get? place ≠ tree.get? place →
    tree.locate p = .ok place ∧ tree.get? place ≠ some .directory ∧
      ∃ content isPrivate, after.get? place = some (.file content isPrivate)
  granted : ∀ place access, after.allows place access ≠ tree.allows place access →
    tree.locate p = .ok place ∧ tree.get? place ≠ some .directory ∧ after.allows place access = true

theorem changesAt_refl (tree : FileTree) (p : Path) : tree.ChangesAt p tree :=
  ⟨rfl, fun _ h => absurd rfl h, fun _ _ h => absurd rfl h⟩

theorem ChangesAt.directory_iff (h : tree.ChangesAt p after) :
    after.get? place = some .directory ↔ tree.get? place = some .directory := by
  by_cases hsame : after.get? place = tree.get? place
  · rw [hsame]
  · obtain ⟨-, hd, content, isPrivate, hfile⟩ := h.changed place hsame
    refine iff_of_false ?_ hd
    rw [hfile]
    simp

theorem ChangesAt.allows_eq {access : Access} (h : tree.ChangesAt p after)
    (hne : tree.locate p ≠ .ok place ∨ tree.get? place = some .directory) :
    after.allows place access = tree.allows place access := by
  by_contra hgranted
  obtain ⟨hplace, hd, -⟩ := h.granted place access hgranted
  rcases hne with hne | hdirectory
  · exact hne hplace
  · exact hd hdirectory

theorem ChangesAt.allows {access : Access} (h : tree.ChangesAt p after)
    (hallows : tree.allows place access = true) : after.allows place access = true := by
  by_cases hsame : after.allows place access = tree.allows place access
  · rw [hsame, hallows]
  · exact (h.granted place access hsame).2.2

theorem ChangesAt.isOpen_iff (h : tree.ChangesAt p after) :
    after.IsOpen place ↔ tree.IsOpen place := by
  constructor
  · rintro ⟨hd, hsearch⟩
    have hd' := h.directory_iff.mp hd
    exact ⟨hd', by rwa [h.allows_eq (.inr hd')] at hsearch⟩
  · rintro ⟨hd, hsearch⟩
    exact ⟨h.directory_iff.mpr hd, h.allows hsearch⟩

/-- Every path leads to where it led before. -/
theorem ChangesAt.locate_iff (h : tree.ChangesAt p after) :
    after.locate q = .ok goal ↔ tree.locate q = .ok goal :=
  ⟨locate_of_isOpen h.workingDirectory.symm fun _ => h.isOpen_iff.mp,
    locate_of_isOpen h.workingDirectory fun _ => h.isOpen_iff.mpr⟩

theorem ChangesAt.trans (h : tree.ChangesAt p between) (h' : between.ChangesAt p after) :
    tree.ChangesAt p after where
  workingDirectory := h'.workingDirectory.trans h.workingDirectory
  changed place hne := by
    by_cases hsecond : after.get? place = between.get? place
    · rw [hsecond] at hne ⊢
      exact h.changed place hne
    · obtain ⟨hplace, hd, hfile⟩ := h'.changed place hsecond
      exact ⟨h.locate_iff.mp hplace, fun hdir => hd (h.directory_iff.mpr hdir), hfile⟩
  granted place access hne := by
    by_cases hsecond : after.allows place access = between.allows place access
    · rw [hsecond] at hne ⊢
      exact h.granted place access hne
    · obtain ⟨hplace, hd, hallows⟩ := h'.granted place access hsecond
      exact ⟨h.locate_iff.mp hplace, fun hdir => hd (h.directory_iff.mpr hdir), hallows⟩

theorem ChangesAt.get?_eq (h : tree.ChangesAt p after) (hne : tree.locate p ≠ .ok place) :
    after.get? place = tree.get? place := by
  by_contra hchanged
  exact hne (h.changed place hchanged).1

/-- What could be written at another place can still be written. -/
theorem ChangesAt.isWritable (h : tree.ChangesAt p after) (hq : tree.IsWritable q)
    (hne : tree.locate q ≠ tree.locate p) : after.IsWritable q := by
  obtain ⟨place, hplace, hd, hfile, hparent⟩ := hq
  have hsame : after.get? place = tree.get? place := h.get?_eq fun hp => hne (hplace.trans hp.symm)
  refine ⟨place, h.locate_iff.mpr hplace, ?_, fun hthere => ?_, fun hnone => ?_⟩
  · rwa [hsame]
  · rw [hsame] at hthere
    exact h.allows (hfile hthere)
  · rw [hsame] at hnone
    exact h.allows (hparent hnone)

/-- What a path to another place leads to stays. -/
theorem ChangesAt.holdsFile (h : tree.ChangesAt p after) (hq : tree.HoldsFile q content)
    (hne : tree.locate q ≠ tree.locate p) : after.HoldsFile q content := by
  obtain ⟨place, isPrivate, hplace, hfile⟩ := hq
  refine ⟨place, isPrivate, h.locate_iff.mpr hplace, ?_⟩
  rw [h.get?_eq fun hp => hne (hplace.trans hp.symm)]
  exact hfile

theorem changesAt_put (hp : tree.locate p = .ok place) (hd : tree.get? place ≠ some .directory)
    (content : Bytes) (isPrivate : Bool) :
    tree.ChangesAt p (tree.put place (.file content isPrivate)) where
  workingDirectory := rfl
  changed goal hne := by
    by_cases hgoal : goal = place
    · subst hgoal
      exact ⟨hp, hd, content, isPrivate, get?_put_self (ne_nil_of_get? hd)⟩
    · exact absurd (get?_put_of_ne hgoal) hne
  granted goal access hne := by
    by_cases hgoal : goal = place
    · subst hgoal
      by_cases hnone : tree.get? goal = none
      · exact ⟨hp, hd, allows_put_of_none hnone⟩
      · exact absurd (allows_put_of_some hnone) hne
    · exact absurd (allows_put_of_ne hgoal) hne

/-- **Writing a text touches one place**, whether or not the text can be encoded. -/
theorem changesAt_writeText (tree : FileTree) (p : Path) (t : Text) :
    tree.ChangesAt p ((writeText p t).run.run tree).2 := by
  cases htarget : tree.target p with
  | error failure =>
    rw [run_writeText_of_target_error htarget]
    exact changesAt_refl tree p
  | ok target =>
    obtain ⟨place, isPrivate⟩ := target
    obtain ⟨hplace, hw⟩ := locate_of_target htarget
    have hd := hw.noDirectory
    have hemptied := changesAt_put hplace hd [] isPrivate
    have hopen := run_openForWriting tree p
    rw [htarget] at hopen
    unfold writeText
    rw [run_bind_of_ok hopen]
    dsimp only
    cases Utf8.encode t with
    | error fault => exact hemptied
    | ok bytes =>
      exact hemptied.trans (changesAt_put (hemptied.locate_iff.mpr hplace)
        (fun hdir => hd (hemptied.directory_iff.mp hdir)) bytes isPrivate)

/-- Nothing is changed but that directories stand where nothing stood, on the way of a path. -/
structure MakesWay (tree : FileTree) (p : Path) (after : FileTree) : Prop where
  workingDirectory : after.workingDirectory = tree.workingDirectory
  made : ∀ place, after.get? place ≠ tree.get? place →
    tree.get? place = none ∧ after.get? place = some .directory ∧
      ∃ n, after.locate ⟨p.root, p.names.take n⟩ = .ok place
  granted : ∀ place access, after.allows place access ≠ tree.allows place access →
    tree.get? place = none ∧ after.allows place access = true

theorem makesWay_refl (tree : FileTree) (p : Path) : tree.MakesWay p tree :=
  ⟨rfl, fun _ h => absurd rfl h, fun _ _ h => absurd rfl h⟩

theorem MakesWay.directory (h : tree.MakesWay p after) (hd : tree.get? place = some .directory) :
    after.get? place = some .directory := by
  by_cases hsame : after.get? place = tree.get? place
  · rw [hsame, hd]
  · exact (h.made place hsame).2.1

theorem MakesWay.allows {access : Access} (h : tree.MakesWay p after)
    (hallows : tree.allows place access = true) : after.allows place access = true := by
  by_cases hsame : after.allows place access = tree.allows place access
  · rw [hsame, hallows]
  · exact (h.granted place access hsame).2

theorem MakesWay.locate (h : tree.MakesWay p after) (hq : tree.locate q = .ok goal) :
    after.locate q = .ok goal :=
  locate_of_isOpen h.workingDirectory
    (fun _ hopen => ⟨h.directory hopen.directory, h.allows hopen.search⟩) hq

theorem MakesWay.trans (h : tree.MakesWay p between) (h' : between.MakesWay p after) :
    tree.MakesWay p after where
  workingDirectory := h'.workingDirectory.trans h.workingDirectory
  made place hne := by
    by_cases hsecond : after.get? place = between.get? place
    · rw [hsecond] at hne ⊢
      obtain ⟨hnone, hd, n, hn⟩ := h.made place hne
      exact ⟨hnone, hd, n, h'.locate hn⟩
    · obtain ⟨hnone, hd, hn⟩ := h'.made place hsecond
      by_cases hfirst : between.get? place = tree.get? place
      · exact ⟨hfirst ▸ hnone, hd, hn⟩
      · have hmade := (h.made place hfirst).2.1
        rw [hnone] at hmade
        cases hmade
  granted place access hne := by
    by_cases hsecond : after.allows place access = between.allows place access
    · rw [hsecond] at hne ⊢
      exact h.granted place access hne
    · obtain ⟨hnone, hallows⟩ := h'.granted place access hsecond
      by_cases hfirst : between.get? place = tree.get? place
      · exact ⟨hfirst ▸ hnone, hallows⟩
      · have hmade := (h.made place hfirst).2.1
        rw [hnone] at hmade
        cases hmade

/-- What is made on the way to the parent is made on the way. -/
theorem MakesWay.ofParent (h : tree.MakesWay p.parent after) : tree.MakesWay p after where
  workingDirectory := h.workingDirectory
  made place hne := by
    obtain ⟨hnone, hd, n, hn⟩ := h.made place hne
    refine ⟨hnone, hd, min n (p.names.length - 1), ?_⟩
    rw [Path.parent, List.dropLast_eq_take, List.take_take] at hn
    exact hn
  granted := h.granted

theorem makesWay_makeOne {made : FileTree} (h : tree.makeOne p = .ok made) :
    tree.MakesWay p made := by
  unfold makeOne at h
  obtain ⟨place, hplace, h⟩ := bind_eq_ok h
  split at h
  · cases h
    exact makesWay_refl tree p
  · cases h
  · rename_i hnone
    split_ifs at h
    cases h
    have hd : tree.get? place ≠ some .directory := by
      rw [hnone]
      simp
    refine ⟨rfl, fun goal hne => ?_, fun goal access hne => ?_⟩
    · by_cases hgoal : goal = place
      · subst hgoal
        refine ⟨hnone, get?_put_self (ne_nil_of_get? hd), p.names.length, ?_⟩
        rw [List.take_length]
        exact locate_put hplace hd
      · exact absurd (get?_put_of_ne hgoal) hne
    · by_cases hgoal : goal = place
      · subst hgoal
        exact ⟨hnone, allows_put_of_none hnone⟩
      · exact absurd (allows_put_of_ne hgoal) hne

/-- **Making directories makes those that were missing on the way**, also when it fails halfway. -/
theorem makesWay_makeDirectories (tree : FileTree) (p : Path) :
    tree.MakesWay p (tree.makeDirectories p).1 := by
  -- along the recursion: the directory above is made first
  fun_induction makeDirectories tree p with
  | case1 p made hmade => exact makesWay_makeOne hmade
  | case2 p failure hfailure hmissing made other hup ih =>
    rw [hup] at ih
    exact ih.ofParent
  | case3 p failure hfailure hmissing made hup made' hmade ih =>
    rw [hup] at ih
    exact ih.ofParent.trans (makesWay_makeOne hmade)
  | case4 p failure hfailure hmissing made hup other hother ih =>
    rw [hup] at ih
    exact ih.ofParent
  | case5 p failure hfailure hmissing => exact makesWay_refl tree p

/-- Files are what they were, at every place. -/
theorem MakesWay.file_iff (h : tree.MakesWay p after) :
    after.get? place = some (.file content isPrivate) ↔
      tree.get? place = some (.file content isPrivate) := by
  by_cases hsame : after.get? place = tree.get? place
  · rw [hsame]
  · obtain ⟨hnone, hd, -⟩ := h.made place hsame
    rw [hnone, hd]
    simp

theorem MakesWay.holdsFile (h : tree.MakesWay p after) (hq : tree.HoldsFile q content) :
    after.HoldsFile q content := by
  obtain ⟨place, isPrivate, hplace, hfile⟩ := hq
  exact ⟨place, isPrivate, h.locate hplace, h.file_iff.mpr hfile⟩

/-! ## Doing it again -/

def HoldsDirectory (tree : FileTree) (p : Path) : Prop :=
  ∃ place, tree.locate p = .ok place ∧ tree.get? place = some .directory

theorem ChangesAt.holdsDirectory (h : tree.ChangesAt p after) (hq : tree.HoldsDirectory q) :
    after.HoldsDirectory q := by
  obtain ⟨place, hplace, hd⟩ := hq
  exact ⟨place, h.locate_iff.mpr hplace, h.directory_iff.mpr hd⟩

theorem holdsDirectory_of_makeOne {made : FileTree} (h : tree.makeOne p = .ok made) :
    made.HoldsDirectory p := by
  unfold makeOne at h
  obtain ⟨place, hplace, h⟩ := bind_eq_ok h
  split at h
  · rename_i hd
    cases h
    exact ⟨place, hplace, hd⟩
  · cases h
  · rename_i hnone
    split_ifs at h
    cases h
    have hd : tree.get? place ≠ some .directory := by
      rw [hnone]
      simp
    exact ⟨place, locate_put hplace hd, get?_put_self (ne_nil_of_get? hd)⟩

/-- Directories that were made are there, -/
theorem holdsDirectory_of_makeDirectories (h : (tree.makeDirectories p).2 = .ok ()) :
    (tree.makeDirectories p).1.HoldsDirectory p := by
  unfold makeDirectories at h ⊢
  split
  · rename_i made hmade
    exact holdsDirectory_of_makeOne hmade
  · rename_i failure hfailure
    rw [hfailure] at h
    dsimp only at h
    split
    · rename_i hmissing
      rw [if_pos hmissing] at h
      cases hup : tree.makeDirectories p.parent with
      | mk made outcome =>
        rw [hup] at h
        cases outcome with
        | error cause => cases h
        | ok _ =>
          dsimp only at h ⊢
          cases hmade : made.makeOne p with
          | ok made' => exact holdsDirectory_of_makeOne hmade
          | error cause =>
            rw [hmade] at h
            cases h
    · rename_i hmissing
      rw [if_neg hmissing] at h
      cases h

/-- and are not made again. -/
theorem makeDirectories_of_holdsDirectory (h : tree.HoldsDirectory p) :
    tree.makeDirectories p = (tree, .ok ()) := by
  obtain ⟨place, hplace, hd⟩ := h
  have hone : tree.makeOne p = .ok tree := by
    rw [makeOne, hplace]
    dsimp only [bind, Except.bind]
    rw [hd]
  rw [makeDirectories, hone]

/-- A file that was written can be written again, at the same place. -/
theorem target_put (h : tree.target p = .ok (place, isPrivate)) (content : Bytes) :
    (tree.put place (.file content isPrivate)).target p = .ok (place, isPrivate) := by
  obtain ⟨hplace, hw⟩ := locate_of_target h
  rw [target, locate_put hplace hw.noDirectory]
  dsimp only [bind, Except.bind]
  rw [get?_put_self hw.ne_nil]
  refine if_pos ((hw.put content isPrivate).file ?_)
  rw [get?_put_self hw.ne_nil]
  simp

/-- A file that is written is as private as it was. -/
theorem eq_of_target {wasPrivate : Bool} (h : tree.target p = .ok (place, isPrivate))
    (hfile : tree.get? place = some (.file content wasPrivate)) : wasPrivate = isPrivate := by
  rw [target, (locate_of_target h).1] at h
  dsimp only [bind, Except.bind] at h
  rw [hfile] at h
  dsimp only at h
  split_ifs at h
  cases h
  rfl

end WasmReceipt.FileTree
