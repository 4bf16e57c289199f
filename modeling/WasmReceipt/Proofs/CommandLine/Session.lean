import WasmReceipt.CommandLine.Session
import WasmReceipt.Proofs.Run
import WasmReceipt.Proofs.Utf8

/-! # Runs of a session

A run of an action takes a session and gives an outcome with the session after it. What an action
tells, whether it prints, complains or reports, changes no file. Lines are printed up to the first
one that the standard output refuses. -/

namespace WasmReceipt

/-! ## What the standard output takes -/

namespace Console

variable {console : Console} {lines : List Text} {t : Text}

def Takes (console : Console) (t : Text) : Prop := ∀ c ∈ t, console.refuses c = false

theorem takes_append {u : Text} : console.Takes (t ++ u) ↔ console.Takes t ∧ console.Takes u := by
  simp only [Takes, List.mem_append, or_imp, forall_and]

/-- Whatever the standard output is, it takes text without surrogates. -/
theorem takes_of_isScalar (h : t.isScalar = true) : console.Takes t := by
  intro c hc
  have hscalar := Text.isScalar_iff.mp h c hc
  cases hrefuses : console.refuses c with
  | false => rfl
  | true =>
    have hsurrogate := console.isSurrogate_of_refuses c hrefuses
    rw [hscalar] at hsurrogate
    cases hsurrogate

theorem firstRefused_eq_none_iff : Utf8.firstRefused console.refuses t = none ↔ console.Takes t :=
  Utf8.firstRefused_eq_none_iff

end Console

/-- How a command ends that handles failures of some kinds: an expected failure is an exit code. -/
def Stop.handled (codes : List (FailureKind × Nat)) : Stop → Stop
  | .exit code => .exit code
  | .failure cause =>
    match codes.find? fun c => cause.kind.isA c.1 with
    | some (_, code) => .exit code
    | none => .failure cause

namespace Session

variable {α β : Type} {s after : Session} {isQuiet : Bool}

@[simp] theorem run_get : (get : Action Session).run.run s = (.ok s, s) := rfl

@[simp] theorem run_attempt (x : Except Failure α) :
    (attempt x).run.run s = (x.mapError .failure, s) := by
  cases x <;> rfl

/-- An action that always goes on and leaves the files and the standard output alone. -/
def Tells (x : Action Unit) : Prop :=
  ∀ s, ∃ after, x.run.run s = (.ok (), after) ∧ after.files = s.files ∧ after.console = s.console

theorem tells_complain (t : Text) : Tells (complain t) := fun _ => ⟨_, rfl, rfl, rfl⟩

theorem tells_pure : Tells (pure ()) := fun _ => ⟨_, rfl, rfl, rfl⟩

theorem Tells.bind {x y : Action Unit} (hx : Tells x) (hy : Tells y) : Tells (do x; y) := by
  intro s
  obtain ⟨between, hfirst, hfiles, hconsole⟩ := hx s
  obtain ⟨after, hsecond, hfiles', hconsole'⟩ := hy between
  exact ⟨after, (run_bind_of_ok hfirst).trans hsecond, hfiles'.trans hfiles,
    hconsole'.trans hconsole⟩

theorem tells_report (e : Event) : Tells (report e) := by
  intro s
  -- the step is kept, and then at most one line is told
  have hrun : ∀ told : Action Unit, Tells told →
      ∃ after, (do set { s with steps := s.steps ++ [Step.event e] }; told : Action Unit).run.run s =
        (.ok (), after) ∧ after.files = s.files ∧ after.console = s.console := by
    intro told htold
    exact htold { s with steps := s.steps ++ [Step.event e] }
  unfold report
  rw [run_bind_of_ok run_get]
  refine hrun _ ?_
  split
  · exact tells_complain _
  · split
    · exact tells_complain _
    · exact tells_pure

/-- Checking a receipt comes to what the check comes to, and changes no file. -/
theorem run_verify (scheme : SignatureScheme) (r : Receipt) (key : Option Text) (s : Session) :
    ∃ after, (verify scheme r key).run.run s = ((r.verify scheme key).mapError .failure, after) ∧
      after.files = s.files ∧ after.console = s.console := by
  have hreported : Tells ((Event.ofVerification (r.verify scheme key)).forM report) := by
    unfold Event.ofVerification
    split
    · exact (tells_report _).bind tells_pure
    · exact tells_pure
  obtain ⟨after, hrun, hsame⟩ := hreported s
  exact ⟨after, (run_bind_of_ok hrun).trans (run_attempt _), hsame⟩

/-- How printing ends: all lines are printed, or those before the first that is refused. -/
inductive Prints (lines : List Text) (s : Session) : Except Stop Unit → Session → Prop
  | all : (∀ t ∈ lines, s.console.Takes t) →
      Prints lines s (.ok ()) { s with stdout := s.stdout ++ lines.flatMap line }
  | refused {done rest : List Text} {t : Text} {fault : Utf8.EncodeFault} :
      lines = done ++ t :: rest → (∀ u ∈ done, s.console.Takes u) →
      Utf8.firstRefused s.console.refuses t = some fault →
      Prints lines s (.error (.failure (.unencodable fault)))
        { s with stdout := s.stdout ++ done.flatMap line }

theorem run_printLine (t : Text) (s : Session) :
    (printLine t).run.run s =
      match Utf8.firstRefused s.console.refuses t with
      | some fault => (.error (.failure (.unencodable fault)), s)
      | none => (.ok (), { s with stdout := s.stdout ++ line t }) := by
  unfold printLine
  rw [run_bind_of_ok run_get]
  cases Utf8.firstRefused s.console.refuses t <;> rfl

/-- **Lines are printed up to the first one that is refused.** -/
theorem prints_print (lines : List Text) (s : Session) :
    Prints lines s ((print lines).run.run s).1 ((print lines).run.run s).2 := by
  induction lines generalizing s with
  | nil =>
    have hnil : Prints [] s (.ok ()) { s with stdout := s.stdout ++ [] } := .all nofun
    rwa [List.append_nil] at hnil
  | cons t rest ih =>
    have hline := run_printLine t s
    have hcons : print (t :: rest) = printLine t >>= fun _ => print rest := List.forM_cons
    rw [hcons]
    cases hfault : Utf8.firstRefused s.console.refuses t with
    | some fault =>
      rw [hfault] at hline
      rw [run_bind_of_error hline]
      have hrefused : Prints (t :: rest) s (.error (.failure (.unencodable fault)))
          { s with stdout := s.stdout ++ [].flatMap line } := .refused rfl nofun hfault
      rwa [List.flatMap_nil, List.append_nil] at hrefused
    | none =>
      rw [hfault] at hline
      have htakes := Console.firstRefused_eq_none_iff.mp hfault
      rw [run_bind_of_ok hline]
      have hrest := ih { s with stdout := s.stdout ++ line t }
      generalize (print rest).run.run { s with stdout := s.stdout ++ line t } = ended at hrest
      obtain ⟨outcome, after⟩ := ended
      cases hrest with
      | all hall =>
        rw [List.append_assoc]
        exact .all (List.forall_mem_cons.mpr ⟨htakes, hall⟩)
      | @refused done others u fault hlines hdone hu =>
        rw [hlines, List.append_assoc, ← List.flatMap_cons]
        exact .refused rfl (List.forall_mem_cons.mpr ⟨htakes, hdone⟩) hu

/-- A print fails for a line that is refused, and changes no file. -/
theorem print_cases (lines : List Text) (s : Session) :
    (∃ after, (print lines).run.run s = (.ok (), after) ∧ after.files = s.files ∧
      ∀ t ∈ lines, s.console.Takes t) ∨
    ∃ fault after, (print lines).run.run s = (.error (.failure (.unencodable fault)), after) ∧
      after.files = s.files ∧ ∃ t ∈ lines, ¬ s.console.Takes t := by
  have hprints := prints_print lines s
  generalize (print lines).run.run s = ended at hprints
  obtain ⟨outcome, after⟩ := ended
  cases hprints with
  | all hall => exact .inl ⟨_, rfl, rfl, hall⟩
  | @refused done rest t fault hlines _ hfault =>
    refine .inr ⟨fault, _, rfl, rfl, t, by rw [hlines]; simp, fun htakes => ?_⟩
    rw [Console.firstRefused_eq_none_iff.mpr htakes] at hfault
    cases hfault

/-- What lines come to on the standard output, unless they are to be kept quiet about. -/
def told (isQuiet : Bool) (lines : List Text) : Text := if isQuiet then [] else lines.flatMap line

theorem run_onFiles (x : FileAction α) :
    (onFiles x).run.run s =
      ((x.run.run s.files).1.mapError .failure, { s with files := (x.run.run s.files).2 }) :=
  run_attempt _

/-- There is nothing to handle in what goes well. -/
theorem run_handling_of_ok {x : Action α} {a : α} (codes : List (FailureKind × Nat))
    (h : x.run.run s = (.ok a, after)) : (handling codes x).run.run s = (.ok a, after) :=
  run_tryCatch_of_ok h

/-- An exit code is no failure. -/
theorem run_handling_of_exit {x : Action α} {code : Nat} (codes : List (FailureKind × Nat))
    (h : x.run.run s = (.error (.exit code), after)) :
    (handling codes x).run.run s = (.error (.exit code), after) :=
  run_tryCatch_of_error h

/-- Handling failures changes how a command ends, and no file. -/
theorem run_handling {codes : List (FailureKind × Nat)} {x : Action α} {outcome : Except Stop α}
    (h : x.run.run s = (outcome, after)) :
    ∃ told, (handling codes x).run.run s = (outcome.mapError (Stop.handled codes), told) ∧
      told.files = after.files := by
  cases outcome with
  | ok a => exact ⟨after, run_handling_of_ok codes h, rfl⟩
  | error stop =>
    cases stop with
    | exit code => exact ⟨after, run_handling_of_exit codes h, rfl⟩
    | failure cause =>
      unfold handling
      rw [run_tryCatch_of_error h]
      dsimp only [Except.mapError, Stop.handled]
      cases codes.find? fun c => cause.kind.isA c.1 with
      | some found => exact ⟨_, rfl, rfl⟩
      | none => exact ⟨after, rfl, rfl⟩

/-! ## Effects of actions -/

variable {R : FileTree → FileTree → Prop} {x : Action α} {f : α → Action β}

/-- A relation between files before and after that actions in a row have when each of them has
it. -/
structure IsFrame (R : FileTree → FileTree → Prop) : Prop where
  refl : ∀ tree, R tree tree
  trans : ∀ tree between after, R tree between → R between after → R tree after

/-- However an action ends, the files after it are related to those before. -/
def Affects (R : FileTree → FileTree → Prop) (x : Action α) : Prop :=
  ∀ s, R s.files (x.run.run s).2.files

abbrev Keeps (x : Action α) : Prop := Affects (fun tree after => after = tree) x

theorem Affects.bind (hR : IsFrame R) (hx : Affects R x) (hf : ∀ a, Affects R (f a)) :
    Affects R (x >>= f) := by
  intro s
  have hfirst := hx s
  cases hrun : x.run.run s with
  | mk outcome between =>
    rw [hrun] at hfirst
    cases outcome with
    | error stop =>
      rw [run_bind_of_error hrun]
      exact hfirst
    | ok a =>
      rw [run_bind_of_ok hrun]
      exact hR.trans _ _ _ hfirst (hf a between)

theorem isFrame_eq : IsFrame fun tree after => after = tree :=
  ⟨fun _ => rfl, fun _ _ _ h h' => h'.trans h⟩

theorem Keeps.bind (hx : Keeps x) (hf : ∀ a, Keeps (f a)) : Keeps (x >>= f) :=
  Affects.bind isFrame_eq hx hf

theorem Affects.handled (h : Affects R x) (codes : List (FailureKind × Nat)) :
    Affects R (handling codes x) := by
  intro s
  obtain ⟨told, hrun, hfiles⟩ : ∃ told, (handling codes x).run.run s =
      ((x.run.run s).1.mapError (Stop.handled codes), told) ∧
        told.files = (x.run.run s).2.files := run_handling rfl
  rw [hrun, hfiles]
  exact h s

/-! ## How actions end -/

/-- However an action ends, it does not end the command with an exit code. -/
def NeverExits (code : Nat) (x : Action α) : Prop := ∀ s, (x.run.run s).1 ≠ .error (.exit code)

variable {code : Nat}

theorem NeverExits.bind (hx : NeverExits code x) (hf : ∀ a, NeverExits code (f a)) :
    NeverExits code (x >>= f) := by
  intro s
  have hfirst := hx s
  cases hrun : x.run.run s with
  | mk outcome between =>
    rw [hrun] at hfirst
    cases outcome with
    | error stop =>
      rw [run_bind_of_error hrun]
      intro h
      cases h
      exact hfirst rfl
    | ok a =>
      rw [run_bind_of_ok hrun]
      exact hf a between

/-- Handling failures ends the command with the exit codes of the handled kinds and no other. -/
theorem NeverExits.handled {codes : List (FailureKind × Nat)} (h : NeverExits code x)
    (hcodes : ∀ c ∈ codes, c.2 ≠ code) : NeverExits code (handling codes x) := by
  intro s
  have hfirst := h s
  obtain ⟨told, hrun, -⟩ : ∃ told, (handling codes x).run.run s =
      ((x.run.run s).1.mapError (Stop.handled codes), told) ∧
        told.files = (x.run.run s).2.files := run_handling rfl
  rw [hrun]
  generalize (x.run.run s).1 = outcome at hfirst
  cases outcome with
  | ok a => nofun
  | error stop =>
    cases stop with
    | exit other => exact hfirst
    | failure cause =>
      dsimp only [Except.mapError, Stop.handled]
      cases hfound : codes.find? fun c => cause.kind.isA c.1 with
      | none => nofun
      | some found =>
        intro hexit
        cases hexit
        exact hcodes found (List.mem_of_find?_eq_some hfound) rfl

end Session

end WasmReceipt
