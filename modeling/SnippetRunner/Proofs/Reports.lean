import SnippetRunner.Runner

/-!
# What is reported of an execution

An outcome that is well formed (`Outcome.WellFormed`) is a success exactly if it has no error
message, and a success has some output and no errors among its diagnostics. Every execution ends
with such an outcome, whatever became of the compiler and the launcher (`wellFormed_report`), and
the outcome tells how it came about:

* the interpreter has stepped in only if it succeeded and the native run has failed;
* nothing has run the snippet exactly if it is blank or forbidden;
* where the interpreter may step in for a failed run, it decides on success, and its output is
  reported.

`Runner.report` is the outcome as a function of the settings, the snippet and what came of the
native run, and `outcome_execute` says that it is the outcome of an execution.
-/

namespace SnippetRunner

open Text

/-! ## Outcomes -/

namespace Outcome

/-- A success has no error message, some output and no errors; a failure has an error message. -/
structure WellFormed (o : Outcome) : Prop where
  success_iff : o.success = true ↔ o.errorMessage = none
  output_ne : o.success = true → o.output ≠ ""
  isError_eq : o.success = true → ∀ d ∈ o.diagnostics, d.isError = false

variable {o : Outcome}

theorem wellFormed_succeeded (output : String) (tier : Tier) :
    (succeeded output tier).WellFormed where
  success_iff := by simp [succeeded]
  output_ne _ := by
    simp only [succeeded]
    split
    · decide
    · next h => simpa using h
  isError_eq _ := by simp [succeeded]

theorem wellFormed_failed (message : String) (diagnostics : List Diagnostic) (tier : Tier) :
    (failed message diagnostics tier).WellFormed where
  success_iff := by simp [failed]
  output_ne h := by simp [failed] at h
  isError_eq h := by simp [failed] at h

/-- A failure may have any output. -/
theorem WellFormed.withOutput (h : o.WellFormed) (hfail : o.success = false) (output : String) :
    (o.withOutput output).WellFormed where
  success_iff := h.success_iff
  output_ne hs := absurd hs (by simp [Outcome.withOutput, hfail])
  isError_eq := h.isError_eq

/-- Any outcome may have more warnings. -/
theorem WellFormed.withDiagnostics (h : o.WellFormed) {more : List Diagnostic}
    (hmore : ∀ d ∈ more, d.isError = false) : (o.withDiagnostics more).WellFormed where
  success_iff := h.success_iff
  output_ne := h.output_ne
  isError_eq hs d hd := (List.mem_append.1 hd).elim (h.isError_eq hs d) (hmore d)

end Outcome

namespace Program

theorem wellFormed_interpret (limits : Limits) (p : Program) : (p.interpret limits).WellFormed := by
  unfold interpret outcomeOf
  split
  · exact Outcome.wellFormed_succeeded _ _
  · exact (Outcome.wellFormed_failed _ _ _).withOutput rfl _

theorem tier_interpret (limits : Limits) (p : Program) :
    (p.interpret limits).tier = .interpreter := by
  unfold interpret outcomeOf
  split <;> rfl

theorem usedFallback_interpret (limits : Limits) (p : Program) :
    (p.interpret limits).usedFallback = false := by
  unfold interpret outcomeOf
  split <;> rfl

end Program

/-! ## Failures of a native run -/

namespace Failure

/-- Whether the interpreter may step in after the failure. -/
def mayRetry (policy : Policy) (f : Failure) : Bool :=
  !(f.isFinal || (f.isCrash && !policy.retryAfterCrash))

theorem wellFormed_outcome (f : Failure) : f.outcome.WellFormed := by
  unfold outcome
  dsimp only
  split
  · exact (Outcome.wellFormed_failed _ _ _).withOutput rfl _
  · exact Outcome.wellFormed_failed _ _ _

theorem tier_outcome (f : Failure) : f.outcome.tier = .native := by
  unfold outcome
  dsimp only
  split <;> rfl

theorem usedFallback_outcome (f : Failure) : f.outcome.usedFallback = false := by
  unfold outcome
  dsimp only
  split <;> rfl

/-- What a failure leaves behind when the interpreter has made up for it are warnings. -/
theorem isError_of_mem_carried (f : Failure) {d : Diagnostic}
    (hd : d ∈ (f.diagnostics.filter Diagnostic.isError).map Diagnostic.asWarning ++
      if f.isCrash then [Diagnostic.warning f.retold none] else []) : d.isError = false := by
  rcases List.mem_append.1 hd with hd | hd
  · obtain ⟨d, -, rfl⟩ := List.mem_map.1 hd
    rfl
  · split at hd
    · rw [List.mem_singleton.1 hd]
      rfl
    · exact absurd hd List.not_mem_nil

variable {interpreted : Outcome}

theorem wellFormed_thenInterpreted (f : Failure) (h : interpreted.WellFormed) :
    (f.thenInterpreted interpreted).WellFormed := by
  unfold thenInterpreted
  dsimp only
  split
  · have hmore := h.withDiagnostics fun d => f.isError_of_mem_carried (d := d)
    exact ⟨hmore.success_iff, hmore.output_ne, hmore.isError_eq⟩
  · exact (Outcome.wellFormed_failed _ _ _).withOutput rfl _

/-- Success is a matter of the interpreter, and so is the output of a success. -/
theorem success_thenInterpreted (f : Failure) (interpreted : Outcome) :
    (f.thenInterpreted interpreted).success = interpreted.success ∧
      (interpreted.success = true →
        (f.thenInterpreted interpreted).output = interpreted.output) := by
  unfold thenInterpreted
  dsimp only
  split
  · next h => exact ⟨rfl, fun _ => rfl⟩
  · next h =>
    rw [Bool.not_eq_true] at h
    exact ⟨h.symm, fun hs => absurd hs (by simp [h])⟩

/-- The interpreter has stepped in exactly if it has succeeded. -/
theorem usedFallback_thenInterpreted (f : Failure) (interpreted : Outcome) :
    (f.thenInterpreted interpreted).usedFallback = interpreted.success := by
  unfold thenInterpreted
  dsimp only
  split
  · next h => exact h.symm
  · next h =>
    rw [Bool.not_eq_true] at h
    exact h.symm

theorem tier_thenInterpreted (f : Failure) (interpreted : Outcome) :
    (f.thenInterpreted interpreted).tier =
      if interpreted.success then interpreted.tier else .native := by
  unfold thenInterpreted
  dsimp only
  split <;> rfl

end Failure

/-! ## Executions -/

namespace Runner

/-- The outcome for a snippet that is turned down before anything runs. -/
def turnedDown? (policy : Policy) (snippet : List Char) : Option Outcome :=
  if isBlank snippet then some blank else (screen policy.deny snippet).map forbidden

/-- What is reported of a snippet under the given settings, if `native` comes of compiling and
launching it. -/
def report (s : Settings) (snippet : List Char) (native : Except Failure Streams) : Outcome :=
  match turnedDown? s.policy snippet with
  | some outcome => outcome
  | none =>
    if s.native.enabled then conclude s.policy (.ofSnippet snippet) native
    else (Program.ofSnippet snippet).interpret s.policy.limits

/-- The outcome of an execution depends on its surroundings only by what comes of the native run. -/
theorem outcome_execute (r : Runner) (d : WorkDir) (snippet : List Char) :
    (r.execute d snippet).outcome = report r.settings snippet
      (r.settings.native.attempt r.settings.policy r.toolchain r.surroundings
        (.ofSnippet snippet) d).result := by
  unfold execute report turnedDown?
  dsimp only
  split
  · rfl
  · cases screen r.settings.policy.deny snippet with
    | some rule => rfl
    | none => cases r.settings.native.enabled <;> rfl

theorem eq_of_turnedDown? {policy : Policy} {snippet : List Char} {o : Outcome}
    (h : turnedDown? policy snippet = some o) :
    o.WellFormed ∧ o.usedFallback = false ∧ o.tier = .none ∧ o.output = "" := by
  unfold turnedDown? at h
  split at h
  · obtain rfl := Option.some.inj h
    exact ⟨Outcome.wellFormed_failed _ _ _, rfl, rfl, rfl⟩
  · obtain ⟨rule, -, rfl⟩ := Option.map_eq_some_iff.1 h
    exact ⟨Outcome.wellFormed_failed _ _ _, rfl, rfl, rfl⟩

theorem isSome_turnedDown? (policy : Policy) (snippet : List Char) :
    (turnedDown? policy snippet).isSome = true ↔
      isBlank snippet = true ∨ (screen policy.deny snippet).isSome = true := by
  unfold turnedDown?
  split
  · next h => simp [h]
  · next h => simp [h]

theorem conclude_error (policy : Policy) (p : Program) (f : Failure) :
    conclude policy p (.error f) =
      if f.mayRetry policy then f.thenInterpreted (p.interpret policy.limits) else f.outcome := by
  unfold conclude Failure.mayRetry
  dsimp only
  cases f.isFinal || (f.isCrash && !policy.retryAfterCrash) <;> rfl

theorem wellFormed_conclude (policy : Policy) (p : Program) (native : Except Failure Streams) :
    (conclude policy p native).WellFormed := by
  cases native with
  | ok streams => exact Outcome.wellFormed_succeeded _ _
  | error f =>
    rw [conclude_error]
    split
    · exact f.wellFormed_thenInterpreted (p.wellFormed_interpret _)
    · exact f.wellFormed_outcome

theorem tier_conclude_ne (policy : Policy) (p : Program) (native : Except Failure Streams) :
    (conclude policy p native).tier ≠ .none := by
  cases native with
  | ok streams => exact nofun
  | error f =>
    rw [conclude_error]
    split
    · rw [f.tier_thenInterpreted, p.tier_interpret]
      split <;> exact nofun
    · rw [f.tier_outcome]
      exact nofun

/-- If the interpreter has stepped in, it has succeeded after a failure that allows for that. -/
theorem of_usedFallback_conclude {policy : Policy} {p : Program} {native : Except Failure Streams}
    (h : (conclude policy p native).usedFallback = true) :
    (conclude policy p native).success = true ∧ (conclude policy p native).tier = .interpreter ∧
      ∃ f, native = .error f ∧ f.mayRetry policy = true := by
  cases native with
  | ok streams => exact absurd h Bool.false_ne_true
  | error f =>
    rw [conclude_error] at h ⊢
    split at h
    · next hretry =>
      rw [f.usedFallback_thenInterpreted] at h
      rw [if_pos hretry, (f.success_thenInterpreted _).1, f.tier_thenInterpreted, if_pos h,
        p.tier_interpret]
      exact ⟨h, rfl, f, rfl, hretry⟩
    · rw [f.usedFallback_outcome] at h
      exact absurd h Bool.false_ne_true

/-- **Every outcome is well formed and tells how it came about**, whatever the settings and the
snippet are and whatever came of the native run. In the last statement `s'` are other settings with
the same policy that use the interpreter alone. -/
theorem wellFormed_report (s : Settings) (snippet : List Char) (native : Except Failure Streams) :
    (∀ t surroundings d,
      (s.native.attempt s.policy t surroundings (.ofSnippet snippet) d).result = native →
        (execute ⟨s, t, surroundings⟩ d snippet).outcome = report s snippet native) ∧
    (report s snippet native).WellFormed ∧
    ((report s snippet native).usedFallback = true →
      (report s snippet native).success = true ∧ (report s snippet native).tier = .interpreter ∧
        s.native.enabled = true ∧ ∃ f, native = .error f ∧ f.mayRetry s.policy = true) ∧
    ((report s snippet native).tier = .none ↔
      isBlank snippet = true ∨ (screen s.policy.deny snippet).isSome = true) ∧
    ((report s snippet native).tier = .none → (report s snippet native).output = "") ∧
    ∀ f, native = .error f → f.mayRetry s.policy = true →
      ∀ s' native', s'.policy = s.policy → s'.native.enabled = false →
        (report s snippet native).success = (report s' snippet native').success ∧
          ((report s snippet native).success = true →
            (report s snippet native).output = (report s' snippet native').output) := by
  refine ⟨fun t surroundings d h => ?_, ?_⟩
  · rw [outcome_execute, h]
  rw [← isSome_turnedDown?]
  unfold report
  cases hdown : turnedDown? s.policy snippet with
  | some o =>
    obtain ⟨hwell, hfallback, htier, houtput⟩ := eq_of_turnedDown? hdown
    refine ⟨hwell, fun h => absurd h (by simp [hfallback]), by simp [htier], fun _ => houtput,
      fun f _ _ s' native' hpolicy _ => ?_⟩
    rw [hpolicy, hdown]
    exact ⟨rfl, fun _ => rfl⟩
  | none =>
    dsimp only
    cases henabled : s.native.enabled with
    | false =>
      rw [if_neg Bool.false_ne_true]
      have htier := (Program.ofSnippet snippet).tier_interpret s.policy.limits
      refine ⟨Program.wellFormed_interpret _ _, fun h => ?_, by simp [htier], by simp [htier],
        fun f _ _ s' native' hpolicy hoff => ?_⟩
      · rw [Program.usedFallback_interpret] at h
        exact absurd h Bool.false_ne_true
      · rw [hpolicy, hdown, hoff]
        exact ⟨rfl, fun _ => rfl⟩
    | true =>
      rw [if_pos rfl]
      have htier := tier_conclude_ne s.policy (.ofSnippet snippet) native
      refine ⟨wellFormed_conclude _ _ _, fun h => ?_, by simp [htier], fun h => absurd h htier,
        fun f hf hretry s' native' hpolicy hoff => ?_⟩
      · obtain ⟨hsuccess, hinterpreter, hfailure⟩ := of_usedFallback_conclude h
        exact ⟨hsuccess, hinterpreter, rfl, hfailure⟩
      · rw [hf, conclude_error, if_pos hretry, hpolicy, hdown, hoff]
        obtain ⟨hsuccess, houtput⟩ := f.success_thenInterpreted
          ((Program.ofSnippet snippet).interpret s.policy.limits)
        exact ⟨hsuccess, fun h => houtput (hsuccess.symm.trans h)⟩

/-- Without a compiler the interpreter steps in, and prints what it prints alone. -/
theorem wellFormed_report_withoutCompiler :
    let s := Settings.standard
    let snippet := "System.out.println(\"x\");".toList
    let native : Except Failure Streams := .error (.compilerUnavailable "javac" .notFound)
    (report s snippet native).success = true ∧ (report s snippet native).tier = .interpreter ∧
      (report s snippet native).output = (report s.interpreterOnly snippet native).output := by
  intro s snippet native
  obtain ⟨-, -, hfallback, -, -, hretry⟩ := wellFormed_report s snippet native
  have hused : (report s snippet native).usedFallback = true := by decide +kernel
  obtain ⟨hsuccess, htier, -, -⟩ := hfallback hused
  obtain ⟨-, houtput⟩ := hretry _ rfl rfl s.interpreterOnly native rfl rfl
  exact ⟨hsuccess, htier, houtput hsuccess⟩

end Runner

end SnippetRunner
