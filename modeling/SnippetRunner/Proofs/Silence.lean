import SnippetRunner.Proofs.Balance
import SnippetRunner.Proofs.Launching
import SnippetRunner.Proofs.Reports

/-!
# Failures that say nothing

A failure is silent (`Outcome.IsSilent`) if its error message is empty and there are no diagnostics.
There is one way to get there. What is told of a program that crashed is what stands behind the mark
of an exception in its errors, and behind the mark there may be nothing (`NamesNoReason`).

* `crashMessage_eq_empty_iff`: only then the message of a crash is empty.
* `Failure.isSilent_outcome`, `Failure.not_isSilent_thenInterpreted`: of all failures only such a
  crash is silent, and not if the interpreter was to make up for it.
* `isSilent_execute_iff` is the exact condition for a silent failure of an execution.
-/

namespace SnippetRunner

open Text

/-! ## What is told of a crash -/

/-- What stands in front of the exception that stopped the main thread. -/
def crashMark : List Char := "Exception in thread \"main\" ".toList

/-- The first of the lines with the mark of an exception has only white space behind the mark. -/
def NamesNoReason (errors : List Char) : Prop :=
  ∃ above front back below, lines errors = above ++ (front ++ crashMark ++ back) :: below ∧
    (∀ line ∈ above, contains crashMark line = false) ∧ contains crashMark front = false ∧
    isBlank back = true

theorem behind?_crashMark_eq_some {line back : List Char} :
    Messages.behind? crashMark line = some back ↔
      ∃ front, line = front ++ crashMark ++ back ∧ contains crashMark front = false :=
  Messages.behind?_eq_some_iff (by decide)

theorem namesNoReason_iff {errors : List Char} :
    NamesNoReason errors ↔
      ∃ back, (lines errors).findSome? (Messages.behind? crashMark) = some back ∧
        isBlank back = true := by
  constructor
  · rintro ⟨above, front, back, below, hlines, habove, hfront, hback⟩
    refine ⟨back, List.findSome?_eq_some_iff.2 ⟨above, _, below, hlines, ?_, ?_⟩, hback⟩
    · exact behind?_crashMark_eq_some.2 ⟨front, rfl, hfront⟩
    · exact fun line hline => Messages.behind?_eq_none_iff.2 (habove line hline)
  · rintro ⟨back, hfind, hback⟩
    obtain ⟨above, line, below, hlines, hline, habove⟩ := List.findSome?_eq_some_iff.1 hfind
    obtain ⟨front, rfl, hfront⟩ := behind?_crashMark_eq_some.1 hline
    exact ⟨above, front, back, below, hlines,
      fun line hline => Messages.behind?_eq_none_iff.1 (habove line hline), hfront, hback⟩

/-- The message of a crash is empty only if the errors tell of an exception and name none. -/
theorem crashMessage_eq_empty_iff (status : Option Nat) (errors : List Char) :
    crashMessage status errors = "" ↔ NamesNoReason errors := by
  rw [namesNoReason_iff]
  unfold crashMessage
  dsimp only
  split
  · next reason hreason =>
    rw [show (lines errors).findSome? (Messages.behind? crashMark) = some reason from hreason]
    simp [trim_eq_nil_iff]
  · next hnone =>
    rw [show (lines errors).findSome? (Messages.behind? crashMark) = none from hnone]
    simp only [reduceCtorEq, false_and, exists_false, iff_false]
    split
    · next line hline => simpa using List.find?_some hline
    · simp

/-! ## Silent outcomes -/

/-- A failure that says nothing: its error message is empty, and there are no diagnostics. -/
def Outcome.IsSilent (o : Outcome) : Prop :=
  o.success = false ∧ o.errorMessage.getD "" = "" ∧ o.diagnostics = []

theorem isSilent_failed {message : String} {diagnostics : List Diagnostic} {tier : Tier} :
    (Outcome.failed message diagnostics tier).IsSilent ↔ message = "" ∧ diagnostics = [] := by
  simp [Outcome.IsSilent, Outcome.failed]

theorem isSilent_withOutput {o : Outcome} {output : String} :
    (o.withOutput output).IsSilent ↔ o.IsSilent :=
  Iff.rfl

theorem not_isSilent_of_success {o : Outcome} (h : o.success = true) : ¬ o.IsSilent :=
  fun hsilent => Bool.false_ne_true (hsilent.1.symm.trans h)

theorem Program.not_isSilent_interpret (limits : Limits) (p : Program) :
    ¬ (p.interpret limits).IsSilent := by
  unfold Program.interpret Program.outcomeOf
  split
  · exact not_isSilent_of_success rfl
  · rw [isSilent_withOutput, isSilent_failed]
    simp

namespace Failure

/-- A failure is worded, unless it is a crash or has diagnostics. -/
theorem message_ne_empty {f : Failure} (hcrash : f.isCrash = false) (hnone : f.diagnostics = []) :
    f.message ≠ "" := by
  cases f with
  | unbalanced message line => exact absurd hnone (List.cons_ne_nil _ _)
  | compilerUnavailable compiler reason =>
    change "compiler `" ++ compiler ++ "` is not available: " ++ reason.message ≠ ""
    simp
  | rejected diagnostics => exact (by decide : "Compilation failed" ≠ "")
  | nothingCompiled =>
    exact (by decide :
      "Class file was not generated - compilation may have failed silently" ≠ "")
  | overdue limit output =>
    change "Execution timeout exceeded (" ++ timeoutText limit ++ ")" ≠ ""
    simp
  | crashed message output => exact absurd hcrash.symm Bool.false_ne_true
  | launcherUnavailable launcher reason =>
    change "launcher `" ++ launcher ++ "` could not be started: " ++ reason.message ≠ ""
    simp
  | system reason =>
    change "scratch space error: " ++ reason.message ≠ ""
    simp

theorem diagnostics_of_isCrash {f : Failure} (h : f.isCrash = true) : f.diagnostics = [] := by
  unfold isCrash at h
  split at h
  · rfl
  · exact absurd h Bool.false_ne_true

theorem retold_ne_empty (f : Failure) : f.retold ≠ "" := by
  unfold retold
  split
  · exact (by decide : "Compilation failed" ≠ "")
  · next message output =>
    change "Execution failed: " ++ message ≠ ""
    simp
  · simp

/-- All failures say something by themselves, except for a crash without a message. -/
theorem isSilent_outcome (f : Failure) :
    f.outcome.IsSilent ↔ f.isCrash = true ∧ f.message = "" := by
  have hfailed : f.outcome.IsSilent ↔ f.message = "" ∧ f.diagnostics = [] := by
    unfold outcome
    dsimp only
    split
    · rw [isSilent_withOutput, isSilent_failed]
    · exact isSilent_failed
  rw [hfailed]
  constructor
  · rintro ⟨hmessage, hnone⟩
    refine ⟨?_, hmessage⟩
    by_contra hcrash
    rw [Bool.not_eq_true] at hcrash
    exact message_ne_empty hcrash hnone hmessage
  · rintro ⟨hcrash, hmessage⟩
    exact ⟨hmessage, diagnostics_of_isCrash hcrash⟩

/-- What is told after the interpreter was to make up for a failure is not silent. -/
theorem not_isSilent_thenInterpreted (f : Failure) (interpreted : Outcome) :
    ¬ (f.thenInterpreted interpreted).IsSilent := by
  unfold thenInterpreted
  dsimp only
  split
  · next hsuccess => exact not_isSilent_of_success hsuccess
  · rw [isSilent_withOutput, isSilent_failed]
    exact fun hsilent => f.retold_ne_empty hsilent.1

end Failure

namespace Runner

variable {policy : Policy}

theorem not_isSilent_of_turnedDown? {snippet : List Char} {o : Outcome}
    (h : turnedDown? policy snippet = some o) : ¬ o.IsSilent := by
  unfold turnedDown? at h
  split at h
  · obtain rfl := Option.some.inj h
    exact fun hsilent => absurd (isSilent_failed.1 hsilent).1 (by decide)
  · obtain ⟨rule, -, rfl⟩ := Option.map_eq_some_iff.1 h
    exact fun hsilent => absurd (isSilent_failed.1 hsilent).1 (by decide)

theorem isSilent_conclude {p : Program} {native : Except Failure Streams} :
    (conclude policy p native).IsSilent ↔
      ∃ f, native = .error f ∧ f.isCrash = true ∧ f.message = "" ∧
        policy.retryAfterCrash = false := by
  cases native with
  | ok streams => simp [conclude, Outcome.IsSilent, Outcome.succeeded]
  | error f =>
    rw [conclude_error]
    split
    · next hretry =>
      constructor
      · exact fun hsilent => absurd hsilent (f.not_isSilent_thenInterpreted _)
      · rintro ⟨_, hf, hcrash, -, hpolicy⟩
        obtain rfl := Except.error.inj hf
        simp [Failure.mayRetry, hcrash, hpolicy] at hretry
    · next hnot =>
      rw [f.isSilent_outcome]
      constructor
      · rintro ⟨hcrash, hmessage⟩
        have hpolicy : policy.retryAfterCrash = false := by
          cases f with
          | crashed => simpa [Failure.mayRetry, Failure.isFinal, Failure.isCrash] using hnot
          | _ => exact absurd hcrash Bool.false_ne_true
        exact ⟨f, rfl, hcrash, hmessage, hpolicy⟩
      · rintro ⟨_, hf, hcrash, hmessage, -⟩
        obtain rfl := Except.error.inj hf
        exact ⟨hcrash, hmessage⟩

theorem launchResult_eq_error {n : NativeSettings} {limit : Nat} {ending : Ending} {f : Failure}
    (h : n.launchResult limit ending = .error f) (hcrash : f.isCrash = true) :
    ∃ status streams, ending = .exited status streams ∧ status ≠ some 0 ∧
      f.message = crashMessage status streams.errors.toList := by
  unfold NativeSettings.launchResult at h
  split at h
  · obtain rfl := Except.error.inj h
    exact absurd hcrash Bool.false_ne_true
  · obtain rfl := Except.error.inj h
    exact absurd hcrash Bool.false_ne_true
  · next status streams =>
    split at h
    · exact absurd h nofun
    · next hstatus =>
      obtain rfl := Except.error.inj h
      exact ⟨status, streams, rfl, hstatus, rfl⟩

/-- **The exact condition for a silent failure.** An execution fails without a word exactly if the
interpreter is not to make up for crashes, and a launched program ended with a status other than
zero and errors that tell of an exception and name none. -/
theorem isSilent_execute_iff (r : Runner) (d : WorkDir) (snippet : List Char) :
    (r.execute d snippet).outcome.IsSilent ↔
      r.settings.policy.retryAfterCrash = false ∧
        ∃ entry status streams,
          .launch entry (.exited status streams) ∈ (r.execute d snippet).calls ∧
          status ≠ some 0 ∧ NamesNoReason streams.errors.toList := by
  rw [execute_eq]
  cases hdown : turnedDown? r.settings.policy snippet with
  | some outcome => simp [not_isSilent_of_turnedDown? hdown]
  | none =>
    dsimp only
    split
    · dsimp only
      rw [isSilent_conclude]
      obtain ⟨⟨f, hresult, hcrash⟩, hnot⟩ | ⟨-, streams, ending, -, hcalls, hresult⟩ :=
        r.settings.native.attempt_cases r.settings.policy r.toolchain r.surroundings
          (.ofSnippet snippet) d
      · rw [hresult]
        constructor
        · rintro ⟨_, hf, hcrash', -, -⟩
          obtain rfl := Except.error.inj hf
          exact absurd hcrash' (by simp [hcrash])
        · rintro ⟨-, entry, status, streams, hlaunch, -, -⟩
          exact absurd hlaunch (hnot _ _)
      · rw [hresult, hcalls]
        constructor
        · rintro ⟨f, hf, hcrash, hmessage, hpolicy⟩
          obtain ⟨status, streams', rfl, hstatus, htext⟩ := launchResult_eq_error hf hcrash
          rw [htext, crashMessage_eq_empty_iff] at hmessage
          exact ⟨hpolicy, (Program.ofSnippet snippet).qualifiedEntry, status, streams', by simp,
            hstatus, hmessage⟩
        · rintro ⟨hpolicy, entry, status, streams', hlaunch, hstatus, hnames⟩
          obtain ⟨-, rfl⟩ : entry = _ ∧ Ending.exited status streams' = ending := by
            simpa using hlaunch
          rw [← crashMessage_eq_empty_iff status] at hnames
          exact ⟨_, if_neg hstatus, rfl, hnames, hpolicy⟩
    · simp [Program.not_isSilent_interpret]

/-- A program that ends with an exception that the launcher does not name. -/
theorem isSilent_execute_unnamedException :
    let policy : Policy := { Policy.standard with retryAfterCrash := false }
    let errors := "Exception in thread \"main\" \n"
    let r : Runner :=
      ⟨⟨policy, .standard⟩,
        ⟨fun _ => (.exited (some 0) .silent, ["TempClass.class".toList]),
          fun _ => .exited (some 1) ⟨"", errors⟩⟩, .bare⟩
    (r.execute (.fresh "work") "System.out.println(1);".toList).outcome.IsSilent := by
  intro policy errors r
  apply (isSilent_execute_iff _ _ _).2
  have hlaunch : .launch "TempClass".toList (.exited (some 1) ⟨"", errors⟩) ∈
      (r.execute (.fresh "work") "System.out.println(1);".toList).calls := by decide +kernel
  have hnames : NamesNoReason errors.toList :=
    ⟨[], [], [], [], by decide, fun _ h => absurd h List.not_mem_nil, by decide, rfl⟩
  exact ⟨rfl, _, _, _, hlaunch, by decide, hnames⟩

end Runner

end SnippetRunner
