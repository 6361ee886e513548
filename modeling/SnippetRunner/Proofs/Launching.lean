import Mathlib.Data.List.Forall2
import SnippetRunner.Proofs.Reports

/-!
# What is launched, and what is left behind

Snippets take turns in one work directory (`executeTurns`), each with settings, a compiler and a
launcher of its own. A turn uses the work directory if its snippet is to be compiled
(`Turn.usesWorkDir`).

* A directory whose three places are free or folders can be cleared, and is empty then
  (`WorkDir.clear_of_isClearable`). Prepared folders are empty, whatever they held before
  (`WorkDir.eq_of_prepare`).
* `NativeSettings.Accepts` says that a compiler has accepted a program and written its class.
  `attempt_cases` is all that an attempt can come to: it fails without a launch, or the compiler has
  accepted the program and the launcher decides.
* In every turn the launcher is started only for what the compiler has accepted in that turn, and
  nothing is left in the work directory (`launches_accepted_class`).
-/

namespace SnippetRunner

open Text

theorem Program.snippet_ofSnippet (snippet : List Char) :
    (Program.ofSnippet snippet).snippet = snippet := by
  unfold Program.ofSnippet
  split <;> rfl

/-! ## Clearing -/

namespace Place

/-- Whether nothing stands at a place, or a folder. -/
def isClearable : Place → Bool
  | absent | folder _ => true
  | file | unreachable _ => false

variable {p : Place}

theorem remove_of_isClearable (h : p.isClearable = true) : p.remove = .ok .absent := by
  cases p with
  | absent => rfl
  | folder files => rfl
  | file => exact absurd h Bool.false_ne_true
  | unreachable reason => exact absurd h Bool.false_ne_true

@[simp] theorem isClearable_add (ways : List Way) : (p.add ways).isClearable = p.isClearable := by
  cases p <;> rfl

end Place

namespace WorkDir

/-- Whether nothing stands at any of the three places but folders. -/
def isClearable (d : WorkDir) : Bool :=
  d.sources.isClearable && d.classes.isClearable && d.temporary.isClearable

variable {d d' : WorkDir}

theorem clear_of_isClearable (h : d.isClearable = true) : d.clear = (.fresh d.path, none) := by
  simp only [isClearable, Bool.and_eq_true] at h
  obtain ⟨⟨hsources, hclasses⟩, htemporary⟩ := h
  simp only [clear, Place.remove_of_isClearable hsources, Place.remove_of_isClearable hclasses,
    Place.remove_of_isClearable htemporary]
  rfl

theorem path_clear (d : WorkDir) : d.clear.1.path = d.path := by
  unfold clear
  cases d.sources.remove with
  | error reason => rfl
  | ok sources =>
    dsimp only
    cases d.classes.remove with
    | error reason => rfl
    | ok classes => cases d.temporary.remove <;> rfl

/-- Prepared folders are empty. -/
theorem eq_of_prepare (h : d.prepare = (d', none)) :
    d' = ⟨d.path, .folder [], .folder [], .folder []⟩ := by
  unfold prepare at h
  split at h
  · exact absurd (congrArg Prod.snd h) nofun
  · next cleared hclear =>
    have hpath : cleared.path = d.path := by rw [← path_clear d, hclear]
    rw [← hpath]
    exact (congrArg Prod.fst h).symm

theorem exists_prepare_of_isClearable (h : d.isClearable = true) :
    ∃ d', d.prepare = (d', none) := by
  unfold prepare
  rw [clear_of_isClearable h]
  exact ⟨_, rfl⟩

/-- A class is there only if its file was added to the empty folder. -/
theorem exists_of_hasClass {written : List (List Char)} {file : List Char}
    (h : WorkDir.hasClass { d with classes := (Place.folder []).add (written.filterMap classWay?) }
      file = true) :
    ∃ path ∈ written, ∃ way, classWay? path = some way ∧ classWay? file = some way := by
  unfold hasClass at h
  split at h
  · next way hway =>
    have hmem : way ∈ written.filterMap classWay? := by
      simpa [Place.add, Place.holds] using h
    obtain ⟨path, hpath, hsame⟩ := List.mem_filterMap.1 hmem
    exact ⟨path, hpath, way, hsame, hway⟩
  · exact absurd h Bool.false_ne_true

end WorkDir

/-! ## Compiling and launching -/

namespace NativeSettings

variable {n : NativeSettings} {policy : Policy} {t : Toolchain} {setting : Option ClasspathSetting}
  {p : Program} {d : WorkDir}

/-- The arguments of the compiler for a program in the work directory at a path. -/
def compilerCall (n : NativeSettings) (setting : Option ClasspathSetting) (p : Program)
    (path : String) : List String :=
  compilerArguments n setting (pathBelow path "classes")
    (pathBelow path ("src/run/" ++ String.ofList p.fileName))

/-- The compiler accepts a program in the work directory at a path: it ends in time, by the report
of the one who waits for it (`Ending`), and with status zero, what it writes tells of no error, and
the class of the entry type is among its files. -/
structure Accepts (n : NativeSettings) (t : Toolchain) (setting : Option ClasspathSetting)
    (p : Program) (path : String) (streams : Streams) : Prop where
  ending_eq : (t.compile (n.compilerCall setting p path)).1 = .exited (some 0) streams
  isError_eq : ∀ diagnostic ∈
    Messages.read p (streams.output ++ "\n" ++ streams.errors).toList, diagnostic.isError = false
  exists_written : ∃ file ∈ (t.compile (n.compilerCall setting p path)).2, ∃ way,
    WorkDir.classWay? file = some way ∧ WorkDir.classWay? p.classFile = some way

theorem compileFailure?_eq_none {limit : Nat} {ending : Ending}
    (h : n.compileFailure? limit p d ending = none) :
    ∃ streams, ending = .exited (some 0) streams ∧
      (∀ diagnostic ∈ Messages.read p (streams.output ++ "\n" ++ streams.errors).toList,
        diagnostic.isError = false) ∧
      d.hasClass p.classFile = true := by
  unfold compileFailure? at h
  split at h
  · exact absurd h nofun
  · exact absurd h nofun
  · exact absurd h nofun
  · next status streams =>
    dsimp only at h
    split at h
    · exact absurd h nofun
    · next herror =>
      split at h
      · exact absurd h nofun
      · next hstatus =>
        split at h
        · next hclass =>
          rw [not_not] at hstatus
          rw [Bool.not_eq_true, List.any_eq_false] at herror
          exact ⟨streams, by rw [hstatus], fun x hx => by simpa using herror x hx, hclass⟩
        · exact absurd h nofun

theorem isCrash_of_compileFailure? {limit : Nat} {ending : Ending} {f : Failure}
    (h : n.compileFailure? limit p d ending = some f) : f.isCrash = false := by
  unfold compileFailure? at h
  split at h
  · obtain rfl := Option.some.inj h
    rfl
  · obtain rfl := Option.some.inj h
    rfl
  · obtain rfl := Option.some.inj h
    rfl
  · dsimp only at h
    split at h
    · obtain rfl := Option.some.inj h
      rfl
    · split at h
      · obtain rfl := Option.some.inj h
        rfl
      · split at h
        · exact absurd h nofun
        · obtain rfl := Option.some.inj h
          rfl

theorem endOfCall_of_exited {call : List String} {made : Ending × List (List Char)}
    {status : Option Nat} {streams : Streams}
    (h : (endOfCall call (fun reason => (.refused reason, [])) made).1 = .exited status streams) :
    endOfCall call (fun reason => (.refused reason, [])) made = made := by
  unfold endOfCall at h ⊢
  split
  · next hnul =>
    rw [if_pos hnul] at h
    exact absurd h nofun
  · rfl

theorem of_withSource {name : List Char} {d' : WorkDir} (h : d.withSource name = .ok d') :
    d'.path = d.path ∧ d'.classes = d.classes ∧ d'.isClearable = d.isClearable := by
  unfold WorkDir.withSource at h
  split at h
  · obtain rfl := Except.ok.inj h
    exact ⟨rfl, rfl, by simp [WorkDir.isClearable]⟩
  · exact absurd h nofun

/-- All that compiling in a prepared directory can come to. In the first case nothing is launched,
and in the second the launcher decides. -/
theorem compileAndLaunch_cases (n : NativeSettings) (policy : Policy) (t : Toolchain)
    (setting : Option ClasspathSetting) (p : Program) {d : WorkDir} (hd : d.classes = .folder []) :
    let attempt := n.compileAndLaunch policy t setting p d
    ((∃ f, attempt.result = .error f ∧ f.isCrash = false) ∧
        ∀ entry ending, .launch entry ending ∉ attempt.calls) ∨
      ∃ streams ending, n.Accepts t setting p d.path streams ∧
        attempt.calls =
          [.compile p.fileName (.exited (some 0) streams), .launch p.qualifiedEntry ending] ∧
        attempt.result = n.launchResult policy.timeout ending := by
  intro attempt
  unfold attempt compileAndLaunch
  split
  · next reason hsource => exact .inl ⟨⟨_, rfl, rfl⟩, by simp⟩
  · next d' hsource =>
    obtain ⟨hpath, hclasses, -⟩ := of_withSource hsource
    have harguments : compilerArguments n setting (d'.below "classes") (d'.sourcePath p.fileName) =
        n.compilerCall setting p d.path := by
      rw [← hpath]
      rfl
    rw [harguments]
    dsimp only
    split
    · next f hfailure => exact .inl ⟨⟨f, rfl, isCrash_of_compileFailure? hfailure⟩, by simp⟩
    · next hnone =>
      obtain ⟨streams, hending, herror, hclass⟩ := compileFailure?_eq_none hnone
      have hcall := endOfCall_of_exited hending
      rw [hcall] at hending hclass
      rw [hclasses, hd] at hclass
      refine .inr ⟨streams, _, ⟨hending, herror, WorkDir.exists_of_hasClass hclass⟩, ?_, rfl⟩
      rw [hcall, hending]

/-- Compiling and launching leaves folders where there were folders. -/
theorem isClearable_compileAndLaunch (n : NativeSettings) (policy : Policy) (t : Toolchain)
    (setting : Option ClasspathSetting) (p : Program) (d : WorkDir) :
    let attempt := n.compileAndLaunch policy t setting p d
    attempt.workDir.path = d.path ∧ attempt.workDir.isClearable = d.isClearable := by
  intro attempt
  unfold attempt compileAndLaunch
  split
  · exact ⟨rfl, rfl⟩
  · next d' hsource =>
    obtain ⟨hpath, -, hclearable⟩ := of_withSource hsource
    dsimp only
    split <;> exact ⟨hpath, by simpa [WorkDir.isClearable] using hclearable⟩

/-- All that an attempt can come to. In the first case nothing is launched; in the second the
snippet is in balance, the compiler has accepted the program, and the launcher decides. -/
theorem attempt_cases (n : NativeSettings) (policy : Policy) (t : Toolchain) (s : Surroundings)
    (p : Program) (d : WorkDir) :
    let attempt := n.attempt policy t s p d
    ((∃ f, attempt.result = .error f ∧ f.isCrash = false) ∧
        ∀ entry ending, .launch entry ending ∉ attempt.calls) ∨
      checkBalance p.snippet = none ∧ ∃ streams ending,
        n.Accepts t (Probe.resolve s (Probe.standard s n)) p d.path streams ∧
        attempt.calls =
          [.compile p.fileName (.exited (some 0) streams), .launch p.qualifiedEntry ending] ∧
        attempt.result = n.launchResult policy.timeout ending := by
  intro attempt
  unfold attempt NativeSettings.attempt
  cases hbalance : checkBalance p.snippet with
  | some imbalance => exact .inl ⟨⟨_, rfl, rfl⟩, by simp⟩
  | none =>
    dsimp only
    split
    · exact .inl ⟨⟨_, rfl, rfl⟩, by simp⟩
    · next prepared hprepare =>
      obtain rfl := WorkDir.eq_of_prepare hprepare
      obtain hstays | hlaunched := n.compileAndLaunch_cases policy t
        (Probe.resolve s (Probe.standard s n)) p (d := ⟨d.path, .folder [], .folder [], .folder []⟩)
        rfl
      · exact .inl hstays
      · exact .inr ⟨rfl, hlaunched⟩

theorem calls_attempt_of_checkBalance (n : NativeSettings) (policy : Policy) (t : Toolchain)
    (s : Surroundings) {p : Program} (d : WorkDir) (h : (checkBalance p.snippet).isNone = false) :
    (n.attempt policy t s p d).calls = [] := by
  unfold attempt
  split
  · rfl
  · next hnone => exact absurd h (by simp [hnone])

/-- An attempt that gets as far as the work directory leaves nothing in it. -/
theorem workDir_attempt (n : NativeSettings) (policy : Policy) (t : Toolchain) (s : Surroundings)
    (p : Program) {d : WorkDir} (hd : d.isClearable = true) :
    (n.attempt policy t s p d).workDir =
      if (checkBalance p.snippet).isNone then .fresh d.path else d := by
  unfold NativeSettings.attempt
  cases checkBalance p.snippet with
  | some imbalance => rfl
  | none =>
    obtain ⟨prepared, hprepare⟩ := WorkDir.exists_prepare_of_isClearable hd
    obtain rfl := WorkDir.eq_of_prepare hprepare
    obtain ⟨hpath, hclearable⟩ := n.isClearable_compileAndLaunch policy t
      (Probe.resolve s (Probe.standard s n)) p ⟨d.path, .folder [], .folder [], .folder []⟩
    dsimp only
    rw [hprepare]
    dsimp only
    rw [WorkDir.clear_of_isClearable (hclearable.trans rfl), hpath]
    rfl

end NativeSettings

/-! ## Turns in one work directory -/

/-- A snippet, and what executes it. -/
structure Turn where
  runner : Runner
  snippet : List Char

namespace Turn

/-- Whether the snippet is to be compiled, so that the work directory is used. -/
def usesWorkDir (turn : Turn) : Bool :=
  (Runner.turnedDown? turn.runner.settings.policy turn.snippet).isNone &&
    turn.runner.settings.native.enabled && (checkBalance turn.snippet).isNone

/-- The program is launched for good reasons: the snippet has passed the rules and is in balance,
and the compiler that was called in this turn has accepted the program. -/
structure Launches (turn : Turn) (path : String) (e : Execution) : Prop where
  screen_eq : screen turn.runner.settings.policy.deny turn.snippet = none
  checkBalance_eq : checkBalance turn.snippet = none
  exists_accepts : ∃ streams ending,
    turn.runner.settings.native.Accepts turn.runner.toolchain
      (Probe.resolve turn.runner.surroundings
        (Probe.standard turn.runner.surroundings turn.runner.settings.native))
      (.ofSnippet turn.snippet) path streams ∧
    e.calls = [.compile (Program.ofSnippet turn.snippet).fileName (.exited (some 0) streams),
      .launch (Program.ofSnippet turn.snippet).qualifiedEntry ending]

end Turn

namespace Runner

theorem screen_eq_none_of_turnedDown? {policy : Policy} {snippet : List Char}
    (h : turnedDown? policy snippet = none) : screen policy.deny snippet = none := by
  have hnot := (isSome_turnedDown? policy snippet).not
  rw [h, not_or] at hnot
  simpa using (hnot.1 (by simp)).2

/-- An execution is an attempt if the snippet is not turned down and a compiler is to be used. -/
theorem execute_eq (r : Runner) (d : WorkDir) (snippet : List Char) :
    r.execute d snippet =
      match turnedDown? r.settings.policy snippet with
      | some outcome => ⟨outcome, [], d⟩
      | none =>
        if r.settings.native.enabled then
          let attempt := r.settings.native.attempt r.settings.policy r.toolchain r.surroundings
            (.ofSnippet snippet) d
          ⟨conclude r.settings.policy (.ofSnippet snippet) attempt.result, attempt.calls,
            attempt.workDir⟩
        else ⟨(Program.ofSnippet snippet).interpret r.settings.policy.limits, [], d⟩ := by
  unfold execute turnedDown?
  dsimp only
  cases isBlank snippet with
  | true => rfl
  | false =>
    cases screen r.settings.policy.deny snippet with
    | some rule => rfl
    | none => cases r.settings.native.enabled <;> rfl

/-- What one execution does with the launcher and the work directory. -/
theorem launches_execute (r : Runner) {d : WorkDir} (hd : d.isClearable = true)
    (snippet : List Char) :
    let e := r.execute d snippet
    (∀ entry ending, .launch entry ending ∈ e.calls → Turn.Launches ⟨r, snippet⟩ d.path e) ∧
    if Turn.usesWorkDir ⟨r, snippet⟩ then e.workDir = .fresh d.path
    else e.calls = [] ∧ e.workDir = d := by
  intro e
  unfold e Turn.usesWorkDir
  rw [execute_eq]
  dsimp only
  cases hdown : turnedDown? r.settings.policy snippet with
  | some outcome => exact ⟨fun _ _ h => absurd h List.not_mem_nil, rfl, rfl⟩
  | none =>
    cases r.settings.native.enabled with
    | false => exact ⟨fun _ _ h => absurd h List.not_mem_nil, rfl, rfl⟩
    | true =>
      dsimp only
      refine ⟨fun entry ending hlaunch => ?_, ?_⟩
      · obtain ⟨-, hnot⟩ | ⟨hbalance, streams, ending', haccepts, hcalls, -⟩ :=
          r.settings.native.attempt_cases r.settings.policy r.toolchain r.surroundings
            (.ofSnippet snippet) d
        · exact absurd hlaunch (hnot entry ending)
        · rw [Program.snippet_ofSnippet] at hbalance
          exact ⟨screen_eq_none_of_turnedDown? hdown, hbalance, streams, ending', haccepts, hcalls⟩
      · cases hbalance : (checkBalance snippet).isNone with
        | true =>
          refine (NativeSettings.workDir_attempt _ _ _ _ _ hd).trans (if_pos ?_)
          rwa [Program.snippet_ofSnippet]
        | false =>
          refine ⟨NativeSettings.calls_attempt_of_checkBalance _ _ _ _ _ ?_,
            (NativeSettings.workDir_attempt _ _ _ _ _ hd).trans (if_neg ?_)⟩
          · rwa [Program.snippet_ofSnippet]
          · rw [Program.snippet_ofSnippet, hbalance]
            exact Bool.false_ne_true

end Runner

/-- Executes snippets one after another in one work directory, each by its own runner. -/
def executeTurns (d : WorkDir) : List Turn → List Execution
  | [] => []
  | turn :: rest =>
    let execution := turn.runner.execute d turn.snippet
    execution :: executeTurns execution.workDir rest

/-- The turns of a single runner. -/
theorem executeAll_eq_executeTurns (r : Runner) (d : WorkDir) (snippets : List (List Char)) :
    r.executeAll d snippets = executeTurns d (snippets.map (Turn.mk r)) := by
  induction snippets generalizing d with
  | nil => rfl
  | cons snippet rest ih =>
    rw [Runner.executeAll, List.map_cons, executeTurns, ih]

/-- **What is launched was compiled in the same turn, and nothing is left behind.** In every turn,
whatever the folders held at first, however the compiler and the launcher end, whatever they write
to their streams and whichever files the compiler adds below the directory of classes, which is all
it does to the work directory (`Toolchain`): the launcher is started only if the snippet has passed
the rules and the balance check, and the compiler has ended in time (`Ending`) with status zero, has
told of no error and has written the class of the entry type in this turn; and after a turn that
used the work directory its three places are free. -/
theorem launches_accepted_class {d : WorkDir} (hd : d.isClearable = true) (turns : List Turn) :
    List.Forall₂ (fun turn e =>
        (∀ entry ending, .launch entry ending ∈ e.calls → turn.Launches d.path e) ∧
        if turn.usesWorkDir then e.workDir = .fresh d.path else e.calls = [])
      turns (executeTurns d turns) := by
  induction turns generalizing d with
  | nil => exact .nil
  | cons turn rest ih =>
    obtain ⟨hlaunches, hleft⟩ := turn.runner.launches_execute hd turn.snippet
    -- whether the turn used the directory or not, the next one finds it as it may be
    have hnext : (turn.runner.execute d turn.snippet).workDir.isClearable = true ∧
        (turn.runner.execute d turn.snippet).workDir.path = d.path := by
      split at hleft
      · rw [hleft]
        exact ⟨rfl, rfl⟩
      · rw [hleft.2]
        exact ⟨hd, rfl⟩
    obtain ⟨hclearable, hpath⟩ := hnext
    refine .cons ⟨hlaunches, ?_⟩ ?_
    · split at hleft
      · next huses => rw [if_pos huses, hleft]
      · next huses => rw [if_neg huses, hleft.1]
    · rw [← hpath]
      exact ih hclearable

/-- A class that was there before is not launched. In the second turn the compiler writes it, and it
is. -/
theorem launches_accepted_class_staleClass :
    let stale : WorkDir :=
      ⟨"work", .absent, .folder [["classes".toList, "TempClass.class".toList]], .absent⟩
    let turn (written : List (List Char)) : Turn :=
      ⟨⟨.standard, ⟨fun _ => (.exited (some 0) .silent, written),
        fun _ => .exited (some 0) .silent⟩, .bare⟩, "int x = 1;".toList⟩
    let turns := [turn [], turn ["TempClass.class".toList]]
    stale.isClearable = true ∧ stale.hasClass "TempClass.class".toList = true ∧
      (executeTurns stale turns).map (fun e => e.calls.length) = [1, 2] ∧
      List.Forall₂ (fun turn e =>
          (∀ entry ending, .launch entry ending ∈ e.calls → turn.Launches "work" e) ∧
          if turn.usesWorkDir then e.workDir = .fresh "work" else e.calls = [])
        turns (executeTurns stale turns) := by
  intro stale turn turns
  exact ⟨rfl, by decide, by decide +kernel, launches_accepted_class (d := stale) rfl turns⟩

end SnippetRunner
