import SnippetRunner.Proofs.Actions
import SnippetRunner.Proofs.Limits
import SnippetRunner.Proofs.Printing

/-!
# What one statement does

A statement that is neither a loop nor a block does one of three things, whichever of the forms its
text falls through to (`Statement.exec_read_effects`).

* Printing leaves the variables alone. It adds the line to the output, or what fits of it, and then
  the run stops (`Run.Prints`, `Run.prints_exec`).
* Any other statement leaves the output alone. It changes at most one variable, which its text names
  (`Statement.target?_eq_some_iff`, `Run.ChangesOnly`): an action the one it works on
  (`Run.get?_act_of_ne`), a change to a collection the one that holds it (`Run.get?_mutate_of_ne`).
* A statement that starts with an unsupported word does nothing (`Statement.read_of_keyword`).
-/

namespace SnippetRunner

open Text Scan

/-- The variable that an action works on. -/
def Action.target : Action → String
  | declareEmpty name _ | declare name _ _ | assign name _ | update name _ _ | step name _ => name

namespace Run

variable {m m' : Machine} {env : Environment} {name : String}

/-! ## Printing -/

/-- What printing a line does: it is added to the output with a break behind it, or a start of it is
and the run stops, as the output would exceed its limit. -/
inductive Prints (line : String) (m : Machine) : EStateM.Result Stop Machine Unit → Prop
  | whole : m.console.text.utf8ByteSize + line.utf8ByteSize + 1 ≤ m.console.limit →
      Prints line m (.ok () { m with console := ⟨m.console.text ++ line ++ "\n", m.console.limit⟩ })
  | cut {start : List Char} : start <+: line.toList →
      m.console.limit < m.console.text.utf8ByteSize + line.utf8ByteSize + 1 →
      Prints line m (.error (.outputLimit m.console.limit)
        { m with console := ⟨m.console.text ++ String.ofList start, m.console.limit⟩ })

theorem prints_printLine (line : String) (m : Machine) : Prints line m (printLine line m) := by
  by_cases hroom : m.console.text.utf8ByteSize + line.utf8ByteSize + 1 ≤ m.console.limit
  · rw [printLine_of_fits hroom]
    exact .whole hroom
  · have hgt := Nat.lt_of_not_le hroom
    have hcut : printLine line m = .error (.outputLimit m.console.limit)
        { m with console := ⟨m.console.text ++ String.ofList (Console.fitting
          (m.console.limit - m.console.text.utf8ByteSize) line.toList), m.console.limit⟩ } := by
      simp only [printLine, bind_apply, modifyGet, MonadStateOf.modifyGet, EStateM.modifyGet,
        Console.print_of_gt hgt]
      rfl
    rw [hcut]
    exact .cut (Console.fitting_isPrefix _ _) hgt

/-- The line that is printed for a value; without one it is empty. -/
def lineOf (value : Option Operand) (env : Environment) : String :=
  (value.map fun operand => (operand.value env).render).getD ""

/-- **Printing leaves the variables alone.** -/
theorem prints_exec (htime : m.limits.timeout ≠ 0) (value : Option Operand) :
    Prints (lineOf value m.env) m (exec (.print value) m) := by
  have hline := prints_printLine (lineOf value m.env) m
  cases value with
  | none =>
    rw [exec, bind_apply, checkDeadline_of_timeout_ne_zero htime]
    exact hline
  | some operand =>
    rw [exec, bind_apply, checkDeadline_of_timeout_ne_zero htime]
    exact hline

/-! ## Changes to variables -/

/-- Whether a run changes nothing but the value of at most one variable. -/
structure ChangesOnly (name? : Option String) (m m' : Machine) : Prop where
  console_eq : m'.console = m.console
  limits_eq : m'.limits = m.limits
  get?_eq : ∀ other, name? ≠ some other → m'.env.get? other = m.env.get? other

theorem ChangesOnly.refl (name? : Option String) (m : Machine) : ChangesOnly name? m m :=
  ⟨rfl, rfl, fun _ _ => rfl⟩

theorem get?_updated_of_ne (env : Environment) {other : String} (op : BinaryOp) (value : Value)
    (h : other ≠ name) : (updated env name op value).get? other = env.get? other := by
  unfold updated
  split
  · rfl
  · split
    · exact Environment.get?_set_of_ne env _ h
    · rfl

/-- **An action works on one variable.** -/
theorem get?_act_of_ne (env : Environment) {a : Action} {other : String} (h : other ≠ a.target) :
    (act env a).get? other = env.get? other := by
  cases a with
  | declareEmpty name kind => exact Environment.get?_set_of_ne env _ h
  | declare name typeName init =>
    cases init with
    | none => rfl
    | some operand => exact Environment.get?_set_of_ne env _ h
  | assign name value =>
    simp only [act]
    split <;> exact Environment.get?_set_of_ne env _ h
  | update name op value => exact get?_updated_of_ne env op _ h
  | step name delta => exact get?_updated_of_ne env .add _ h

/-- **A change to a collection works on the variable that holds it.** -/
theorem get?_mutate_of_ne (env : Environment) {other : String} (source : List Char) (mu : Mutation)
    (h : other ≠ name) : (mutate env name source mu).get? other = env.get? other := by
  cases mu with
  | add value => exact Environment.get?_modify_of_ne env _ h
  | insert index value =>
    simp only [mutate]
    split
    · split
      · exact Environment.get?_modify_of_ne env _ h
      · rfl
    · rfl
  | put key value => exact Environment.get?_modify_of_ne env _ h

theorem exec_mutate (htime : m.limits.timeout ≠ 0) (target : String) (source : List Char)
    (mu : Mutation) :
    exec (.mutate target source mu) m =
      .ok () { m with env := mutate m.env target source mu } := by
  rw [exec, bind_apply, checkDeadline_of_timeout_ne_zero htime]
  rfl

end Run

namespace Statement

open Run

variable {f : Fragment} {m : Machine}

/-! ## Which statement a text is -/

/-- The variable that a statement declares, assigns or changes the collection of. -/
def target? (text : List Char) : Option String :=
  ((action? text).map Action.target).or ((mutation? text).map Prod.fst)

/-- A statement that prints starts with no word that tells another statement. -/
theorem keyword_of_printCall? {call : Bool × List Char} (h : printCall? f.text = some call) :
    f.keyword = "System".toList := by
  rw [printCall?, Option.bind_eq_bind, Option.bind_eq_some_iff] at h
  obtain ⟨tail, htail, -⟩ := h
  have htext : f.text = "System".toList ++ (".out.".toList ++ tail) :=
    (eq_append_of_afterLead? htail).trans rfl
  have hword : Fragment.keyword ⟨"System".toList ++ (".out.".toList ++ tail), f.line⟩ =
      "System".toList := keyword_append (by decide) (ledBy_cons rfl) f.line
  rwa [← htext] at hword

/-- **A statement that starts with an unsupported word has no effect**, whatever follows. -/
theorem read_of_keyword (h : String.ofList f.keyword ∈ unsupportedWords) : read f = .skip := by
  have hprint : printCall? f.text = none := by
    rw [Option.eq_none_iff_forall_ne_some]
    intro call hcall
    rw [keyword_of_printCall? hcall] at h
    exact absurd h (by decide)
  have hfor : String.ofList f.keyword ≠ "for" := fun hword => absurd (hword ▸ h) (by decide)
  have hwhile : String.ofList f.keyword ≠ "while" := fun hword => absurd (hword ▸ h) (by decide)
  simp only [read, readTo, hprint, if_neg hfor, if_neg hwhile, List.contains_eq_mem,
    decide_eq_true_eq, if_pos h]

theorem read_of_printCall? {argument : List Char} (h : printCall? f.text = some (false, argument)) :
    read f = .print (operand? argument) := by
  simp [read, readTo, h]

/-- What prints nothing has no effect, or is an action or a change to a collection by its text. -/
theorem read_of_not_printCall? (hfor : String.ofList f.keyword ≠ "for")
    (hwhile : String.ofList f.keyword ≠ "while") (hblock : isBlock f.text = false)
    (hprint : ∀ argument, printCall? f.text ≠ some (false, argument)) :
    read f = .skip ∨ read f = readSimple f.text := by
  by_cases hword : String.ofList f.keyword ∈ unsupportedWords
  · exact .inl (read_of_keyword hword)
  · cases hcall : printCall? f.text with
    | some call =>
      obtain ⟨formats, argument⟩ := call
      cases formats with
      | false => exact absurd hcall (hprint argument)
      | true => exact .inl (by simp [read, readTo, hcall])
    | none =>
      right
      have hends : ¬(f.text.head? = some '{' ∧ f.text.getLast? = some '}') := by
        simpa [isBlock] using hblock
      simp only [read, readTo, hcall, if_neg hfor, if_neg hwhile, List.contains_eq_mem,
        decide_eq_true_eq, if_neg hword, if_neg hends]

/-- A statement that prints nothing is read as an action, as a change to a collection or as nothing,
and `target?` names what it works on. -/
theorem readSimple_cases (text : List Char) :
    (∃ a, readSimple text = .action a ∧ target? text = some a.target) ∨
      (∃ name mu, readSimple text = .mutate name text mu ∧ target? text = some name) ∨
      readSimple text = .skip ∧ target? text = none := by
  cases haction : action? text with
  | some a => exact .inl ⟨a, by simp [readSimple, haction], by simp [target?, haction]⟩
  | none =>
    right
    cases hmutation : mutation? text with
    | some change =>
      exact .inl ⟨change.1, change.2, by simp [readSimple, haction, hmutation],
        by simp [target?, haction, hmutation]⟩
    | none =>
      exact .inr ⟨by simp [readSimple, haction, hmutation], by simp [target?, haction, hmutation]⟩

/-- **What a text names** is the variable of the action that is read from it, or the one that holds
the collection it changes. -/
theorem target?_eq_some_iff {text : List Char} {name : String} :
    target? text = some name ↔
      (∃ a, readSimple text = .action a ∧ a.target = name) ∨
        ∃ mu, readSimple text = .mutate name text mu := by
  obtain ⟨a, hread, htarget⟩ | ⟨name', mu, hread, htarget⟩ | ⟨hread, htarget⟩ :=
    readSimple_cases text
  · simp [hread, htarget]
  · simp [hread, htarget]
  · simp [hread, htarget]

/-- The line of a call is what its argument evaluates to; without an argument it is empty. -/
theorem lineOf_operand? (argument : List Char) (env : Environment) :
    lineOf (operand? argument) env =
      if isBlank argument then "" else (evaluate argument env).render := by
  unfold operand?
  split <;> rfl

/-! ## The law -/

/-- An action or a change to a collection changes the variable that its text names. -/
theorem exists_exec_readSimple (htime : m.limits.timeout ≠ 0) (text : List Char) :
    ∃ m', exec (readSimple text) m = .ok () m' ∧ ChangesOnly (target? text) m m' := by
  obtain ⟨a, hread, htarget⟩ | ⟨name, mu, hread, htarget⟩ | ⟨hread, htarget⟩ :=
    readSimple_cases text
  · rw [hread, htarget]
    refine ⟨{ m with env := act m.env a }, exec_action htime a, rfl, rfl, fun other hother => ?_⟩
    exact get?_act_of_ne m.env fun hname => hother (congrArg some hname.symm)
  · rw [hread, htarget]
    refine ⟨{ m with env := Run.mutate m.env name text mu }, exec_mutate htime name text mu,
      rfl, rfl, fun other hother => ?_⟩
    exact get?_mutate_of_ne m.env text mu fun hname => hother (congrArg some hname.symm)
  · rw [hread]
    exact ⟨m, exec_skip htime, .refl _ m⟩

/-- Once the time has passed, a statement does nothing. -/
theorem exec_read_of_timeout_eq_zero (htime : m.limits.timeout = 0)
    (hfor : String.ofList f.keyword ≠ "for") (hwhile : String.ofList f.keyword ≠ "while")
    (hblock : isBlock f.text = false) : exec (read f) m = .error (.deadline 0) m := by
  have hlate (r : Run Unit) : (checkDeadline >>= fun _ => r) m = .error (.deadline 0) m := by
    rw [bind_apply, checkDeadline_of_timeout_eq_zero htime]
  have hskip : exec .skip m = .error (.deadline 0) m := by
    rw [exec, checkDeadline_of_timeout_eq_zero htime]
  by_cases hprint : ∃ argument, printCall? f.text = some (false, argument)
  · obtain ⟨argument, hcall⟩ := hprint
    rw [read_of_printCall? hcall]
    cases operand? argument with
    | none => exact hlate _
    | some operand => exact hlate _
  · rw [not_exists] at hprint
    obtain hread | hread := read_of_not_printCall? hfor hwhile hblock hprint
    · rw [hread, hskip]
    · rw [hread, readSimple]
      split
      · rw [exec]
        exact hlate _
      · split
        · rw [exec]
          exact hlate _
        · exact hskip

/-- **The effects of a statement are bounded.** Let a statement be neither a loop nor a block. Once
the time has passed it does nothing. Before that,

* one that prints adds the text of its argument (`lineOf_operand?`) and a break to the output, or a
  start of that text if the output would exceed its limit, and leaves the variables alone,
* any other leaves the output alone, and all variables but the one that it declares, assigns or
  changes the collection of (`target?_eq_some_iff`),
* one that starts with an unsupported word changes nothing. -/
theorem exec_read_effects (hfor : String.ofList f.keyword ≠ "for")
    (hwhile : String.ofList f.keyword ≠ "while") (hblock : isBlock f.text = false) (m : Machine) :
    if m.limits.timeout = 0 then exec (read f) m = .error (.deadline 0) m
    else
      (∀ argument, printCall? f.text = some (false, argument) →
        Prints (lineOf (operand? argument) m.env) m (exec (read f) m)) ∧
      ((∀ argument, printCall? f.text ≠ some (false, argument)) →
        ∃ m', exec (read f) m = .ok () m' ∧ ChangesOnly (target? f.text) m m') ∧
      (String.ofList f.keyword ∈ unsupportedWords → exec (read f) m = .ok () m) := by
  split
  case isTrue htime => exact exec_read_of_timeout_eq_zero htime hfor hwhile hblock
  case isFalse htime =>
    refine ⟨fun argument hcall => ?_, fun hprint => ?_, fun hword => ?_⟩
    · rw [read_of_printCall? hcall]
      exact prints_exec htime _
    · obtain hread | hread := read_of_not_printCall? hfor hwhile hblock hprint
      · rw [hread]
        exact ⟨m, exec_skip htime, .refl _ m⟩
      · rw [hread]
        exact exists_exec_readSimple htime f.text
    · rw [read_of_keyword hword]
      exact exec_skip htime

/-- A line that is longer than there is room for, and a word that hides an assignment. -/
theorem exec_read_effects_cut :
    let m : Machine := ⟨.empty, .empty 2, ⟨1, 2, 1⟩⟩
    Prints (lineOf (operand? "\"x = 1\"".toList) m.env) m
        (exec (read ⟨"System.out.println(\"x = 1\")".toList, 1⟩) m) ∧
      exec (read ⟨"return x = 1".toList, 1⟩) m = .ok () m := by
  intro m
  have hprint := exec_read_effects (f := ⟨"System.out.println(\"x = 1\")".toList, 1⟩)
    (by decide) (by decide) (by decide) m
  have hskip := exec_read_effects (f := ⟨"return x = 1".toList, 1⟩)
    (by decide) (by decide) (by decide) m
  rw [if_neg (by decide)] at hprint hskip
  exact ⟨hprint.1 _ (by cbv), hskip.2.2 (by decide)⟩

end Statement

end SnippetRunner
