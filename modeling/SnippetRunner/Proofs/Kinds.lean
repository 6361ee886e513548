import SnippetRunner.Proofs.Actions
import SnippetRunner.Proofs.Arithmetic
import SnippetRunner.Proofs.Soundness

/-!
# Numbers keep their kind

An assignment to a variable that holds a number computes in the wider kind of its operands and
converts the result by the kind that the variable has. `Run.Assigns` is the law of such assignments,
and `Run.exec_assignment` is the statement that runs follow it.

* Integers of different widths are computed in the wider one (`Width.binary_value_join`), and the
  variable gets the lowest bits of the result (`Width.assigned_value_join`). So it is exact modulo
  the width of the variable, also where the wider one has wrapped around.
* An operation on numbers is undefined only if it divides by zero (`Value.binary_eq_none_iff`).
* A text that has a number for its value does not start with `=` (`head?_ne_of_evaluate`). So the
  sign of the assignment is where the statement is cut.
-/

namespace SnippetRunner

open Text Scan

/-- The kinds of numbers. -/
inductive NumberKind
  | int | long | double
  deriving DecidableEq, Repr

/-- The place of a kind among the kinds, the narrow ones first. -/
def NumberKind.rank : NumberKind → Nat
  | int => 0
  | long => 1
  | double => 2

namespace Value

variable {current value result : Value} {op : BinaryOp}

/-- The kind of a number. -/
def kind? : Value → Option NumberKind
  | int _ => some .int
  | long _ => some .long
  | double _ => some .double
  | _ => none

/-- Whether a number divides nothing beside another one: as an integer beside integers, as a double
otherwise. -/
def isZeroBeside (other value : Value) : Bool :=
  match other.asLong?, value.asLong? with
  | some _, some n => n == 0
  | _, _ => value.asDouble?.any (· == 0.0)

/-- A number is an integer or a double. -/
theorem isNumeric_cases (h : value.isNumeric = true) :
    (∃ n, value = int n) ∨ (∃ n, value = long n) ∨ ∃ x, value = double x := by
  cases value with
  | int n => exact .inl ⟨n, rfl⟩
  | long n => exact .inr (.inl ⟨n, rfl⟩)
  | double x => exact .inr (.inr ⟨x, rfl⟩)
  | _ => cases h

/-- **What is assigned with an operator is cast to the kind of the variable.** -/
theorem kind?_assigned_narrow (hcurrent : current.isNumeric = true)
    (hvalue : value.isNumeric = true) : (assigned current value true).kind? = current.kind? := by
  obtain ⟨m, rfl⟩ | ⟨m, rfl⟩ | ⟨x, rfl⟩ := isNumeric_cases hcurrent <;>
    obtain ⟨n, rfl⟩ | ⟨n, rfl⟩ | ⟨y, rfl⟩ := isNumeric_cases hvalue <;> rfl

/-- **A plain assignment leads to no narrower kind.** -/
theorem rank_le_assigned (hcurrent : current.isNumeric = true) (hvalue : value.isNumeric = true) :
    ∃ k k', current.kind? = some k ∧ (assigned current value false).kind? = some k' ∧
      k.rank ≤ k'.rank := by
  obtain ⟨m, rfl⟩ | ⟨m, rfl⟩ | ⟨x, rfl⟩ := isNumeric_cases hcurrent <;>
    obtain ⟨n, rfl⟩ | ⟨n, rfl⟩ | ⟨y, rfl⟩ := isNumeric_cases hvalue <;>
    exact ⟨_, _, rfl, rfl, by decide⟩

theorem isNumeric_of_binary (hop : some op ∈ Statement.assignOps)
    (hcurrent : current.isNumeric = true) (hvalue : value.isNumeric = true)
    (h : binary op current value = some result) : result.isNumeric = true := by
  have harith : arithmetic op current value = some result := by
    simp only [Statement.assignOps, List.mem_cons, reduceCtorEq, Option.some.injEq,
      List.not_mem_nil, or_false, false_or] at hop
    rcases hop with rfl | rfl | rfl | rfl | rfl <;> exact h
  obtain ⟨m, rfl⟩ | ⟨m, rfl⟩ | ⟨x, rfl⟩ := isNumeric_cases hcurrent <;>
    obtain ⟨n, rfl⟩ | ⟨n, rfl⟩ | ⟨y, rfl⟩ := isNumeric_cases hvalue <;>
    obtain ⟨r, -, rfl⟩ := Option.map_eq_some_iff.1 harith <;> rfl

/-- **An operation on numbers is undefined only if it divides by zero.** -/
theorem binary_eq_none_iff (hop : some op ∈ Statement.assignOps)
    (hcurrent : current.isNumeric = true) (hvalue : value.isNumeric = true) :
    binary op current value = none ↔
      (op = .div ∨ op = .rem) ∧ isZeroBeside current value = true := by
  have hzero (n : Int32) : n.toInt64 = 0 ↔ n = 0 := by
    rw [← Int32.toInt_inj, ← Int64.toInt_inj, Int32.toInt_toInt64]
    rfl
  simp only [Statement.assignOps, List.mem_cons, reduceCtorEq, Option.some.injEq,
    List.not_mem_nil, or_false, false_or] at hop
  obtain ⟨m, rfl⟩ | ⟨m, rfl⟩ | ⟨x, rfl⟩ := isNumeric_cases hcurrent <;>
    obtain ⟨n, rfl⟩ | ⟨n, rfl⟩ | ⟨y, rfl⟩ := isNumeric_cases hvalue <;>
    rcases hop with rfl | rfl | rfl | rfl | rfl <;>
    simp [binary, arithmetic, arithmetic32, arithmetic64, arithmeticDouble, isZeroBeside, asLong?,
      asDouble?, hzero]

end Value

/-! ## Integers of different widths -/

namespace Width

variable {w w' : Width} {op : BinaryOp} {f : Int → Int → Int} {a b : Int}

/-- The wider one of two widths. -/
def join : Width → Width → Width
  | int, w => w
  | long, _ => long

/-- An integer within the range of 32 bits is the same one in 64 bits. -/
theorem toInt64_ofInt (ha : int.Holds a) : (Int32.ofInt a).toInt64 = Int64.ofInt a :=
  Int32.toInt64_ofInt ha.1 (Int.le_of_lt_add_one ha.2)

/-- Operators on integers are computed in the wider width. -/
theorem binary_value_join (hop : op.onIntegers? = some f) (ha : w.Holds a) (hb : w'.Holds b) :
    Value.binary op (w.value a) (w'.value b) = some ((w.join w').value (f a b)) := by
  have hlong := binary_value .long hop a b
  -- an operand of 32 bits beside one of 64 bits is widened
  have hleft (m : Int32) (n : Int64) :
      Value.binary op (.int m) (.long n) = Value.binary op (.long m.toInt64) (.long n) := by
    cases op <;> rfl
  have hright (m : Int64) (n : Int32) :
      Value.binary op (.long m) (.int n) = Value.binary op (.long m) (.long n.toInt64) := by
    cases op <;> rfl
  cases w <;> cases w'
  case int.int => exact binary_value .int hop a b
  case int.long => rw [value, value, hleft, toInt64_ofInt ha]; exact hlong
  case long.int => rw [value, value, hright, toInt64_ofInt hb]; exact hlong
  case long.long => exact hlong

/-- **What is stored in a variable has the lowest bits of the exact result.** -/
theorem assigned_value_join (a n : Int) :
    Value.assigned (w.value a) ((w.join w').value n) true = w.value n := by
  cases w <;> cases w'
  case int.long => exact congrArg Value.int Int64.toInt32_ofInt
  all_goals rfl

end Width

/-! ## Texts of numbers -/

namespace ExprParser

/-- The first token of an expression is no sign but a parenthesis or a prefix operator. -/
theorem Derives.exists_first {level : Nat} {e : Expr} {ts : List Lexeme}
    (h : Derives (.expr level e) ts) :
    ∃ t us, ts = t :: us ∧ ∀ s, t.token = .sign s → s = .lparen ∨ (unaryOp? s).isSome = true := by
  generalize hp : Part.expr level e = p at h
  induction h generalizing level e with
  | noArgs | lastArg | moreArgs => cases hp
  | loosen _ _ ih => exact ih rfl
  | literal h => exact ⟨_, _, rfl, fun s hs => by simp [hs, literal?] at h⟩
  | ident => exact ⟨_, _, rfl, fun s hs => by cases hs⟩
  | call => exact ⟨_, _, rfl, fun s hs => by cases hs⟩
  | construct => exact ⟨_, _, rfl, fun s hs => by cases hs⟩
  | group => exact ⟨_, _, rfl, fun s hs => .inl (Token.sign.inj hs).symm⟩
  | cast => exact ⟨_, _, rfl, fun s hs => .inl (Token.sign.inj hs).symm⟩
  | unary _ hop =>
    refine ⟨_, _, rfl, fun s hs => .inr ?_⟩
    rw [← Token.sign.inj hs, hop]
    rfl
  | field _ _ _ _ ih =>
    obtain ⟨t, us, rfl, ht⟩ := ih rfl
    exact ⟨t, _, rfl, ht⟩
  | method _ _ _ _ _ _ _ ih _ =>
    obtain ⟨t, us, rfl, ht⟩ := ih rfl
    exact ⟨t, _, rfl, ht⟩
  | index _ _ _ _ ih _ =>
    obtain ⟨t, us, rfl, ht⟩ := ih rfl
    exact ⟨t, _, rfl, ht⟩
  | binary _ _ _ _ ih _ =>
    obtain ⟨t, us, rfl, ht⟩ := ih rfl
    exact ⟨t, _, rfl, ht⟩
  | ternary _ _ _ _ _ ih _ _ =>
    obtain ⟨t, us, rfl, ht⟩ := ih rfl
    exact ⟨t, _, rfl, ht⟩

end ExprParser

/-- A text that starts with `=` starts with a sign that does. -/
theorem Lexer.exists_place_of_equals {cs rest : List Char} {ps : List Lexer.Piece}
    (h : Lexer.Cuts ('=' :: cs) ps rest) (p : Position) :
    ps = [] ∨ ∃ s span ts, Lexer.place p ps = ⟨.sign s, span⟩ :: ts ∧
      (s = .equal ∨ s = .assign) := by
  generalize htext : '=' :: cs = text at h
  cases h with
  | nil => exact .inl rfl
  | @blank c u cs' _ _ hstep _ =>
    obtain ⟨rfl, -⟩ := List.cons.inj htext
    obtain ⟨hspace, -⟩ | ⟨hslash, -⟩ | ⟨hslash, -⟩ := blank_of_step hstep
    · exact absurd hspace (by decide)
    · exact absurd hslash (by decide)
    · exact absurd hslash (by decide)
  | @token c u cs' _ t _ hstep _ =>
    obtain ⟨rfl, -⟩ := List.cons.inj htext
    obtain ⟨hquote, -⟩ | ⟨hquote, -⟩ | ⟨hdigit, -⟩ | ⟨hstart, -⟩ | ⟨s, hread, rfl, -, -⟩ :=
      Lexer.token_of_step hstep
    · exact absurd hquote (by decide)
    · exact absurd hquote (by decide)
    · exact absurd hdigit (by decide)
    · exact absurd hstart (by decide)
    · refine .inr ⟨s, _, _, rfl, ?_⟩
      have hlead := List.find?_some hread
      rw [List.isPrefixOf_iff_prefix] at hlead
      cases s with
      | equal => exact .inl rfl
      | assign => exact .inr rfl
      | _ => simp [Sign.text] at hlead

/-- No expression starts with `=`. -/
theorem head?_ne_of_parse {cs : List Char} {e : Expr} (h : Expr.parse cs = .ok e) :
    cs.head? ≠ some '=' := by
  intro hhead
  obtain ⟨rest, rfl⟩ := List.head?_eq_some_iff.1 hhead
  unfold Expr.parse at h
  cases hlex : lex ('=' :: rest) with
  | error err =>
    rw [hlex] at h
    cases h
  | ok tokens =>
    rw [hlex] at h
    obtain ⟨ps, hcuts, rfl⟩ := Lexer.exists_cuts_of_lex hlex
    have hroot := ExprParser.whole_eq_ok_iff.1 h
    obtain ⟨t, us, hplace, hfirst⟩ := hroot.exists_first
    obtain rfl | ⟨s, span, ts, hplace', hs⟩ := Lexer.exists_place_of_equals hcuts .start
    · cases hplace
    · rw [hplace'] at hplace
      obtain ⟨rfl, -⟩ := List.cons.inj hplace
      obtain rfl | rfl := hs <;> exact absurd (hfirst _ rfl) (by decide)

/-- A text that has a number for its value does not start with `=`. -/
theorem head?_ne_of_evaluate {cs : List Char} {env : Environment}
    (h : (evaluate cs env).isNumeric = true) : cs.head? ≠ some '=' := by
  intro hhead
  obtain ⟨rest, rfl⟩ := List.head?_eq_some_iff.1 hhead
  have htrim := head?_trim_cons (by decide : isSpace '=' = false) rest
  cases hparse : Expr.parse (trim ('=' :: rest)) with
  | ok e => exact head?_ne_of_parse hparse htrim
  | error err => simp [evaluate, Operand.value, Operand.ofText, hparse, Except.toOption,
      Value.isNumeric] at h

/-! ## Assignments -/

namespace Run

open Statement

/-- What `x op= e` makes of a variable with the number `current`, if `value` is the value of `e`. -/
structure UpdatesTo (op : BinaryOp) (current value result : Value) : Prop where
  kind?_eq : result.kind? = current.kind?
  /-- Integers are added, subtracted and multiplied modulo the width of the variable, whatever the
  width of the other operand is. -/
  modEq {w w' : Width} {a b : Int} {f : Int → Int → Int} : op.onIntegers? = some f →
    w.Holds a → current = w.value a → w'.Holds b → value = w'.value b →
      ∃ n, w.Holds n ∧ n ≡ f a b [ZMOD 2 ^ w.bits] ∧ result = w.value n

variable {x gap e : List Char} {m : Machine} {current : Value} {env : Environment}

theorem updatesTo_assigned {op : BinaryOp} {value result : Value} (hop : some op ∈ assignOps)
    (hcurrent : current.isNumeric = true) (hvalue : value.isNumeric = true)
    (h : Value.binary op current value = some result) :
    UpdatesTo op current value (Value.assigned current result true) := by
  have hnumber := Value.isNumeric_of_binary hop hcurrent hvalue h
  refine ⟨Value.kind?_assigned_narrow hcurrent hnumber, ?_⟩
  rintro w w' a b f hf ha rfl hb rfl
  rw [Width.binary_value_join hf ha hb] at h
  obtain rfl := Option.some.inj h
  refine ⟨w.wrap (f a b), w.holds_wrap _, w.wrap_modEq _, ?_⟩
  rw [Width.assigned_value_join, w.value_wrap]

/-- What an assignment to a variable with a number makes of the variables, if its right side has the
number `value`. -/
inductive Assigns (name : String) (env : Environment) (current value : Value) :
    Option BinaryOp → Environment → Prop
  | plain {k k' : NumberKind} {result : Value} : current.kind? = some k → result.kind? = some k' →
      k.rank ≤ k'.rank → Assigns name env current value none (env.set name result)
  | undefined {op : BinaryOp} : (op = .div ∨ op = .rem) →
      current.isZeroBeside value = true → Assigns name env current value (some op) env
  | defined {op : BinaryOp} {result : Value} :
      ¬ ((op = .div ∨ op = .rem) ∧ current.isZeroBeside value = true) →
      UpdatesTo op current value result →
      Assigns name env current value (some op) (env.set name result)

theorem assigns_act {name : String} {op : Option BinaryOp} {value : Operand} (hop : op ∈ assignOps)
    (hget : env.get? name = some current) (hcurrent : current.isNumeric = true)
    (hvalue : (value.value env).isNumeric = true) :
    Assigns name env current (value.value env) op (act env (assignAction name value op)) := by
  cases op with
  | none =>
    obtain ⟨k, k', hk, hk', hle⟩ := Value.rank_le_assigned hcurrent hvalue
    simp only [assignAction, act, hget]
    exact .plain hk hk' hle
  | some op =>
    have hnone := Value.binary_eq_none_iff hop hcurrent hvalue
    simp only [assignAction, act, updated, hget]
    cases hbinary : Value.binary op current (value.value env) with
    | none =>
      obtain ⟨hdiv, hzero⟩ := hnone.1 hbinary
      exact .undefined hdiv hzero
    | some result =>
      refine .defined ?_ (updatesTo_assigned hop hcurrent hvalue hbinary)
      rw [← hnone, hbinary]
      exact Option.some_ne_none _

theorem Assigns.get?_of_ne {name other : String} {value : Value} {op : Option BinaryOp}
    {env' : Environment} (h : Assigns name env current value op env') (hne : other ≠ name) :
    env'.get? other = env.get? other := by
  cases h with
  | undefined => rfl
  | plain | defined => exact env.get?_set_of_ne _ hne

/-- The first word of an assignment is its name. -/
theorem ledBy_assignment (hgap : isBlank gap = true) {op : Option BinaryOp} (hop : op ∈ assignOps)
    (e : List Char) :
    LedBy (fun c => !isIdentPart c) (gap ++ (opText op ++ ('=' :: e))) ∧
      (gap ++ (opText op ++ ('=' :: e))).head? ≠ some '.' := by
  suffices h : ∀ c ∈ (gap ++ (opText op ++ ('=' :: e))).head?, isIdentPart c = false ∧ c ≠ '.' from
    ⟨fun c hc => by simp [(h c hc).1], fun hpoint => (h '.' hpoint).2 rfl⟩
  intro c hc
  cases gap with
  | cons d gap =>
    obtain rfl : d = c := Option.some.inj hc
    have hspace : isSpace d = true := List.all_eq_true.1 hgap d List.mem_cons_self
    exact ⟨isIdentPart_of_isSpace hspace, Fragment.ne_of_isIn hspace (by decide)⟩
  | nil =>
    obtain ⟨-, hsign⟩ | ⟨d, hd, hsign, -⟩ := opText_cases hop
    · rw [hsign] at hc
      obtain rfl : '=' = c := Option.some.inj hc
      decide
    · rw [hsign] at hc
      obtain rfl : d = c := Option.some.inj hc
      simp only [List.mem_cons, List.not_mem_nil, or_false] at hd
      rcases hd with rfl | rfl | rfl | rfl | rfl <;> decide

/-- **Numeric variables keep their kind.** An assignment of a number to a variable `x` with a number
changes no other variable. With an operator it leaves `x` in its kind, changes nothing if it divides
by zero, and is exact modulo the width of `x` otherwise; without one it leads to no narrower kind.
A name that is also an unsupported word, such as `record`, is the exception: then nothing
changes. -/
theorem exec_assignment (hx : isIdentifier x = true)
    (hloop : String.ofList x ∉ ["for", "while"]) (hgap : isBlank gap = true)
    {op : Option BinaryOp} (hop : op ∈ assignOps) (htime : m.limits.timeout ≠ 0)
    (hget : m.env.get? (String.ofList x) = some current) (hcurrent : current.isNumeric = true)
    (hvalue : (evaluate e m.env).isNumeric = true) (line : Nat) :
    ∃ env', exec (Statement.read ⟨assignmentText x gap op e, line⟩) m =
        .ok () { m with env := env' } ∧
      (∀ name, name ≠ String.ofList x → env'.get? name = m.env.get? name) ∧
      (String.ofList x ∈ unsupportedWords → env' = m.env) ∧
      (String.ofList x ∉ unsupportedWords →
        Assigns (String.ofList x) m.env current (evaluate e m.env) op env') := by
  have hall := all_of_isIdentifier hx
  obtain ⟨hfirst, hpoint⟩ := ledBy_assignment hgap hop e
  have htext : assignmentText x gap op e = x ++ (gap ++ (opText op ++ ('=' :: e))) :=
    List.append_assoc ..
  by_cases hword : String.ofList x ∈ unsupportedWords
  · refine ⟨m.env, ?_, fun _ _ => rfl, fun _ => rfl, fun h => absurd hword h⟩
    rw [htext, read_of_unsupported hall hfirst hpoint line hword, exec_skip htime]
  · have hstatement : String.ofList x ∉ statementWords := by
      simp only [statementWords, List.mem_cons, not_or]
      simpa [hword] using hloop
    have hbrace : (x ++ (gap ++ (opText op ++ ('=' :: e)))).head? ≠ some '{' := by
      obtain ⟨c, -, hc, -, hpart, -⟩ := isIdentPart_ends hx
      rw [List.head?_append, hc, Option.some_or, ne_eq, Option.some.injEq]
      exact Fragment.ne_of_isIn hpart (by decide)
    have hread : Statement.read ⟨assignmentText x gap op e, line⟩ =
        .action (assignAction (String.ofList x) (.ofText e) op) := by
      rw [htext, read_of_word hall hfirst hpoint line hstatement hbrace, ← htext, readSimple,
        action?_assignmentText hx hgap hop (head?_ne_of_evaluate hvalue)]
    have hassigns := assigns_act hop hget hcurrent hvalue
    refine ⟨_, ?_, fun name hne => hassigns.get?_of_ne hne, fun h => absurd h hword,
      fun _ => hassigns⟩
    rw [hread, exec_action htime]

/-- A machine at which `x` is a variable of 32 bits with the value 7. -/
def machineWithSeven : Machine := ⟨⟨[("x", .int 7)]⟩, .empty 9, ⟨9, 9, 9⟩⟩

/-- A product of 35 bits, stored in 32 bits. -/
theorem exec_assignment_beyondRange :
    ∃ env, exec (Statement.read ⟨"x *= 3000000000".toList, 1⟩) machineWithSeven =
        .ok () { machineWithSeven with env := env } ∧
      env.get? "x" = some (.int (-474836480)) := by
  have hvalue : evaluate " 3000000000".toList machineWithSeven.env =
      Width.long.value 3000000000 := by cbv
  have hname : isIdentifier ['x'] = true := by decide
  have hgap : isBlank [' '] = true := by decide
  have hop : some .mul ∈ assignOps := by decide
  have hget : machineWithSeven.env.get? (String.ofList ['x']) = some (Width.int.value 7) := rfl
  have hnumber : (evaluate " 3000000000".toList machineWithSeven.env).isNumeric = true := by
    rw [hvalue]
    rfl
  obtain ⟨env, hexec, -, -, hassigns⟩ :=
    exec_assignment hname (by decide) hgap hop (by decide) hget rfl hnumber 1
  refine ⟨env, hexec, ?_⟩
  cases hassigns (by decide) with
  | undefined hop => exact absurd hop (by decide)
  | @defined _ result _ hupdates =>
    obtain ⟨n, hn, hmod, rfl⟩ := hupdates.modEq rfl (by decide) rfl (by decide) hvalue
    have hbits : (2 : Int) ^ Width.int.bits = 4294967296 := by decide
    have hrange : -2147483648 ≤ n ∧ n < 2147483648 := hn
    rw [hbits, Int.ModEq] at hmod
    obtain rfl : n = -474836480 := by omega
    exact Environment.get?_set_self _ _ _

end Run

end SnippetRunner
