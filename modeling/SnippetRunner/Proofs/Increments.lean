import SnippetRunner.Proofs.Kinds

/-!
# Increments

An increment adds an integer of 32 bits by the rules of `+`. So a number is stepped in its own kind,
where an integer wraps around (`Steps`), but what is no number is made a text with the number behind
it: the law of increments holds exactly if the variable is unbound or holds a number
(`exec_increment`).
-/

namespace SnippetRunner

open Text Scan Statement

namespace Run

variable {name : String} {env env' : Environment} {up : Bool}

/-- What an increment adds to an integer. -/
def stepInt (up : Bool) : Int := if up then 1 else -1

theorem stepDelta_eq (up : Bool) : Value.int (stepDelta up) = Width.int.value (stepInt up) := by
  cases up <;> rfl

/-- The law of increments: a number is stepped in its kind, an integer modulo its width, and nothing
changes if the variable holds no number. -/
inductive Steps (name : String) (env : Environment) (up : Bool) : Environment → Prop
  | integer {w : Width} {a n : Int} : w.Holds a → env.get? name = some (w.value a) → w.Holds n →
      n ≡ a + stepInt up [ZMOD 2 ^ w.bits] → Steps name env up (env.set name (w.value n))
  | double {y : Float} : env.get? name = some (.double y) →
      Steps name env up (env.set name (.double (y + (stepDelta up).toFloat)))
  | unchanged : (∀ v, env.get? name = some v → v.isNumeric = false) → Steps name env up env

/-- A number is an integer within the range of its width or a double. -/
theorem exists_value_of_isNumeric {v : Value} (h : v.isNumeric = true) :
    (∃ w a, Width.Holds w a ∧ v = w.value a) ∨ ∃ y, v = .double y := by
  obtain ⟨n, rfl⟩ | ⟨n, rfl⟩ | ⟨y, rfl⟩ := Value.isNumeric_cases h
  · exact .inl ⟨.int, n.toInt, ⟨n.le_toInt, n.toInt_lt⟩, by rw [Width.value, Int32.ofInt_toInt]⟩
  · exact .inl ⟨.long, n.toInt, ⟨n.le_toInt, n.toInt_lt⟩, by rw [Width.value, Int64.ofInt_toInt]⟩
  · exact .inr ⟨y, rfl⟩

/-- **A number is stepped in its kind.** -/
theorem steps_act {v : Value} (hget : env.get? name = some v) (hv : v.isNumeric = true) :
    Steps name env up (act env (.step name (stepDelta up))) := by
  obtain ⟨w, a, ha, rfl⟩ | ⟨y, rfl⟩ := exists_value_of_isNumeric hv
  · have hone : Width.int.Holds (stepInt up) := by cases up <;> decide
    have hadd : BinaryOp.add.onIntegers? = some (· + ·) := rfl
    have hsum := Width.binary_value_join hadd ha hone
    rw [← stepDelta_eq] at hsum
    have hresult : act env (.step name (stepDelta up)) =
        env.set name (w.value (w.wrap (a + stepInt up))) := by
      simp only [act, updated, hget, hsum, Width.assigned_value_join, w.value_wrap]
    rw [hresult]
    exact .integer ha hget (w.holds_wrap _) (w.wrap_modEq _)
  · have hresult : act env (.step name (stepDelta up)) =
        env.set name (.double (y + (stepDelta up).toFloat)) := by
      simp only [act, updated, hget]
      rfl
    rw [hresult]
    exact .double hget

/-- What is no number becomes a text that ends with the number added. -/
theorem act_step_of_not_isNumeric {v : Value} (hget : env.get? name = some v)
    (hv : v.isNumeric = false) :
    act env (.step name (stepDelta up)) =
      env.set name (.text (v.render ++ (Value.int (stepDelta up)).render)) := by
  cases v with
  | int | long | double => cases hv
  | bool | text | list | map =>
    simp only [act, updated, hget]
    rfl

/-- A value that is followed by a number is another one. -/
theorem text_append_ne (v : Value) (up : Bool) :
    .text (v.render ++ (Value.int (stepDelta up)).render) ≠ v := by
  intro h
  cases v with
  | text s =>
    have hlength := congrArg String.length (Value.text.inj h)
    have hpos : 0 < (Value.int (stepDelta up)).render.length := by cases up <;> decide
    simp only [Value.render, String.length_append] at hlength hpos
    omega
  | _ => cases h

/-- **The law of increments fails exactly where a variable holds what is no number.** -/
theorem steps_act_iff :
    Steps name env up (act env (.step name (stepDelta up))) ↔
      ∀ v, env.get? name = some v → v.isNumeric = true := by
  constructor
  · intro h v hget
    by_contra hv
    rw [Bool.not_eq_true] at hv
    rw [act_step_of_not_isNumeric hget hv] at h
    generalize hresult : env.set name (.text (v.render ++ (Value.int (stepDelta up)).render)) =
      env' at h
    cases h with
    | @integer w a n _ hget' =>
      obtain rfl := Option.some.inj (hget.symm.trans hget')
      cases w <;> cases hv
    | double hget' =>
      obtain rfl := Option.some.inj (hget.symm.trans hget')
      cases hv
    | unchanged =>
      have hset := env.get?_set_self name (.text (v.render ++ (Value.int (stepDelta up)).render))
      rw [hresult, hget] at hset
      exact text_append_ne v up (Option.some.inj hset).symm
  · intro h
    cases hget : env.get? name with
    | some v => exact steps_act hget (h v hget)
    | none =>
      have hresult : act env (.step name (stepDelta up)) = env := by
        simp only [act, updated, hget]
      rw [hresult]
      exact .unchanged fun v hv => by rw [hget] at hv; cases hv

variable {x : List Char} {m : Machine}

/-- The first word of an increment is its name, if the name comes first. -/
theorem ledBy_stepSign (up : Bool) (rest : List Char) :
    LedBy (fun c => !isIdentPart c) (stepSign up ++ rest) ∧
      (stepSign up ++ rest).head? ≠ some '.' ∧ (stepSign up ++ rest).head? ≠ some '{' := by
  obtain ⟨c, hc, hsign⟩ := stepSign_eq up
  rw [hsign]
  refine ⟨ledBy_cons ?_, fun h => ?_, fun h => ?_⟩
  · rcases hc with rfl | rfl <;> rfl
  · rcases hc with rfl | rfl <;> exact absurd (Option.some.inj h) (by decide)
  · rcases hc with rfl | rfl <;> exact absurd (Option.some.inj h) (by decide)

/-- Without parentheses there is no header of a loop. -/
theorem loopParts?_incrementText (hx : isIdentifier x = true) (leading : Bool) (line : Nat) :
    loopParts? ⟨incrementText up leading x, line⟩ = none := by
  have hparen : '(' ∉ incrementText up leading x := by
    intro hmem
    have hopen := (incrementText_skipped hx up leading _ hmem).2.1
    exact absurd hopen (by decide)
  have hfind := findChar?_append hparen []
  rw [List.append_nil] at hfind
  simp only [loopParts?, masked_incrementText hx, hfind, findChar?, Option.map_none,
    Option.bind_eq_bind, Option.bind_none]

/-- **Increments act on the variable alone.** Each of `x++`, `++x`, `x--` and `--x` changes no other
variable. It follows the law of increments exactly if `x` is unbound or holds a number; otherwise
it puts the number behind the text of the value. With its sign behind the name it has no effect if
the name is a word that tells another statement. -/
theorem exec_increment (hx : isIdentifier x = true) (htime : m.limits.timeout ≠ 0)
    (up leading : Bool) (line : Nat) :
    ∃ env', exec (Statement.read ⟨incrementText up leading x, line⟩) m =
        .ok () { m with env := env' } ∧
      (∀ other, other ≠ String.ofList x → env'.get? other = m.env.get? other) ∧
      (leading = false ∧ String.ofList x ∈ statementWords → env' = m.env) ∧
      (¬ (leading = false ∧ String.ofList x ∈ statementWords) →
        (Steps (String.ofList x) m.env up env' ↔
          ∀ v, m.env.get? (String.ofList x) = some v → v.isNumeric = true) ∧
        ∀ v, m.env.get? (String.ofList x) = some v → v.isNumeric = false →
          env' = m.env.set (String.ofList x)
            (.text (v.render ++ (Value.int (stepDelta up)).render))) := by
  have hall := all_of_isIdentifier hx
  by_cases hskip : leading = false ∧ String.ofList x ∈ statementWords
  · obtain ⟨rfl, hword⟩ := hskip
    refine ⟨m.env, ?_, fun _ _ => rfl, fun _ => rfl, fun h => absurd ⟨rfl, hword⟩ h⟩
    obtain ⟨hfirst, hpoint, -⟩ := ledBy_stepSign up []
    rw [List.append_nil] at hfirst hpoint
    have hread : Statement.read ⟨x ++ stepSign up, line⟩ = .skip :=
      read_of_statementWord hall hfirst hpoint line hword (loopParts?_incrementText hx false line)
    rw [incrementText, if_neg (by decide), hread, exec_skip htime]
  · have hread : Statement.read ⟨incrementText up leading x, line⟩ =
        .action (.step (String.ofList x) (stepDelta up)) := by
      have hsimple : readSimple (incrementText up leading x) =
          .action (.step (String.ofList x) (stepDelta up)) := by
        rw [readSimple, action?_incrementText hx]
      rw [← hsimple]
      cases leading with
      | true =>
        obtain ⟨hfirst, hpoint, hbrace⟩ := ledBy_stepSign up x
        exact read_of_word (x := []) rfl hfirst hpoint line (by decide) hbrace
      | false =>
        obtain ⟨hfirst, hpoint, -⟩ := ledBy_stepSign up []
        rw [List.append_nil] at hfirst hpoint
        have hbrace : (x ++ stepSign up).head? ≠ some '{' := by
          obtain ⟨c, -, hc, -, hpart, -⟩ := isIdentPart_ends hx
          rw [List.head?_append, hc, Option.some_or, ne_eq, Option.some.injEq]
          exact Fragment.ne_of_isIn hpart (by decide)
        exact read_of_word hall hfirst hpoint line (fun hword => hskip ⟨rfl, hword⟩) hbrace
    refine ⟨act m.env (.step (String.ofList x) (stepDelta up)), ?_, fun other hne => ?_,
      fun h => absurd h hskip, fun _ => ⟨steps_act_iff, fun v => act_step_of_not_isNumeric⟩⟩
    · rw [hread, exec_action htime]
    · simp only [act, updated]
      split
      · rfl
      · split
        · exact m.env.get?_set_of_ne _ hne
        · rfl

/-- The greatest integer of 32 bits wraps around. -/
theorem exec_increment_greatest :
    ∃ env, exec (Statement.read ⟨"n++".toList, 1⟩)
        ⟨⟨[("n", .int 2147483647)]⟩, .empty 9, ⟨9, 9, 9⟩⟩ =
          .ok () ⟨env, .empty 9, ⟨9, 9, 9⟩⟩ ∧
      env.get? "n" = some (.int (-2147483648)) := by
  obtain ⟨env, hexec, -, -, hsteps⟩ := exec_increment (x := ['n'])
    (m := ⟨⟨[("n", .int 2147483647)]⟩, .empty 9, ⟨9, 9, 9⟩⟩) (by decide) (by decide) true false 1
  refine ⟨env, hexec, ?_⟩
  have hbound {v : Value}
      (hv : Environment.get? ⟨[("n", .int 2147483647)]⟩ "n" = some v) :
      v = Width.int.value 2147483647 := (Option.some.inj hv).symm
  have hlaw := (hsteps (by decide)).1.2 fun v hv => by
    rw [hbound hv]
    rfl
  cases hlaw with
  | @integer w a n ha hget hn hmod =>
    cases w with
    | long => cases hbound hget
    | int =>
      have hcurrent : a ≡ 2147483647 [ZMOD 2 ^ Width.int.bits] :=
        Width.value_eq_iff.1 (hbound hget)
      have hbits : (2 : Int) ^ Width.int.bits = 4294967296 := by decide
      have hrange : -2147483648 ≤ n ∧ n < 2147483648 := hn
      have hdelta : stepInt true = 1 := rfl
      rw [hbits, Int.ModEq] at hcurrent hmod
      obtain rfl : n = -2147483648 := by omega
      exact Environment.get?_set_self _ _ _
  | double hget => cases hbound hget
  | unchanged h => cases h _ rfl

end Run

end SnippetRunner
