import SnippetRunner.Proofs.Arithmetic
import SnippetRunner.Proofs.Derivations
import SnippetRunner.Proofs.Spelling

/-!
# Integers as they are written

An integer is written as a sign, if it is negative, and decimal digits with any number of
separators between them (`IsDecimal`); a long one has a suffix (`Width.suffix`).

What is written so has the integer as its value (`evaluate_decimal`), up to one exception. The sign
is an operator, so a negative integer is read as a negation, and what is negated has to be a literal
by itself. The greatest literal is `9223372036854775807`: it leaves room for the least integer of 32
bits (`Expr.IsInteger.least`) and none for the least one of 64.
-/

namespace SnippetRunner

open Text Lexer ExprParser

/-! ## Writing -/

/-- Digits with any number of separators behind each of them but the last. -/
inductive Separated : List Char → List Char → Prop
  | last (d : Char) : Separated [d] [d]
  | cons (d : Char) (k : Nat) {ds run : List Char} : Separated ds run →
      Separated (d :: ds) (d :: (List.replicate k '_' ++ run))

/-- The texts that an integer is written as. -/
inductive IsDecimal : Int → List Char → Prop
  | nonneg {n : Nat} {run : List Char} : Separated (Nat.toDigits 10 n) run → IsDecimal n run
  | neg {n : Nat} {run : List Char} : n ≠ 0 → Separated (Nat.toDigits 10 n) run →
      IsDecimal (-n) ('-' :: run)

/-- What stands behind the digits of an integer. -/
def Width.suffix (w : Width) : List Char := longSuffix (w = .long)

/-! ## Digits -/

/-- Digits without separators. -/
theorem separated_self {ds : List Char} (h : ds ≠ []) : Separated ds ds := by
  induction ds with
  | nil => exact absurd rfl h
  | cons d ds ih =>
    cases ds with
    | nil => exact .last d
    | cons d' ds => exact .cons d 0 (ih (by simp))

namespace Separated

variable {ds run : List Char}

theorem exists_cons (h : Separated ds run) (hds : ∀ c ∈ ds, c.isDigit = true) :
    ∃ d tail, run = d :: tail ∧ d.isDigit = true ∧
      (∀ c ∈ tail, c.isDigit = true ∨ c = '_') ∧ d :: digitsOnly tail = ds := by
  induction h with
  | last d => exact ⟨d, [], rfl, hds d List.mem_cons_self, nofun, rfl⟩
  | @cons d k ds run _ ih =>
    obtain ⟨d', tail, rfl, hd', htail, rfl⟩ := ih fun c hc => hds c (List.mem_cons_of_mem d hc)
    refine ⟨d, _, rfl, hds d List.mem_cons_self, fun c hc => ?_, ?_⟩
    · rcases List.mem_append.1 hc with hc | hc
      · exact .inr (List.eq_of_mem_replicate hc)
      · rcases List.mem_cons.1 hc with rfl | hc
        exacts [.inl hd', htail c hc]
    · have hne : d' ≠ '_' := by
        rintro rfl
        exact absurd hd' (by decide)
      simp [digitsOnly, hne]

theorem getLast?_eq (h : Separated ds run) : run.getLast? = ds.getLast? := by
  induction h with
  | last => rfl
  | @cons d k ds run h ih =>
    obtain ⟨c, hc⟩ : ∃ c, run.getLast? = some c := by
      cases h <;> exact ⟨_, List.getLast?_eq_some_getLast (List.cons_ne_nil _ _)⟩
    rw [List.getLast?_cons, List.getLast?_cons, List.getLast?_append, hc, Option.some_or, ← ih, hc]

end Separated

/-- Digits with separators are a numeral of one token if they spell at most 63 bits. -/
theorem exists_step_of_separated (w : Width) {n : Nat} {run : List Char}
    (h : Separated (Nat.toDigits 10 n) run) :
    ∃ d tail, run = d :: tail ∧ d.isDigit = true ∧
      (∀ c ∈ (d :: tail ++ w.suffix).getLast?, isSpace c = false) ∧
      step d (tail ++ w.suffix) =
        if n < 2 ^ 63 then .token (integerToken (w = .long) n) (tail ++ w.suffix).length
        else .fault (.invalidInteger (String.ofList (Nat.toDigits 10 n)))
          (tail ++ w.suffix).length := by
  have hdigits {c : Char} (hc : c ∈ Nat.toDigits 10 n) : c.isDigit = true :=
    Nat.isDigit_of_mem_toDigits (by decide) (by decide) hc
  obtain ⟨d, tail, rfl, hd, htail, hds⟩ := h.exists_cons fun c hc => hdigits hc
  have hvalue : Decimal.digitsValue 10 (d :: digitsOnly tail) = n := by
    rw [hds]
    exact Decimal.digitsValue_toDigits (by decide) (by decide) n
  refine ⟨d, tail, rfl, hd, fun c hc => isSpace_of_isIdentPart ?_, ?_⟩
  · rw [List.getLast?_append, h.getLast?_eq] at hc
    cases w with
    | int => exact isIdentPart_of_isDigit (hdigits (List.mem_of_getLast? hc))
    | long =>
      obtain rfl : 'L' = c := Option.some.inj hc
      decide
  · rw [step_of_isDigit hd, Width.suffix, number_of_run htail hvalue, hds]
    split <;> rfl

/-- A minus in front of a digit is a sign of its own. -/
theorem step_minus {d : Char} (hd : d.isDigit = true) (cs : List Char) :
    step '-' (d :: cs) = .token (.sign .minus) 0 := by
  have hall : ∀ d ∈ numerals, step '-' (d :: cs) = .token (.sign .minus) 0 := by
    simp only [numerals, List.forall_mem_cons]
    and_intros <;> first | rfl | exact nofun
  exact hall d (mem_numerals (by simp [isHexDigit, hd]))

/-! ## Reading -/

/-- A numeral is read as its literal. -/
theorem derives_integer (w : Width) {n : Nat} (span : Span) :
    Derives (.expr 9 (.literal (w.literal n) span)) [⟨integerToken (w = .long) n, span⟩] :=
  .literal (t := ⟨integerToken (w = .long) n, span⟩) (by cases w <;> rfl)

variable {w : Width} {n : Int} {cs : List Char}

/-- The characters that an integer is written with. -/
theorem IsDecimal.isWordChar_eq (h : IsDecimal n cs) : ∀ c ∈ cs, isWordChar c = true := by
  have hrun {n : Nat} {run : List Char} (h : Separated (Nat.toDigits 10 n) run) :
      ∀ c ∈ run, isWordChar c = true := by
    obtain ⟨d, tail, rfl, hd, htail, -⟩ := h.exists_cons fun c hc =>
      Nat.isDigit_of_mem_toDigits (by decide) (by decide) hc
    have hdigit {c : Char} (hc : c.isDigit = true) : isWordChar c = true :=
      isWordChar_of_isIdentPart (isIdentPart_of_isDigit hc)
    refine List.forall_mem_cons.2 ⟨hdigit hd, fun c hc => ?_⟩
    obtain hc | rfl := htail c hc
    · exact hdigit hc
    · decide
  cases h with
  | nonneg h => exact hrun h
  | neg _ h => exact List.forall_mem_cons.2 ⟨by decide, hrun h⟩

theorem IsDecimal.ne_nil (h : IsDecimal n cs) : cs ≠ [] := by
  cases h with
  | nonneg h =>
    obtain ⟨d, tail, rfl, -⟩ := exists_step_of_separated .int h
    exact List.cons_ne_nil _ _
  | neg => exact List.cons_ne_nil _ _

/-- What an integer is written as is a text without white space around it. -/
theorem IsDecimal.trim_eq (h : IsDecimal n cs) (w : Width) :
    trim (cs ++ w.suffix) = cs ++ w.suffix := by
  cases h with
  | nonneg hrun =>
    obtain ⟨d, tail, rfl, hd, hlast, -⟩ := exists_step_of_separated w hrun
    refine trim_eq_self ?_ hlast
    rintro _ ⟨⟩
    exact isSpace_of_isIdentPart (isIdentPart_of_isDigit hd)
  | neg hpos hrun =>
    obtain ⟨d, tail, rfl, hd, hlast, -⟩ := exists_step_of_separated w hrun
    refine trim_eq_self ?_ ?_
    · rintro _ ⟨⟩
      decide
    · rwa [List.cons_append, List.cons_append, List.getLast?_cons_cons]

/-- A text whose tokens the grammar derives is read as the expression. -/
theorem parse_of_cuts {ps : List Piece} {e : Expr} (hcuts : Cuts cs ps [])
    (hderives : Derives (.expr 0 e) (place .start ps)) : Expr.parse cs = .ok e := by
  rw [Expr.parse, lex_of_cuts hcuts]
  exact whole_of_derives hderives

/-- **What an integer is written as is an integer expression with this value**, wherever it
stands, the least integer of 64 bits aside. -/
theorem IsDecimal.exists_derives (h : IsDecimal n cs) (hn : w.Holds n)
    (hleast : ¬(w = .long ∧ n = -2 ^ 63)) (env : Environment) (p : Position) :
    ∃ ps e, Cuts (cs ++ w.suffix) ps [] ∧ Derives (.expr 7 e) (place p ps) ∧
      e.IsInteger w env n := by
  have hrange : -2 ^ 63 < n ∧ n < 2 ^ 63 := by
    cases w with
    | int =>
      have hint : -2 ^ 31 ≤ n ∧ n < 2 ^ 31 := hn
      omega
    | long =>
      have hlong : -2 ^ 63 ≤ n ∧ n < 2 ^ 63 := hn
      have hne : n ≠ -2 ^ 63 := fun h => hleast ⟨rfl, h⟩
      omega
  cases h with
  | @nonneg n run hrun =>
    obtain ⟨d, tail, rfl, -, -, hstep⟩ := exists_step_of_separated w hrun
    rw [if_pos (by omega)] at hstep
    have hcuts : Cuts (d :: (tail ++ w.suffix) ++ []) [⟨d :: (tail ++ w.suffix), some _⟩] [] :=
      .token (by rwa [List.append_nil]) (.nil [])
    rw [List.append_nil] at hcuts
    exact ⟨_, _, hcuts, (derives_integer w _).mono (by decide) (by decide), .literal _ hn⟩
  | @neg n run hpos hrun =>
    obtain ⟨d, tail, rfl, hd, -, hstep⟩ := exists_step_of_separated w hrun
    rw [if_pos (by omega)] at hstep
    have hcuts : Cuts (['-'] ++ (d :: (tail ++ w.suffix) ++ []))
        [⟨['-'], some (.sign .minus)⟩, ⟨d :: (tail ++ w.suffix), some _⟩] [] :=
      .token (u := []) (step_minus hd _) (.token (by rwa [List.append_nil]) (.nil []))
    rw [List.append_nil] at hcuts
    refine ⟨_, _, hcuts,
      .unary _ rfl ((derives_integer w _).mono (by decide) (by decide)), ?_⟩
    by_cases hliteral : w.Holds n
    · exact .unary _ rfl (.literal _ hliteral)
    · -- the literal is beyond its range, so its negation is the least integer of 32 bits
      cases w with
      | int =>
        have hlow : -2 ^ 31 ≤ -(n : Int) := hn.1
        have hhigh : ¬((-2 ^ 31 ≤ (n : Int)) ∧ (n : Int) < 2 ^ 31) := hliteral
        have hn : n = 2 ^ 31 := by omega
        subst hn
        exact .least _ _ rfl
      | long =>
        have hrange : -2 ^ 63 ≤ (n : Int) ∧ (n : Int) < 2 ^ 63 := ⟨by omega, by omega⟩
        exact absurd hrange hliteral

theorem IsDecimal.exists_parse (h : IsDecimal n cs) (hn : w.Holds n)
    (hleast : ¬(w = .long ∧ n = -2 ^ 63)) (env : Environment) :
    ∃ e, Expr.parse (cs ++ w.suffix) = .ok e ∧ e.IsInteger w env n := by
  obtain ⟨ps, e, hcuts, hderives, hinteger⟩ := h.exists_derives hn hleast env .start
  exact ⟨e, parse_of_cuts hcuts (hderives.mono (by decide) (by decide)), hinteger⟩

/-- What the least integer of 64 bits is written as is no expression. -/
theorem IsDecimal.exists_error (h : IsDecimal (-2 ^ 63) cs) :
    ∃ e, Expr.parse (cs ++ Width.long.suffix) = .error e := by
  generalize hm : (-2 ^ 63 : Int) = m at h
  cases h with
  | nonneg => omega
  | @neg n run hpos hrun =>
    obtain ⟨d, tail, rfl, hd, -, hstep⟩ := exists_step_of_separated .long hrun
    rw [if_neg (by omega)] at hstep
    have hlex : ∃ e, lex ('-' :: (d :: tail ++ Width.long.suffix)) = .error e := by
      rw [lex, lexFrom_cons, List.cons_append, step_minus hd]
      simp only [List.take_zero, List.drop_zero]
      rw [lexFrom_cons, hstep]
      exact ⟨_, rfl⟩
    obtain ⟨e, he⟩ := hlex
    exact ⟨_, by rw [List.cons_append, Expr.parse, he]⟩

/-- **What an integer is written as has the integer as its value**, with separators anywhere between
its digits. Only the least integer of 64 bits is taken for a text, since its digits are no literal
without the sign. -/
theorem evaluate_decimal (w : Width) (env : Environment) (hn : w.Holds n) (h : IsDecimal n cs) :
    evaluate (cs ++ w.suffix) env =
      if w = .long ∧ n = -2 ^ 63 then .text (String.ofList (cs ++ w.suffix)) else w.value n := by
  have htrim := h.trim_eq w
  split
  · next hleast =>
    obtain ⟨rfl, rfl⟩ := hleast
    obtain ⟨e, hparse⟩ := h.exists_error
    rw [evaluate, Operand.value, Operand.ofText]
    simp only [htrim, hparse, Except.toOption]
  · next hleast =>
    obtain ⟨e, hparse, hinteger⟩ := h.exists_parse hn hleast env
    rw [← htrim] at hparse
    rw [evaluate_of_parse hparse, Expr.value, Expr.reduce_of_isInteger hinteger, Option.getD_some]

/-- The least integer of 32 bits, with separators, has its value; that of 64 bits is a text. -/
theorem evaluate_decimal_leastIntegers :
    evaluate "-2_147__483_648".toList .empty = .int Int32.minValue ∧
      evaluate "-9223372036854775808L".toList .empty = .text "-9223372036854775808L" := by
  have hint : IsDecimal (-2 ^ 31) "-2_147__483_648".toList :=
    .neg (n := 2 ^ 31) (by decide) (.cons '2' 1 (.cons '1' 0 (.cons '4' 0 (.cons '7' 2
      (.cons '4' 0 (.cons '8' 0 (.cons '3' 1 (.cons '6' 0 (.cons '4' 0 (.last '8'))))))))))
  have hlong : IsDecimal (-2 ^ 63) "-9223372036854775808".toList :=
    .neg (n := 2 ^ 63) (by decide) (separated_self (by decide))
  exact ⟨evaluate_decimal .int .empty (by decide) hint,
    evaluate_decimal .long .empty (by decide) hlong⟩

end SnippetRunner
