import Mathlib
import SnippetRunner.Expr.Eval

/-!
# Integers wrap around

Integers are computed in one of two widths (`Width`). An expression that is made of integers of one
width by `+`, `-` and `*` has an exact value among all integers (`Expr.IsInteger`), however far
beyond the width its parts may lead.

* The numbers of a width are those modulo a power of two (`Width.value_eq_iff`), and the operators
  are defined on these (`Width.unary_value`, `Width.binary_value`). So an expression has the value
  that its exact value stands for (`Expr.reduce_of_isInteger`): where the parts wrap around does no
  harm.
* Division truncates toward zero (`Width.binary_value_of_truncated`), and the quotient wraps around
  where it leaves the range (`Width.isDivision_wrap`).

Both together are `Expr.computes_modulo`.
-/

namespace SnippetRunner

/-- The widths of integers. -/
inductive Width
  /-- 32 bits. -/
  | int
  /-- 64 bits. -/
  | long
  deriving DecidableEq, Repr

/-- What an operator before an operand does to all integers. -/
def UnaryOp.onIntegers? : UnaryOp → Option (Int → Int)
  | neg => some fun n => -n
  | plus => some fun n => n
  | not => none

/-- What an operator between operands does to all integers, if it divides nothing. -/
def BinaryOp.onIntegers? : BinaryOp → Option (Int → Int → Int)
  | add => some fun m n => m + n
  | sub => some fun m n => m - n
  | mul => some fun m n => m * n
  | _ => none

/-- What an operator that divides does to all integers. -/
def BinaryOp.truncated? : BinaryOp → Option (Int → Int → Int)
  | div => some Int.tdiv
  | rem => some Int.tmod
  | _ => none

/-- The quotient and the remainder of two integers, the quotient modulo a power of two. -/
structure IsDivision (bits : Nat) (a b q r : Int) : Prop where
  modEq : a ≡ q * b + r [ZMOD 2 ^ bits]
  abs_lt : |r| < |b|
  sign : r = 0 ∨ r.sign = a.sign

namespace Width

/-- The number of bits of an integer. -/
def bits : Width → Nat
  | int => 32
  | long => 64

/-- Whether an integer lies within the range of the width. -/
def Holds (w : Width) (n : Int) : Prop := -2 ^ (w.bits - 1) ≤ n ∧ n < 2 ^ (w.bits - 1)

instance (w : Width) (n : Int) : Decidable (w.Holds n) :=
  inferInstanceAs (Decidable (_ ∧ _))

/-- The value that has the lowest bits of an integer. -/
def value : Width → Int → Value
  | int, n => .int (Int32.ofInt n)
  | long, n => .long (Int64.ofInt n)

/-- The literal of an integer. -/
def literal : Width → Int → Literal
  | int, n => .int n
  | long, n => .long n

/-- The integer within the range that has the lowest bits of an integer. -/
def wrap (w : Width) (n : Int) : Int := n.bmod (2 ^ w.bits)

theorem holds_wrap (w : Width) (n : Int) : w.Holds (w.wrap n) := by
  have hlow := Int.le_bmod (x := n) (m := 2 ^ w.bits) (by positivity)
  have hhigh := Int.bmod_lt (x := n) (m := 2 ^ w.bits) (by positivity)
  cases w <;> exact ⟨hlow, hhigh⟩

theorem wrap_modEq (w : Width) (n : Int) : w.wrap n ≡ n [ZMOD 2 ^ w.bits] := by
  have hmod := Int.bmod_emod (x := n) (m := 2 ^ w.bits)
  rwa [Nat.cast_pow, Nat.cast_ofNat] at hmod

theorem wrap_eq_self {w : Width} {n : Int} (h : w.Holds n) : w.wrap n = n := by
  cases w <;> exact Int.bmod_eq_of_le h.1 h.2

theorem wrap_eq_wrap_iff {w : Width} {m n : Int} :
    w.wrap m = w.wrap n ↔ m ≡ n [ZMOD 2 ^ w.bits] := by
  constructor
  · intro h
    exact (w.wrap_modEq m).symm.trans (h ▸ w.wrap_modEq n)
  · intro h
    have hmod : m % ((2 ^ w.bits : Nat) : Int) = n % ((2 ^ w.bits : Nat) : Int) := by
      rwa [Nat.cast_pow, Nat.cast_ofNat]
    rw [wrap, wrap, Int.bmod_def, Int.bmod_def, hmod]

/-- **Two integers have one value if they agree modulo a power of two.** -/
theorem value_eq_iff {w : Width} {m n : Int} :
    w.value m = w.value n ↔ m ≡ n [ZMOD 2 ^ w.bits] := by
  rw [← wrap_eq_wrap_iff]
  cases w with
  | int =>
    rw [value, value, Value.int.injEq, Int32.ofInt_eq_iff_bmod_eq_toInt, Int32.toInt_ofInt]
    rfl
  | long =>
    rw [value, value, Value.long.injEq, Int64.ofInt_eq_iff_bmod_eq_toInt, Int64.toInt_ofInt]
    rfl

theorem value_wrap (w : Width) (n : Int) : w.value (w.wrap n) = w.value n :=
  value_eq_iff.2 (w.wrap_modEq n)

theorem literalValue?_literal {w : Width} {n : Int} (h : w.Holds n) :
    Expr.literalValue? (w.literal n) = some (w.value n) := by
  cases w with
  | int =>
    have hrange : -0x80000000 ≤ n ∧ n < 0x80000000 := h
    rw [literal, Expr.literalValue?, Expr.intLiteral, if_pos hrange, value]
  | long => rfl

/-! ## Operators -/

/-- **Prefix operators are defined modulo a power of two.** -/
theorem unary_value (w : Width) {op : UnaryOp} {f : Int → Int} (hop : op.onIntegers? = some f)
    (n : Int) : Value.unary op (w.value n) = some (w.value (f n)) := by
  cases op with
  | neg =>
    obtain rfl := Option.some.inj hop
    cases w with
    | int => exact congrArg (some ∘ Value.int) (Int32.ofInt_neg n).symm
    | long => exact congrArg (some ∘ Value.long) (Int64.ofInt_neg n).symm
  | plus =>
    obtain rfl := Option.some.inj hop
    cases w <;> rfl
  | not => simp [UnaryOp.onIntegers?] at hop

/-- **Operators that divide nothing are defined modulo a power of two.** -/
theorem binary_value (w : Width) {op : BinaryOp} {f : Int → Int → Int}
    (hop : op.onIntegers? = some f) (m n : Int) :
    Value.binary op (w.value m) (w.value n) = some (w.value (f m n)) := by
  cases op <;> simp only [BinaryOp.onIntegers?, Option.some.injEq, reduceCtorEq] at hop <;>
    subst hop <;> cases w
  case add.int => exact congrArg (some ∘ Value.int) (Int32.ofInt_add m n).symm
  case add.long => exact congrArg (some ∘ Value.long) (Int64.ofInt_add m n).symm
  case sub.int => exact congrArg (some ∘ Value.int) (Int32.ofInt_sub m n).symm
  case sub.long => exact congrArg (some ∘ Value.long) (Int64.ofInt_sub m n).symm
  case mul.int => exact congrArg (some ∘ Value.int) (Int32.ofInt_mul m n).symm
  case mul.long => exact congrArg (some ∘ Value.long) (Int64.ofInt_mul m n).symm

/-! ## Division -/

section Division

variable {w : Width} {a b : Int}

/-- An integer within the range is read as zero only if it is zero. -/
theorem value_ne_value_zero (hb : w.Holds b) (hne : b ≠ 0) : w.value b ≠ w.value 0 := by
  intro h
  have hwrap := wrap_eq_wrap_iff.2 (value_eq_iff.1 h)
  rw [wrap_eq_self hb, wrap_eq_self (by cases w <;> decide)] at hwrap
  exact hne hwrap

/-- **Division truncates toward zero.** -/
theorem binary_value_of_truncated {op : BinaryOp} {f : Int → Int → Int}
    (hop : op.truncated? = some f) (ha : w.Holds a) (hb : w.Holds b) (hne : b ≠ 0) :
    Value.binary op (w.value a) (w.value b) = some (w.value (f a b)) := by
  have hzero := value_ne_value_zero hb hne
  cases w with
  | int =>
    have ha' : a ≤ Int32.maxValue.toInt := Int.le_of_lt_add_one ha.2
    have hb' : b ≤ Int32.maxValue.toInt := Int.le_of_lt_add_one hb.2
    have hdivisor : Int32.ofInt b ≠ 0 := fun h => hzero (congrArg Value.int h)
    have hquotient := Int32.ofInt_tdiv ha.1 ha' hb.1 hb'
    have hremainder := Int32.ofInt_tmod ha.1 ha' hb.1 hb'
    cases op <;> simp only [BinaryOp.truncated?, Option.some.injEq, reduceCtorEq] at hop <;>
      subst hop <;>
      simp [value, hquotient, hremainder, Value.binary, Value.arithmetic, Value.arithmetic32,
        hdivisor]
  | long =>
    have ha' : a ≤ Int64.maxValue.toInt := Int.le_of_lt_add_one ha.2
    have hb' : b ≤ Int64.maxValue.toInt := Int.le_of_lt_add_one hb.2
    have hdivisor : Int64.ofInt b ≠ 0 := fun h => hzero (congrArg Value.long h)
    have hquotient := Int64.ofInt_tdiv ha.1 ha' hb.1 hb'
    have hremainder := Int64.ofInt_tmod ha.1 ha' hb.1 hb'
    cases op <;> simp only [BinaryOp.truncated?, Option.some.injEq, reduceCtorEq] at hop <;>
      subst hop <;>
      simp [value, hquotient, hremainder, Value.binary, Value.arithmetic, Value.arithmetic64,
        Value.asLong?, hdivisor]

theorem abs_tmod_lt (hne : b ≠ 0) : |a.tmod b| < |b| := by
  rw [Int.abs_eq_natAbs, Int.abs_eq_natAbs, Int.natAbs_tmod]
  exact_mod_cast Nat.mod_lt _ (Int.natAbs_pos.2 hne)

/-- The truncated quotient, wrapped around, and the remainder. -/
theorem isDivision_wrap (hne : b ≠ 0) :
    IsDivision w.bits a b (w.wrap (a.tdiv b)) (a.tmod b) := by
  refine ⟨?_, abs_tmod_lt hne, ?_⟩
  · calc
      a ≡ a.tdiv b * b + a.tmod b [ZMOD 2 ^ w.bits] := by rw [Int.tdiv_mul_add_tmod]
      _ ≡ w.wrap (a.tdiv b) * b + a.tmod b [ZMOD 2 ^ w.bits] :=
        ((w.wrap_modEq (a.tdiv b)).symm.mul_right b).add_right _
  · by_cases hdvd : b ∣ a
    · exact .inl (Int.tmod_eq_zero_of_dvd hdvd)
    · exact .inr (by rw [Int.sign_tmod, if_neg hdvd])

theorem holds_tmod (hb : w.Holds b) (hne : b ≠ 0) : w.Holds (a.tmod b) := by
  have hlt := abs_lt.1 (abs_tmod_lt (a := a) hne)
  have hbound : |b| ≤ 2 ^ (w.bits - 1) := abs_le.2 ⟨hb.1, hb.2.le⟩
  exact ⟨by omega, by omega⟩

end Division

end Width

/-! ## Expressions -/

namespace Expr

/-- `e.IsInteger w env n`: the expression is made of integers of the width by signs, `+`, `-` and
`*`, and `n` is its value among all integers. Parentheses leave no trace in a tree but in the places
of its nodes. -/
inductive IsInteger (w : Width) (env : Environment) : Expr → Int → Prop
  | literal {n : Int} (s : Span) : w.Holds n → IsInteger w env (.literal (w.literal n) s) n
  /-- The literal whose negation alone lies within the range. -/
  | least (s t : Span) : w = .int →
      IsInteger w env (.unary .neg (.literal (.int (2 ^ 31)) s) t) (-2 ^ 31)
  | ident {name : String} {n : Int} (s : Span) : w.Holds n → env.get? name = some (w.value n) →
      IsInteger w env (.ident name s) n
  | unary {op : UnaryOp} {f : Int → Int} {e : Expr} {n : Int} (s : Span) :
      op.onIntegers? = some f → IsInteger w env e n → IsInteger w env (.unary op e s) (f n)
  | binary {op : BinaryOp} {f : Int → Int → Int} {a b : Expr} {m n : Int} (s : Span) :
      op.onIntegers? = some f → IsInteger w env a m → IsInteger w env b n →
        IsInteger w env (.binary op a b s) (f m n)

variable {w : Width} {env : Environment} {source : List Char} {e a b : Expr} {n : Int}

/-- The one literal beyond the range of its width is no integer expression by itself. -/
theorem IsInteger.isLeastMagnitude_eq (h : IsInteger w env e n) : e.isLeastMagnitude = false := by
  cases h with
  | literal s hn =>
    cases w with
    | int =>
      have hlt : n < 0x80000000 := hn.2
      exact decide_eq_false (by omega)
    | long => rfl
  | _ => rfl

/-- A prefix operator on an operand that can be computed. -/
theorem reduce_unary {op : UnaryOp} {v : Value} (s : Span) (he : e.isLeastMagnitude = false)
    (hv : e.reduce source env = some v) :
    (unary op e s).reduce source env = Value.unary op v := by
  rw [reduce, if_neg (by simp [he]), hv, Option.bind_some]

/-- An operator between operands that can be computed. -/
theorem reduce_binary {op : BinaryOp} {u v : Value} (s : Span) (ha : a.reduce source env = some u)
    (hb : b.reduce source env = some v) :
    (binary op a b s).reduce source env = Value.binary op u v := by
  cases op with
  | and =>
    cases u with
    | bool c => cases c <;> simp [reduce, ha, hb, Value.binary, Value.asBool?]
    | _ => simp [reduce, ha, Value.binary, Value.asBool?]
  | or =>
    cases u with
    | bool c => cases c <;> simp [reduce, ha, hb, Value.binary, Value.asBool?]
    | _ => simp [reduce, ha, Value.binary, Value.asBool?]
  | _ => simp [reduce, ha, hb]

/-- **An integer expression has the value that its exact value stands for.** -/
theorem reduce_of_isInteger (h : IsInteger w env e n) :
    e.reduce source env = some (w.value n) := by
  induction h with
  | literal s hn => rw [reduce, Width.literalValue?_literal hn]
  | least s t hw =>
    subst hw
    rfl
  | ident s hn hget => rw [reduce, hget]
  | unary s hop he ih => rw [reduce_unary s he.isLeastMagnitude_eq ih, w.unary_value hop]
  | binary s hop ha hb iha ihb => rw [reduce_binary s iha ihb, w.binary_value hop]

end Expr

/-- A text that is read as an expression has the value of the expression. -/
theorem evaluate_of_parse {cs : List Char} {e : Expr} (h : Expr.parse (Text.trim cs) = .ok e)
    (env : Environment) : evaluate cs env = e.value (Text.trim cs) env := by
  rw [evaluate, Operand.value, Operand.ofText]
  simp only [h, Except.toOption]

/-- **Integer expressions are computed modulo a power of two.** The value is the integer of the
width that agrees with the exact value; quotient and remainder are those of a division that gives
the remainder the sign of the dividend. -/
theorem Expr.computes_modulo (w : Width) (env : Environment) :
    (∀ e n, IsInteger w env e n → ∃ v, w.Holds v ∧ v ≡ n [ZMOD 2 ^ w.bits] ∧
      (∀ source, e.value source env = w.value v) ∧
      ∀ cs, Expr.parse (Text.trim cs) = .ok e → evaluate cs env = w.value v) ∧
    ∀ x y a b source s, w.Holds a → w.Holds b → b ≠ 0 →
      x.reduce source env = some (w.value a) → y.reduce source env = some (w.value b) →
        ∃ q r, w.Holds q ∧ w.Holds r ∧ IsDivision w.bits a b q r ∧
          (binary .div x y s).value source env = w.value q ∧
          (binary .rem x y s).value source env = w.value r := by
  refine ⟨fun e n h => ?_, fun x y a b source s ha hb hne hx hy => ?_⟩
  · have hvalue (source : List Char) : e.value source env = w.value (w.wrap n) := by
      rw [Expr.value, reduce_of_isInteger h, w.value_wrap]
      rfl
    exact ⟨w.wrap n, w.holds_wrap n, w.wrap_modEq n, hvalue,
      fun cs hparse => (evaluate_of_parse hparse env).trans (hvalue _)⟩
  · refine ⟨w.wrap (a.tdiv b), a.tmod b, w.holds_wrap _, Width.holds_tmod hb hne,
      Width.isDivision_wrap hne, ?_, ?_⟩
    · rw [Expr.value, reduce_binary s hx hy, Width.binary_value_of_truncated rfl ha hb hne,
        w.value_wrap]
      rfl
    · rw [Expr.value, reduce_binary s hx hy, Width.binary_value_of_truncated rfl ha hb hne]
      rfl

namespace Expr

/-- A variable that holds 7. -/
def sevenBound : Environment := ⟨[("x", .int 7)]⟩

/-- An expression whose exact value is -4294967314. -/
def beyondRange : List Char := "-(x + 2147483647) * 3 - -2147483648".toList

/-- It has the value -18, and the least integer divided by -1 is the least integer. -/
theorem computes_modulo_beyondRange :
    (∃ e, Expr.parse (Text.trim beyondRange) = .ok e ∧
      IsInteger .int sevenBound e (-4294967314) ∧ evaluate beyondRange sevenBound = .int (-18)) ∧
    (binary .div (unary .neg (literal (.int (2 ^ 31)) default) default)
      (literal (.int (-1)) default) default).value [] sevenBound = .int Int32.minValue := by
  obtain ⟨hring, hdivision⟩ := computes_modulo .int sevenBound
  constructor
  · obtain ⟨e, hparse, hinteger⟩ : ∃ e, Expr.parse (Text.trim beyondRange) = .ok e ∧
        IsInteger .int sevenBound e (-4294967314) := by
      have hx : sevenBound.get? "x" = some (Width.int.value 7) := rfl
      refine ⟨_, by cbv, ?_⟩
      change IsInteger .int sevenBound _ (-(7 + 2147483647) * 3 - -2 ^ 31)
      exact .binary _ rfl (.binary _ rfl (.unary _ rfl (.binary _ rfl
        (.ident _ (by decide) hx) (.literal (n := 2147483647) _ (by decide))))
        (.literal (n := 3) _ (by decide))) (.least _ _ rfl)
    obtain ⟨v, hv, hmod, -, hread⟩ := hring e _ hinteger
    have hsame : v = -18 := by
      rw [← Width.wrap_eq_self hv, Width.wrap_eq_wrap_iff.2 hmod]
      decide
    exact ⟨e, hparse, hinteger, by rw [hread _ hparse, hsame]; rfl⟩
  · obtain ⟨q, r, hq, -, hdiv, hvalue, -⟩ := hdivision
      (unary .neg (literal (.int (2 ^ 31)) default) default) (literal (.int (-1)) default)
      (-2 ^ 31) (-1) [] default (by decide) (by decide) (by decide) rfl rfl
    have hsmall : r = 0 := Int.abs_lt_one_iff.1 hdiv.abs_lt
    have hquotient : q = -2 ^ 31 := by
      have hmod : q ≡ 2 ^ 31 [ZMOD 2 ^ 32] := by
        have hneg := hdiv.modEq.neg
        rw [hsmall, mul_neg_one, add_zero, neg_neg, neg_neg] at hneg
        exact hneg.symm
      rw [← Width.wrap_eq_self hq, Width.wrap_eq_wrap_iff (w := .int) |>.2 hmod]
      decide
    rw [hvalue, hquotient]
    rfl

end Expr

end SnippetRunner
