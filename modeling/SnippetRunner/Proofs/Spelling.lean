import Mathlib.Algebra.Group.Int.Defs
import Mathlib.Algebra.Group.Nat.Defs
import Mathlib.Data.List.Forall2
import Mathlib.Data.List.TakeWhile
import SnippetRunner.Proofs.Classes
import SnippetRunner.Proofs.CodeWords
import SnippetRunner.Proofs.Literals

/-!
# Spelling tokens

A spelling of each token (`Token.spelling`), doubles aside, and of several tokens with single spaces
between them (`spaced`). The lexer reads it back (`readsAs_spelling`, `exists_cuts_spaced`).

Not every token has a spelling: an integer is one only within the ranges that decimal and
hexadecimal literals have, and a name has to be an identifier. These are just the tokens that texts
are made of (`Lexer.isSpelled_of_step`).
-/

namespace SnippetRunner

open Text Lexer Scan

/-! ## Digits -/

namespace Decimal

theorem digitsValue_concat (base : Nat) (cs : List Char) (c : Char) :
    digitsValue base (cs ++ [c]) = digitsValue base cs * base + digitValue c := by
  simp [digitsValue]

theorem digitValue_digitChar {n : Nat} (h : n < 16) : digitValue n.digitChar = n := by
  revert n
  decide

/-- The digits of a number are read as that number. -/
theorem digitsValue_toDigits {base : Nat} (hbase : 1 < base) (hle : base ≤ 16) (n : Nat) :
    digitsValue base (Nat.toDigits base n) = n := by
  induction n using Nat.strongRecOn with
  | _ n ih =>
    rw [Nat.toDigits_eq_if hbase]
    split
    · next hlt =>
      rw [← List.nil_append [n.digitChar], digitsValue_concat, digitValue_digitChar (by omega)]
      simp [digitsValue]
    · next hge =>
      have hmod := Nat.mod_lt n (by omega : 0 < base)
      rw [digitsValue_concat, ih _ (Nat.div_lt_self (by omega) hbase),
        digitValue_digitChar (by omega)]
      exact Nat.div_add_mod' n base

theorem isHexDigit_of_mem_toDigits {n : Nat} {c : Char} (h : c ∈ Nat.toDigits 16 n) :
    isHexDigit c = true := by
  have hchar : ∀ k < 16, isHexDigit (Nat.digitChar k) = true := by decide
  induction n using Nat.strongRecOn with
  | _ n ih =>
    rw [Nat.toDigits_eq_if (by decide)] at h
    split at h
    · next hlt =>
      rw [List.mem_singleton] at h
      rw [h]
      exact hchar n hlt
    · rcases List.mem_append.1 h with h | h
      · exact ih _ (by omega) h
      · rw [List.mem_singleton] at h
        rw [h]
        exact hchar _ (Nat.mod_lt n (by decide))

end Decimal

/-! ## Numbers -/

namespace Lexer

theorem digitRun_append_of_forall {isDigit : Char → Bool} {run Z : List Char}
    (hrun : ∀ c ∈ run, isDigit c = true ∨ c = '_')
    (hZ : ∀ c ∈ Z.head?, isDigit c = false ∧ c ≠ '_') : digitRun isDigit (run ++ Z) = run := by
  rw [digitRun, List.takeWhile_append_of_pos (by simpa using hrun)]
  cases Z with
  | nil => simp
  | cons c Z => simp [hZ c rfl]

theorem digitsOnly_of_forall {isDigit : Char → Bool} (hbar : isDigit '_' = false) {ds : List Char}
    (hds : ∀ c ∈ ds, isDigit c = true) : digitsOnly ds = ds := by
  refine List.filter_eq_self.2 fun c hc => ?_
  have hne : c ≠ '_' := by
    rintro rfl
    rw [hds _ hc] at hbar
    exact Bool.noConfusion hbar
  simpa using hne

/-- The suffix of a long. -/
def longSuffix (long : Bool) : List Char := if long then ['L'] else []

/-- The token of an integer, long or not. -/
def integerToken (long : Bool) (n : Int) : Token := if long then .long n else .int n

/-- **Decimal digits with separators among them** are read as the number they spell, if it has at
most 63 bits. -/
theorem number_of_run {d : Char} {run : List Char} (hrun : ∀ c ∈ run, c.isDigit = true ∨ c = '_')
    {n : Nat} (hvalue : Decimal.digitsValue 10 (d :: digitsOnly run) = n) (long : Bool) :
    number d (run ++ longSuffix long) =
      if n < 2 ^ 63 then .ok (integerToken long n, (run ++ longSuffix long).length)
      else .error (.invalidInteger (String.ofList (d :: digitsOnly run)),
        (run ++ longSuffix long).length) := by
  have htaken : digitRun Char.isDigit (run ++ longSuffix long) = run :=
    digitRun_append_of_forall hrun (by cases long <;> simp [longSuffix])
  have hhex : hasSuffix ['x', 'X'] (run ++ longSuffix long) = false := by
    cases run with
    | nil => cases long <;> rfl
    | cons c run =>
      have hc := hrun c List.mem_cons_self
      rw [List.cons_append, hasSuffix, List.head?_cons, Option.any_some, Bool.eq_false_iff]
      intro hx
      have hletter : c = 'x' ∨ c = 'X' := by simpa using hx
      rcases hletter with rfl | rfl <;> exact absurd hc (by decide)
  rw [number, if_neg (by simp [hhex])]
  simp only [htaken, List.drop_left, hvalue]
  by_cases hsmall : n < 2 ^ 63
  · have hnot : ¬n ≥ 0x8000000000000000 := by omega
    rw [if_pos hsmall]
    cases long <;> simp [longSuffix, integerToken, fractionRun, exponentRun, hasSuffix, hnot]
  · have hlarge : n ≥ 0x8000000000000000 := by omega
    rw [if_neg hsmall]
    cases long <;> simp [longSuffix, fractionRun, exponentRun, hasSuffix, hlarge]

/-- Decimal digits are read as the number they spell. -/
theorem number_of_digits {d : Char} {ds : List Char} (hds : ∀ c ∈ ds, c.isDigit = true) {n : Nat}
    (hvalue : Decimal.digitsValue 10 (d :: ds) = n) (hn : n < 2 ^ 63) (long : Bool) :
    number d (ds ++ longSuffix long) =
      .ok (integerToken long n, (ds ++ longSuffix long).length) := by
  rw [← digitsOnly_of_forall (by decide) hds] at hvalue
  rw [number_of_run (fun c hc => .inl (hds c hc)) hvalue, if_pos hn]

/-- Hexadecimal digits are read as the pattern of bits they spell. -/
theorem number_of_hexDigits {hs : List Char} (hne : hs ≠ []) (hhs : ∀ c ∈ hs, isHexDigit c = true)
    {n : Nat} (hvalue : Decimal.digitsValue 16 hs = n) (long : Bool)
    (hn : n < if long then 2 ^ 64 else 2 ^ 32) :
    number '0' ('x' :: hs ++ longSuffix long) =
      .ok (integerToken long (Int.bmod n (if long then 2 ^ 64 else 2 ^ 32)),
        ('x' :: hs ++ longSuffix long).length) := by
  have hrun : digitRun isHexDigit (hs ++ longSuffix long) = hs :=
    digitRun_append_of_forall (fun c hc => .inl (hhs c hc))
      (by cases long <;> (simp [longSuffix]; try decide))
  have hlarge : ¬n ≥ UInt64.size := by
    have : UInt64.size = 2 ^ 64 := rfl
    split at hn <;> omega
  rw [number, if_pos (by simp [hasSuffix])]
  simp only [List.cons_append, List.drop_succ_cons, List.drop_zero, hexBody, hrun, List.drop_left,
    digitsOnly_of_forall (by decide : isHexDigit '_' = false) hhs, hvalue]
  cases long with
  | false =>
    have hsmall : ¬n ≥ UInt32.size := by
      have : UInt32.size = 2 ^ 32 := rfl
      simp at hn
      omega
    simp [longSuffix, integerToken, hasSuffix, hlarge, hsmall, hne]
  | true => simp [longSuffix, integerToken, hasSuffix, hlarge, hne]

end Lexer

/-! ## Spellings -/

/-- The least integer with a literal, long or not. -/
def leastInteger (long : Bool) : Int := if long then -2 ^ 63 else -2 ^ 31

/-- The literal of an integer: decimal, or hexadecimal if it is negative. -/
def integerSpelling (long : Bool) (n : Int) : List Char :=
  (if 0 ≤ n then Nat.toDigits 10 n.toNat
    else '0' :: 'x' :: Nat.toDigits 16 (n - 2 * leastInteger long).toNat) ++ longSuffix long

/-- A character as it stands in a character literal. -/
def charSpelling (c : Char) : List Char :=
  if c = '\'' then ['\\', '\'']
  else if c = '\\' then ['\\', '\\']
  else if c = '\n' then ['\\', 'n']
  else [c]

namespace Token

/-- A spelling of a token. -/
def spelling : Token → List Char
  | int n => integerSpelling false n
  | long n => integerSpelling true n
  | double x => (Decimal.spelled.write x).toList
  | char c => '\'' :: charSpelling c ++ ['\'']
  | string s => Lexer.literal s.toList
  | ident name => name.toList
  | keyword k => k.text.toList
  | sign s => s.text.toList

/-- Whether the lexer may read the token; doubles are left out. -/
def IsSpelled : Token → Prop
  | int n => leastInteger false ≤ n ∧ n < 2 ^ 63
  | long n => leastInteger true ≤ n ∧ n < 2 ^ 63
  | double _ => False
  | ident name => isIdentifier name.toList = true ∧ Keyword.ofText? name = none
  | _ => True

end Token

namespace Lexer

/-- A text of one token, which is the first token of the text as well. -/
def ReadsAs (cs : List Char) (t : Token) : Prop :=
  ∃ c u, cs = c :: u ∧ step c u = .token t u.length

theorem step_of_isDigit {d : Char} (hd : d.isDigit = true) (cs : List Char) :
    step d cs = .ofReading (number d cs) := by
  have hmem : numerals.all
      (fun c => !(c.isDigit && (isSpace c || c = '/' || c = '"' || c = '\''))) =
      true := by decide
  have hplain := List.all_eq_true.1 hmem d (mem_numerals (by simp [isHexDigit, hd]))
  simp only [hd, Bool.true_and, Bool.not_eq_true', Bool.or_eq_false_iff, decide_eq_false_iff_not]
    at hplain
  obtain ⟨⟨⟨hspace, hslash⟩, hquote⟩, hmark⟩ := hplain
  simp [step, hspace, hslash, hquote, hmark, hd]

theorem step_of_isIdentStart {c : Char} (hc : isIdentStart c = true) (cs : List Char) :
    step c cs = .token (word c cs).1 (word c cs).2 := by
  have hpart := isIdentPart_of_isIdentStart hc
  have hspace : isSpace c = false := by
    rw [Bool.eq_false_iff]
    intro hspace
    rw [isIdentPart_of_isSpace hspace] at hpart
    exact Bool.noConfusion hpart
  have hdigit : c.isDigit = false := by
    rw [Bool.eq_false_iff]
    intro hdigit
    rw [isIdentStart_of_isDigit hdigit] at hc
    exact Bool.noConfusion hc
  have hmark := isMark_of_isIdentPart hpart
  simp only [Scan.isMark, Bool.or_eq_false_iff, decide_eq_false_iff_not] at hmark
  simp [step, hspace, hmark, hdigit, hc]

theorem readsAs_integer {long : Bool} {n : Int} (hlow : leastInteger long ≤ n)
    (hhigh : n < 2 ^ 63) :
    ReadsAs (integerSpelling long n) (integerToken long n) := by
  unfold integerSpelling
  split
  · next hpos =>
    have hdigits {c : Char} (hc : c ∈ Nat.toDigits 10 n.toNat) : c.isDigit = true :=
      Nat.isDigit_of_mem_toDigits (by decide) (by decide) hc
    have hvalue : Decimal.digitsValue 10 (Nat.toDigits 10 n.toNat) = n.toNat :=
      Decimal.digitsValue_toDigits (by decide) (by decide) _
    obtain ⟨d, ds, hds⟩ := List.exists_cons_of_ne_nil (Nat.toDigits_ne_nil (n := n.toNat) (b := 10))
    rw [hds] at hvalue hdigits
    have hread := number_of_digits (fun c hc => hdigits (List.mem_cons_of_mem d hc)) hvalue
      (by omega) long
    rw [Int.toNat_of_nonneg hpos] at hread
    refine ⟨d, ds ++ longSuffix long, by rw [hds]; rfl, ?_⟩
    rw [step_of_isDigit (hdigits List.mem_cons_self), hread]
    rfl
  · next hneg =>
    have hpos : 0 ≤ n - 2 * leastInteger long := by
      cases long <;> simp [leastInteger] at * <;> omega
    have hvalue : Decimal.digitsValue 16 (Nat.toDigits 16 (n - 2 * leastInteger long).toNat) =
        (n - 2 * leastInteger long).toNat :=
      Decimal.digitsValue_toDigits (by decide) (by decide) _
    have hread := number_of_hexDigits Nat.toDigits_ne_nil
      (fun c hc => Decimal.isHexDigit_of_mem_toDigits hc) hvalue long
      (by cases long <;> simp [leastInteger] at * <;> omega)
    have hmod : Int.bmod ((n - 2 * leastInteger long).toNat : Int)
        (if long then 2 ^ 64 else 2 ^ 32) = n := by
      rw [Int.toNat_of_nonneg hpos]
      cases long <;> simp [leastInteger, Int.bmod_def] at * <;> omega
    rw [hmod] at hread
    refine ⟨'0', 'x' :: Nat.toDigits 16 (n - 2 * leastInteger long).toNat ++ longSuffix long,
      rfl, ?_⟩
    rw [step_of_isDigit (by decide), hread]
    rfl

theorem readsAs_word {name : List Char} (hname : isIdentifier name = true) :
    ReadsAs name (match Keyword.ofText? (String.ofList name) with
      | some k => .keyword k
      | none => .ident (String.ofList name)) := by
  obtain ⟨c, u, rfl, hc, hu⟩ := exists_cons_of_isIdentifier hname
  refine ⟨c, u, rfl, ?_⟩
  have hrun : u.takeWhile isIdentPart = u := List.takeWhile_eq_self_iff.2 (List.all_eq_true.1 hu)
  rw [step_of_isIdentStart hc]
  exact congrArg (fun run : List Char =>
    Step.token (match Keyword.ofText? (String.ofList (c :: run)) with
    | some k => .keyword k
    | none => .ident (String.ofList (c :: run))) run.length) hrun

theorem readsAs_keyword (k : Keyword) : ReadsAs k.text.toList (.keyword k) := by
  cases k <;> exact ⟨_, _, rfl, rfl⟩

theorem readsAs_sign (s : Sign) : ReadsAs s.text.toList (.sign s) := by
  cases s <;> exact ⟨_, _, rfl, rfl⟩

theorem readsAs_string (s : String) : ReadsAs (literal s.toList) (.string s) := by
  refine ⟨'"', literalBody s.toList ++ ['"'], rfl, ?_⟩
  have hstep := step_literal s.toList (by simp : ([] : List Char).head? ≠ some '"')
  rw [String.ofList_toList] at hstep
  simpa using hstep

theorem readsAs_char (c : Char) : ReadsAs ('\'' :: charSpelling c ++ ['\'']) (.char c) := by
  refine ⟨'\'', charSpelling c ++ ['\''], rfl, ?_⟩
  have hstep (cs : List Char) : step '\'' cs = .ofReading (charBody cs) := rfl
  rw [hstep, Step.ofReading_eq_token, charSpelling]
  split_ifs with hmark hslash hbreak
  · rw [hmark]; rfl
  · rw [hslash]; rfl
  · rw [hbreak]; rfl
  · simp [charBody, hmark, hslash, hbreak]

/-- **The lexer reads the spelling of a token as that token.** -/
theorem readsAs_spelling {t : Token} (h : t.IsSpelled) : ReadsAs t.spelling t := by
  cases t with
  | int n => exact readsAs_integer h.1 h.2
  | long n => exact readsAs_integer h.1 h.2
  | double x => exact h.elim
  | char c => exact readsAs_char c
  | string s => exact readsAs_string s
  | ident name =>
    have hread := readsAs_word h.1
    rw [String.ofList_toList, h.2] at hread
    exact hread
  | keyword k => exact readsAs_keyword k
  | sign s => exact readsAs_sign s

/-- The spellings of tokens, with single spaces between them. -/
def spaced : List Token → List Char
  | [] => []
  | [t] => t.spelling
  | t :: ts => t.spelling ++ ' ' :: spaced ts

/-- A text of one token is cut from a text behind a space. -/
theorem ReadsAs.cuts_cons {text cs rest : List Char} {t : Token} {ps : List Piece}
    (h : ReadsAs text t) (hcuts : Cuts cs ps rest) :
    Cuts (text ++ ' ' :: cs) (⟨text, some t⟩ :: .space ' ' :: ps) rest := by
  obtain ⟨c, u, rfl, hstep⟩ := h
  have halike : Alike [] (' ' :: cs) :=
    ⟨[], [], _, rfl, rfl, ledBy_nil, ledBy_cons (by decide)⟩
  have hstep' := step_of_alike (by rwa [List.append_nil]) halike
  exact .token hstep' (.blank (u := []) rfl hcuts)

/-- **Texts of one token each are read behind one another**, with spaces between them. -/
theorem exists_cuts_intercalate {texts : List (List Char)} {ts : List Token}
    (h : List.Forall₂ ReadsAs texts ts) :
    ∃ ps, Cuts ([' '].intercalate texts) ps [] ∧ tokensOf ps = ts := by
  induction h with
  | nil => exact ⟨[], .nil [], rfl⟩
  | @cons text t texts ts hread hlater ih =>
    cases hlater with
    | nil =>
      obtain ⟨c, u, rfl, hstep⟩ := hread
      have hcuts : Cuts (c :: u ++ []) [⟨c :: u, some t⟩] [] :=
        .token (by rwa [List.append_nil]) (.nil [])
      rw [List.append_nil] at hcuts
      refine ⟨[⟨c :: u, some t⟩], ?_, rfl⟩
      rwa [List.intercalate_singleton]
    | @cons text' t' texts ts hread' hlater =>
      obtain ⟨ps, hcuts, htokens⟩ := ih
      refine ⟨⟨text, some t⟩ :: .space ' ' :: ps, ?_, by rw [← htokens]; rfl⟩
      rw [List.intercalate_cons_cons, List.append_assoc]
      exact hread.cuts_cons hcuts

theorem spaced_eq_intercalate (ts : List Token) :
    spaced ts = [' '].intercalate (ts.map Token.spelling) := by
  induction ts with
  | nil => rfl
  | cons t ts ih =>
    cases ts with
    | nil => exact (List.intercalate_singleton ..).symm
    | cons t' ts =>
      rw [spaced, ih]
      · simp [List.intercalate_cons_cons]
      · simp

/-- **The lexer reads tokens that are spelled with spaces between them.** -/
theorem exists_cuts_spaced {ts : List Token} (h : ∀ t ∈ ts, t.IsSpelled) :
    ∃ ps, Cuts (spaced ts) ps [] ∧ tokensOf ps = ts := by
  rw [spaced_eq_intercalate]
  refine exists_cuts_intercalate (List.forall₂_map_left_iff.2 ?_)
  exact List.forall₂_same.2 fun t ht => readsAs_spelling (h t ht)

/-! ## All tokens have a spelling -/

theorem isSpelled_of_hexBody {cs : List Char} {t : Token} {n : Nat} (h : hexBody cs = .ok (t, n)) :
    t.IsSpelled := by
  unfold hexBody at h
  dsimp only at h
  split at h
  · simp at h
  · split at h
    · obtain ⟨rfl, -⟩ := Prod.mk.inj (Except.ok.inj h)
      exact ⟨Int.le_bmod (by decide), Int.lt_of_lt_of_le (Int.bmod_lt (by decide)) (by decide)⟩
    · split at h
      · simp at h
      · obtain ⟨rfl, -⟩ := Prod.mk.inj (Except.ok.inj h)
        exact ⟨Int.le_bmod (by decide), Int.lt_of_lt_of_le (Int.bmod_lt (by decide)) (by decide)⟩

theorem isSpelled_of_number {first : Char} {cs : List Char} {t : Token} {n : Nat}
    (h : number first cs = .ok (t, n)) (hdouble : ∀ x, t ≠ .double x) : t.IsSpelled := by
  unfold number at h
  split at h
  · split at h
    · next hread =>
      obtain ⟨rfl, -⟩ := Prod.mk.inj (Except.ok.inj h)
      exact isSpelled_of_hexBody hread
    · simp at h
  · dsimp only at h
    split at h
    · obtain ⟨rfl, -⟩ := Prod.mk.inj (Except.ok.inj h)
      exact absurd rfl (hdouble _)
    · split at h
      · simp at h
      · next hsmall =>
        obtain ⟨rfl, -⟩ := Prod.mk.inj (Except.ok.inj h)
        split
        · exact ⟨by simp [leastInteger], by omega⟩
        · exact ⟨by simp [leastInteger], by omega⟩

/-- **Whatever the lexer reads has a spelling**, doubles aside. -/
theorem isSpelled_of_step {c : Char} {cs : List Char} {t : Token} {n : Nat}
    (h : step c cs = .token t n) (hdouble : ∀ x, t ≠ .double x) : t.IsSpelled := by
  obtain ⟨-, hread⟩ | ⟨-, hread⟩ | ⟨-, hread⟩ | ⟨hstart, hread⟩ | ⟨s, -, rfl, -, -⟩ :=
    token_of_step h
  · have hquoted := isQuoted_of_quoted hread
    cases t <;> first | exact trivial | simp [Token.isQuoted] at hquoted
  · have hquoted := isQuoted_of_charBody hread
    cases t <;> first | exact trivial | simp [Token.isQuoted] at hquoted
  · exact isSpelled_of_number hread hdouble
  · obtain ⟨rfl, -⟩ := Prod.mk.inj hread
    split
    · trivial
    · next hnone =>
      refine ⟨?_, hnone⟩
      rw [String.toList_ofList, isIdentifier, hstart, List.all_takeWhile]
      rfl
  · trivial

end Lexer

end SnippetRunner
