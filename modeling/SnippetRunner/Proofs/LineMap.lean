import SnippetRunner.Proofs.WrappedLines

/-!
# From the lines of a program back to the snippet

The lines of a wrapped snippet are known (`Program.LineOf`), and so are those that each of them
leads back to. The numbers are those of a bijection (`LeadsBack`): each line of the snippet that is
not blank is found on one line of the program and has the same text there but for white space,
nothing leads to a blank line, and the order is kept for all lines but the imports that moved
(`leadsBack_ofSnippet`).
-/

namespace SnippetRunner

open Text

namespace Text

/-- The line of a text with a number; lines count from one. -/
def nthLine? (number : Nat) (cs : List Char) : Option (List Char) :=
  if number = 0 then none else (lines cs)[number - 1]?

theorem nthLine?_succ (k : Nat) (cs : List Char) : nthLine? (k + 1) cs = (lines cs)[k]? := rfl

theorem exists_of_nthLine? {number : Nat} {cs l : List Char} (h : nthLine? number cs = some l) :
    ∃ k, number = k + 1 ∧ (lines cs)[k]? = some l := by
  cases number with
  | zero => cases h
  | succ k => exact ⟨k, rfl, h⟩

end Text

namespace Program

/-- Whether a snippet is put into a class: it declares neither a public class nor a type with a
static `main`. -/
def IsWrapped (snippet : List Char) : Prop :=
  publicClass? snippet = none ∧ mainType? snippet = none

theorem ofSnippet_of_isWrapped {snippet : List Char} (h : IsWrapped snippet) :
    (ofSnippet snippet).text = textOf (wrapped snippet) ∧
      (ofSnippet snippet).origins = some ((wrapped snippet).map Prod.snd) := by
  refine text_ofSnippet_of_origins ?_
  unfold ofSnippet
  rw [h.1, h.2]
  rfl

theorem ofSnippet_of_not_isWrapped {snippet : List Char} (h : ¬ IsWrapped snippet) :
    (ofSnippet snippet).text = snippet ∧ (ofSnippet snippet).snippet = snippet ∧
      (ofSnippet snippet).origins = none := by
  unfold ofSnippet
  split
  · exact ⟨rfl, rfl, rfl⟩
  · next hnone => exact absurd (Option.or_eq_none_iff.1 hnone) h

theorem textOf_eq_joined (ls : Lines) : textOf ls = joined (ls.map Prod.fst) := by
  rw [textOf, joined, List.flatMap_map]

section Wrapped

variable {snippet : List Char} (h : IsWrapped snippet)

include h

theorem lines_ofSnippet :
    lines (ofSnippet snippet).text = (wrapped snippet).map fun l => dropBreak (l.1 ++ ['\n']) := by
  have hbreak : ∀ l ∈ (wrapped snippet).map Prod.fst, '\n' ∉ l := by
    simpa using fun l origin hmem => newline_not_mem_wrapped (l := (l, origin)) hmem
  rw [(ofSnippet_of_isWrapped h).1, textOf_eq_joined, lines_joined hbreak, List.map_map]
  rfl

theorem nthLine?_ofSnippet {k : Nat} {text : List Char} {origin : Option Nat}
    (hline : LineOf snippet k text origin) :
    nthLine? (k + 1) (ofSnippet snippet).text = some (dropBreak (text ++ ['\n'])) := by
  rw [nthLine?_succ, lines_ofSnippet h, List.getElem?_map, getElem?_wrapped_iff.2 hline]
  rfl

theorem sourceLine?_succ (k : Nat) :
    (ofSnippet snippet).sourceLine? (k + 1) = ((wrapped snippet)[k]?).bind Prod.snd := by
  rw [sourceLine?, (ofSnippet_of_isWrapped h).2]
  simp only [if_neg (Nat.succ_ne_zero k), Nat.add_sub_cancel, List.getElem?_map]
  cases (wrapped snippet)[k]? <;> rfl

theorem sourceLine?_of_lineOf {k : Nat} {text : List Char} {origin : Option Nat}
    (hline : LineOf snippet k text origin) : (ofSnippet snippet).sourceLine? (k + 1) = origin := by
  rw [sourceLine?_succ h, getElem?_wrapped_iff.2 hline]
  rfl

theorem exists_lineOf_of_sourceLine? {number r : Nat}
    (hsource : (ofSnippet snippet).sourceLine? number = some r) :
    ∃ k text, number = k + 1 ∧ LineOf snippet k text (some r) := by
  cases number with
  | zero =>
    rw [sourceLine?, (ofSnippet_of_isWrapped h).2] at hsource
    cases hsource
  | succ k =>
    rw [sourceLine?_succ h, Option.bind_eq_some_iff] at hsource
    obtain ⟨⟨text, origin⟩, hline, rfl⟩ := hsource
    exact ⟨k, text, rfl, getElem?_wrapped_iff.1 hline⟩

end Wrapped

/-! ## The way back to the snippet -/

/-- Line `n` of the program is one of the lines around the snippet. -/
def IsShellLine (snippet : List Char) (n : Nat) : Prop :=
  (∃ i < (openingLines snippet).length, n = importCount snippet + i + 1) ∨
    ∃ i < (closingLines snippet).length, n = bodyStart snippet + (lines snippet).length + i + 1

/-- Line `n` of the program stands in the place of an import that moved, or of a blank line. -/
def IsPlaceholder (snippet : List Char) (n : Nat) : Prop :=
  ∃ k l, (lines snippet)[k]? = some l ∧ (isImport l || isBlank l) = true ∧
    n = bodyStart snippet + k + 1

/-- The lines of a program lead back to those of the snippet it was made of, one to one. -/
structure LeadsBack (snippet : List Char) (p : Program) : Prop where
  /-- Every line that is not blank is found from one line of the program. -/
  existsUnique : ∀ r l, nthLine? r snippet = some l → isBlank l = false →
    ∃! n, p.sourceLine? n = some r
  /-- The lines have the same text but for white space, and none of them is blank. -/
  trim_eq : ∀ n r, p.sourceLine? n = some r → ∃ l l', nthLine? r snippet = some l ∧
    isBlank l = false ∧ nthLine? n p.text = some l' ∧ trim l' = trim l
  /-- The lines from which nothing is found are those around the snippet, those left empty, and the
  ones outside of the program. -/
  eq_none_iff : ∀ n, p.sourceLine? n = none ↔
    n = 0 ∨ (lines p.text).length < n ∨ IsShellLine snippet n ∨ IsPlaceholder snippet n
  shell : ∀ n, IsShellLine snippet n →
    ∃ l ∈ openingLines snippet ++ closingLines snippet, nthLine? n p.text = some l
  placeholder : ∀ n, IsPlaceholder snippet n → nthLine? n p.text = some []
  /-- Lines other than imports keep their order. -/
  strictMono : ∀ m n r s l l', p.sourceLine? m = some r → p.sourceLine? n = some s →
    nthLine? r snippet = some l → nthLine? s snippet = some l' → isImport l = false →
    isImport l' = false → m < n → r < s

theorem IsShellLine.exists_lineOf {snippet : List Char} {n : Nat} (h : IsShellLine snippet n) :
    ∃ k, ∃ l ∈ openingLines snippet ++ closingLines snippet, n = k + 1 ∧
      LineOf snippet k l none := by
  obtain ⟨i, hi, rfl⟩ | ⟨i, hi, rfl⟩ := h
  · exact ⟨_, _, List.mem_append_left _ (List.getElem_mem hi), rfl,
      .opening (List.getElem?_eq_getElem hi)⟩
  · exact ⟨_, _, List.mem_append_right _ (List.getElem_mem hi), rfl,
      .closing (List.getElem?_eq_getElem hi)⟩

theorem dropBreak_of_mem_shell {snippet l : List Char}
    (h : l ∈ openingLines snippet ++ closingLines snippet) : dropBreak (l ++ ['\n']) = l := by
  have hall : ∀ l ∈ shellLines, l.getLast? ≠ some '\r' := by decide
  exact dropBreak_append_newline (hall l (mem_shellLines h))

/-- A line that leads nowhere is one around the snippet or one left empty. -/
theorem LineOf.isShellLine_or_isPlaceholder {snippet text : List Char} {k : Nat}
    (h : LineOf snippet k text none) :
    IsShellLine snippet (k + 1) ∨ IsPlaceholder snippet (k + 1) := by
  cases h with
  | @opening i l hl => exact .inl (.inl ⟨i, (List.getElem?_eq_some_iff.1 hl).1, rfl⟩)
  | @emptied n l hl hempty => exact .inr ⟨n, l, hl, hempty, rfl⟩
  | @closing i l hl => exact .inl (.inr ⟨i, (List.getElem?_eq_some_iff.1 hl).1, rfl⟩)

theorem wrappedLine_lt {snippet l l' : List Char} {m n : Nat} (hl : (lines snippet)[m]? = some l)
    (hl' : (lines snippet)[n]? = some l') (himport : isImport l = false)
    (himport' : isImport l' = false) (hlt : wrappedLine snippet m < wrappedLine snippet n) :
    m < n := by
  rw [wrappedLine, wrappedLine, hl, hl', Option.any_some, Option.any_some, himport, himport',
    if_neg Bool.false_ne_true, if_neg Bool.false_ne_true] at hlt
  omega

section Wrapped

variable {snippet : List Char} (h : IsWrapped snippet)

include h

theorem existsUnique_sourceLine? {r : Nat} {l : List Char} (hl : nthLine? r snippet = some l)
    (hblank : isBlank l = false) : ∃! n, (ofSnippet snippet).sourceLine? n = some r := by
  obtain ⟨n, rfl, hline⟩ := exists_of_nthLine? hl
  obtain ⟨text, hplace⟩ := exists_lineOf hline hblank
  refine ⟨wrappedLine snippet n + 1, sourceLine?_of_lineOf h hplace, fun number hnumber => ?_⟩
  obtain ⟨k, text', rfl, hline'⟩ := exists_lineOf_of_sourceLine? h hnumber
  obtain ⟨m, -, hm, -, -, -, rfl⟩ := hline'.exists_origin
  obtain rfl := Nat.succ.inj hm
  rfl

theorem trim_eq_of_sourceLine? {n r : Nat} (hsource : (ofSnippet snippet).sourceLine? n = some r) :
    ∃ l l', nthLine? r snippet = some l ∧ isBlank l = false ∧
      nthLine? n (ofSnippet snippet).text = some l' ∧ trim l' = trim l := by
  obtain ⟨k, text, rfl, hline⟩ := exists_lineOf_of_sourceLine? h hsource
  obtain ⟨m, l, rfl, hl, hblank, htrim, -⟩ := hline.exists_origin
  refine ⟨l, _, hl, hblank, nthLine?_ofSnippet h hline, ?_⟩
  rw [trim_dropBreak_append_newline, htrim]

theorem sourceLine?_eq_none_iff (n : Nat) :
    (ofSnippet snippet).sourceLine? n = none ↔
      n = 0 ∨ (lines (ofSnippet snippet).text).length < n ∨ IsShellLine snippet n ∨
        IsPlaceholder snippet n := by
  have hlength : (lines (ofSnippet snippet).text).length = (wrapped snippet).length := by
    rw [lines_ofSnippet h, List.length_map]
  constructor
  · intro hnone
    cases n with
    | zero => exact .inl rfl
    | succ k =>
      rw [sourceLine?_succ h] at hnone
      cases hline : (wrapped snippet)[k]? with
      | none =>
        refine .inr (.inl ?_)
        rw [hlength, Nat.lt_succ_iff]
        exact List.getElem?_eq_none_iff.1 hline
      | some line =>
        obtain ⟨text, origin⟩ := line
        rw [hline] at hnone
        obtain rfl : origin = none := hnone
        exact .inr (.inr (getElem?_wrapped_iff.1 hline).isShellLine_or_isPlaceholder)
  · rintro (rfl | hbeyond | hshell | ⟨k, l, hl, hempty, rfl⟩)
    · rw [sourceLine?, (ofSnippet_of_isWrapped h).2]
      rfl
    · obtain ⟨k, rfl⟩ : ∃ k, n = k + 1 := ⟨n - 1, by omega⟩
      rw [hlength] at hbeyond
      rw [sourceLine?_succ h, List.getElem?_eq_none (by omega)]
      rfl
    · obtain ⟨k, l, -, rfl, hline⟩ := hshell.exists_lineOf
      exact sourceLine?_of_lineOf h hline
    · exact sourceLine?_of_lineOf h (.emptied hl hempty)

theorem leadsBack_of_isWrapped : LeadsBack snippet (ofSnippet snippet) where
  existsUnique _ _ := existsUnique_sourceLine? h
  trim_eq _ _ := trim_eq_of_sourceLine? h
  eq_none_iff := sourceLine?_eq_none_iff h
  shell n hn := by
    obtain ⟨k, l, hl, rfl, hline⟩ := hn.exists_lineOf
    exact ⟨l, hl, by rw [nthLine?_ofSnippet h hline, dropBreak_of_mem_shell hl]⟩
  placeholder n hn := by
    obtain ⟨k, l, hl, hempty, rfl⟩ := hn
    rw [nthLine?_ofSnippet h (.emptied hl hempty)]
    rfl
  strictMono m n r s l l' hm hn hl hl' himport himport' hlt := by
    obtain ⟨i, text, rfl, hline⟩ := exists_lineOf_of_sourceLine? h hm
    obtain ⟨j, text', rfl, hline'⟩ := exists_lineOf_of_sourceLine? h hn
    obtain ⟨a, -, rfl, -, -, -, rfl⟩ := hline.exists_origin
    obtain ⟨b, -, rfl, -, -, -, rfl⟩ := hline'.exists_origin
    have horder := wrappedLine_lt hl hl' himport himport' (Nat.lt_of_succ_lt_succ hlt)
    exact Nat.succ_lt_succ horder

end Wrapped

/-- **The lines of a program lead back to those of the snippet.** Those of a wrapped snippet do it
one to one, and a text that is a program as it is has the same lines; an empty text counts as
one. -/
theorem leadsBack_ofSnippet (snippet : List Char) :
    (IsWrapped snippet → LeadsBack snippet (ofSnippet snippet)) ∧
      (¬ IsWrapped snippet → ∀ n r, (ofSnippet snippet).sourceLine? n = some r ↔
        r = n ∧ 1 ≤ n ∧ n ≤ max 1 (lines snippet).length) := by
  refine ⟨leadsBack_of_isWrapped, fun h n r => ?_⟩
  obtain ⟨-, hsnippet, horigins⟩ := ofSnippet_of_not_isWrapped h
  simp only [sourceLine?, horigins, hsnippet]
  split
  · next hrange =>
    constructor
    · rintro ⟨⟩
      exact ⟨rfl, hrange⟩
    · rintro ⟨rfl, -⟩
      rfl
  · next hrange =>
    constructor
    · intro hnone
      cases hnone
    · exact fun hr => absurd hr.2 hrange

/-- A snippet with an import between equal lines, a blank line and carriage returns, and a program
as it is. -/
theorem leadsBack_ofSnippet_equalLines :
    let snippet := "int x = 1;\r\n \nimport java.util.List;\nint x = 1;\r".toList
    let program := "public class A \x7b\n\x7d\n".toList
    (IsWrapped snippet ∧ LeadsBack snippet (ofSnippet snippet)) ∧
      ¬ IsWrapped program ∧ (ofSnippet program).sourceLine? 2 = some 2 := by
  intro snippet program
  have hwrapped : IsWrapped snippet := ⟨by decide +kernel, by decide +kernel⟩
  have hprogram : ¬ IsWrapped program := by
    intro h
    exact absurd h.1 (by decide +kernel)
  refine ⟨⟨hwrapped, (leadsBack_ofSnippet snippet).1 hwrapped⟩, hprogram, ?_⟩
  exact ((leadsBack_ofSnippet program).2 hprogram 2 2).2 ⟨rfl, by decide, by decide +kernel⟩

end Program

end SnippetRunner
