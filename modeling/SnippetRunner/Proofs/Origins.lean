import Mathlib.Data.List.DropRight
import SnippetRunner.Proofs.WrappedLines

/-!
# Where the lines of a program come from

A line of the snippet that is wrapped becomes one line of the program (`Program.wrappedLine`), with
other white space at its ends. So a character that the lines around the snippet do not have stands
in the program because it stands in the snippet, at one place (`Program.exists_comesFrom`), and the
program leads back to its line there.
-/

namespace SnippetRunner

open Text

/-! ## Places in lines -/

namespace Text

/-- What stands in front of the end of a text on the same line. -/
def lineFront (cs : List Char) : List Char := cs.rtakeWhile (· ≠ '\n')

/-- What stands behind the start of a text on the same line. -/
def lineBack (cs : List Char) : List Char := cs.takeWhile (· ≠ '\n')

section Lines

variable {x : List Char}

theorem lineFront_append_newline (x y : List Char) : lineFront (x ++ '\n' :: y) = lineFront y := by
  have hsplit : (x ++ '\n' :: y).reverse = y.reverse ++ '\n' :: x.reverse := by simp
  rw [lineFront, List.rtakeWhile, hsplit, List.takeWhile_append]
  split
  · next hall =>
    rw [List.takeWhile_cons_of_neg (by simp), List.append_nil, lineFront, List.rtakeWhile,
      (List.takeWhile_prefix _).eq_of_length hall]
  · rfl

theorem lineFront_of_newline_not_mem (h : '\n' ∉ x) : lineFront x = x :=
  List.rtakeWhile_eq_self_iff.2 fun c hc => by simpa using ne_of_mem_of_not_mem hc h

theorem lineBack_append_newline (h : '\n' ∉ x) (y : List Char) : lineBack (x ++ '\n' :: y) = x := by
  rw [lineBack, List.takeWhile_append_of_pos fun c hc => by simpa using ne_of_mem_of_not_mem hc h,
    List.takeWhile_cons_of_neg (by simp), List.append_nil]

theorem lineBack_of_newline_not_mem (h : '\n' ∉ x) : lineBack x = x :=
  List.takeWhile_eq_self_iff.2 fun c hc => by simpa using ne_of_mem_of_not_mem hc h

end Lines

/-- A character of a line stands in the text, on the line with that number. -/
theorem exists_of_getElem?_lines {c : Char} {cs u v : List Char} {n : Nat}
    (h : (lines cs)[n]? = some (u ++ c :: v)) :
    ∃ place rest, cs = place ++ c :: rest ∧ newlines place = n ∧ lineFront place = u ∧
      ∃ b, lineBack rest = v ++ b ∧ isBlank b = true := by
  induction n generalizing cs with
  | zero =>
    by_cases hbreak : '\n' ∈ cs
    · obtain ⟨x, rest, rfl, hx⟩ := List.eq_append_cons_of_mem hbreak
      obtain ⟨b, hline, hb⟩ := exists_eq_dropBreak_append x
      rw [lines_append_newline hx, List.getElem?_cons_zero, Option.some.injEq] at h
      rw [h] at hline
      subst hline
      simp only [List.mem_append, List.mem_cons, not_or] at hx
      have hback : '\n' ∉ v ++ b := by simpa using ⟨hx.1.2.2, hx.2⟩
      refine ⟨u, v ++ b ++ '\n' :: rest, by simp, newlines_eq_zero hx.1.1,
        lineFront_of_newline_not_mem hx.1.1, b, lineBack_append_newline hback rest, hb⟩
    · have hne : cs ≠ [] := by
        rintro rfl
        cases h
      rw [lines_of_newline_not_mem hbreak hne, List.getElem?_cons_zero, Option.some.injEq] at h
      subst h
      simp only [List.mem_append, List.mem_cons, not_or] at hbreak
      exact ⟨u, v, rfl, newlines_eq_zero hbreak.1, lineFront_of_newline_not_mem hbreak.1, [],
        by rw [List.append_nil, lineBack_of_newline_not_mem hbreak.2.2], rfl⟩
  | succ n ih =>
    by_cases hbreak : '\n' ∈ cs
    · obtain ⟨x, rest, rfl, hx⟩ := List.eq_append_cons_of_mem hbreak
      rw [lines_append_newline hx, List.getElem?_cons_succ] at h
      obtain ⟨place, rest, rfl, hn, hfront, hback⟩ := ih h
      exact ⟨x ++ '\n' :: place, rest, by simp, by rw [newlines_append_newline hx, hn],
        by rw [lineFront_append_newline, hfront], hback⟩
    · cases cs with
      | nil => cases h
      | cons d cs =>
        rw [lines_of_newline_not_mem hbreak (by simp)] at h
        cases h

end Text

/-! ## Lines of a program -/

namespace Program

/-- A character of a text made of lines stands on the line with the number of line breaks in front
of it. -/
theorem exists_getElem?_of_textOf {ls : Lines} (hls : ∀ l ∈ ls, '\n' ∉ l.1) {c : Char}
    (hc : c ≠ '\n') {before after : List Char} (h : textOf ls = before ++ c :: after) :
    ∃ origin, ls[newlines before]? = some (lineFront before ++ c :: lineBack after, origin) := by
  induction ls generalizing before with
  | nil => simp [textOf] at h
  | cons l ls ih =>
    have hl : '\n' ∉ l.1 := hls l List.mem_cons_self
    rw [textOf_cons, List.append_eq_append_iff] at h
    obtain ⟨x, hbefore, hrest⟩ | ⟨x, hline, hrest⟩ := h
    · cases x with
      | nil =>
        rw [List.nil_append, List.cons.injEq] at hrest
        exact absurd hrest.1.symm hc
      | cons d x =>
        rw [List.cons_append, List.cons.injEq] at hrest
        obtain ⟨rfl, hrest⟩ := hrest
        obtain ⟨origin, horigin⟩ := ih (fun l hl => hls l (List.mem_cons_of_mem _ hl)) hrest
        refine ⟨origin, ?_⟩
        rw [hbefore, newlines_append_newline hl, List.getElem?_cons_succ, lineFront_append_newline]
        exact horigin
    · cases x with
      | nil =>
        rw [List.nil_append, List.cons.injEq] at hrest
        exact absurd hrest.1 hc
      | cons d x =>
        rw [List.cons_append, List.cons.injEq] at hrest
        obtain ⟨rfl, hafter⟩ := hrest
        rw [hline] at hl
        simp only [List.mem_append, List.mem_cons, not_or] at hl
        refine ⟨l.2, ?_⟩
        rw [newlines_eq_zero hl.1, List.getElem?_cons_zero, lineFront_of_newline_not_mem hl.1,
          hafter, lineBack_append_newline hl.2.2, ← hline]

/-- **A character that the lines around a snippet do not have stands on a line of the program that a
line of the snippet became**, and the program knows which. -/
theorem exists_line_of_wrapped {snippet u v : List Char} {c : Char} {origin : Option Nat} {k : Nat}
    (hc : c = 'f' ∨ c = 'w') (h : (wrapped snippet)[k]? = some (u ++ c :: v, origin)) :
    ∃ n u' v', (lines snippet)[n]? = some (u' ++ c :: v') ∧ k = wrappedLine snippet n ∧
      origin = some (n + 1) ∧ trimStart u = trimStart u' ∧ trimEnd v = trimEnd v' := by
  have hspace : isSpace c = false := by rcases hc with rfl | rfl <;> decide
  have hnot {l : List Char} (hl : l ∈ openingLines snippet ++ closingLines snippet) : c ∉ l := by
    have hall : ∀ l ∈ shellLines, 'f' ∉ l ∧ 'w' ∉ l := by decide
    rcases hc with rfl | rfl
    · exact (hall l (mem_shellLines hl)).1
    · exact (hall l (mem_shellLines hl)).2
  have hmem : c ∈ u ++ c :: v := List.mem_append_right _ List.mem_cons_self
  have hline := getElem?_wrapped_iff.1 h
  generalize htext : u ++ c :: v = text at hline hmem
  cases hline with
  | @hoisted n l hl himport =>
    obtain ⟨m, l', hm, -, -, -, hk⟩ := (LineOf.hoisted hl himport).exists_origin
    obtain rfl := Nat.succ.inj hm
    obtain ⟨s, b, hsplit, hs, hb⟩ := exists_eq_append_trim l
    have hparts : l = (s ++ u) ++ c :: (v ++ b) := by
      rw [hsplit, ← htext]
      simp
    exact ⟨n, s ++ u, v ++ b, by rw [hl, hparts], hk, rfl, (trimStart_append_of_isBlank hs).symm,
      (trimEnd_append_of_isBlank hb).symm⟩
  | opening hl => exact absurd hmem (hnot (List.mem_append_left _ (List.mem_of_getElem? hl)))
  | emptied => cases hmem
  | @kept n l hl hkept =>
    obtain ⟨m, l', hm, -, -, -, hk⟩ := (LineOf.kept hl hkept).exists_origin
    obtain rfl := Nat.succ.inj hm
    have hblank := isBlank_margin snippet
    obtain ⟨u', hu, hline⟩ : ∃ u', u = margin snippet ++ u' ∧ l = u' ++ c :: v := by
      obtain ⟨x, hx, hv⟩ | ⟨x, hu, hx⟩ := List.append_eq_append_iff.1 htext
      · cases x with
        | nil => exact ⟨[], by rw [hx, List.append_nil, List.append_nil], hv.symm⟩
        | cons d x =>
          obtain ⟨rfl, -⟩ := List.cons.inj hv
          rw [hx, isBlank_append_cons hspace] at hblank
          exact absurd hblank (by decide)
      · exact ⟨x, hu, hx⟩
    refine ⟨n, u', v, by rw [hl, hline], hk, rfl, ?_, rfl⟩
    rw [hu, trimStart_append_of_isBlank hblank]
  | closing hl => exact absurd hmem (hnot (List.mem_append_right _ (List.mem_of_getElem? hl)))

/-- `ComesFrom snippet before after place rest`: the place in the program between `before` and
`after` is the one in the snippet between `place` and `rest`. A wrapped line may have other white
space at its ends. -/
inductive ComesFrom (snippet : List Char) :
    List Char → List Char → List Char → List Char → Prop
  | asIs {before after : List Char} : (ofSnippet snippet).origins = none →
      ComesFrom snippet before after before after
  | wrapped {before after place rest : List Char} :
      (ofSnippet snippet).origins.isSome = true →
      newlines before = wrappedLine snippet (newlines place) →
      trimStart (lineFront before) = trimStart (lineFront place) →
      trimEnd (lineBack after) = trimEnd (lineBack rest) →
      ComesFrom snippet before after place rest

/-- **A character that the lines around a snippet do not have stands in the program because it
stands in the snippet**, at one place, and the program leads back to its line. -/
theorem exists_comesFrom {snippet before after : List Char} {c : Char} (hc : c = 'f' ∨ c = 'w')
    (h : (ofSnippet snippet).text = before ++ c :: after) :
    ∃ place rest, snippet = place ++ c :: rest ∧ ComesFrom snippet before after place rest ∧
      (ofSnippet snippet).sourceLine? (newlines before + 1) = some (newlines place + 1) := by
  have hspace : isSpace c = false := by rcases hc with rfl | rfl <;> decide
  have hbreak : c ≠ '\n' := by rcases hc with rfl | rfl <;> decide
  cases horigins : (ofSnippet snippet).origins with
  | none =>
    have htext : (ofSnippet snippet).text = snippet ∧ (ofSnippet snippet).snippet = snippet := by
      unfold ofSnippet at horigins ⊢
      split at horigins
      · exact ⟨rfl, rfl⟩
      · cases horigins
    rw [htext.1] at h
    refine ⟨before, after, h, .asIs horigins, ?_⟩
    obtain ⟨l, hl, -⟩ := exists_line_of_append hspace before after
    rw [← h] at hl
    have hbound : newlines before < (lines snippet).length := (List.getElem?_eq_some_iff.1 hl).1
    simp only [sourceLine?, horigins, htext.2]
    rw [if_pos (by omega)]
  | some origins =>
    have hsome : (ofSnippet snippet).origins.isSome = true := by rw [horigins]; rfl
    obtain ⟨htext, hmap⟩ := text_ofSnippet_of_origins hsome
    rw [htext] at h
    obtain ⟨origin, hline⟩ := exists_getElem?_of_textOf
      (fun l hl => newline_not_mem_wrapped hl) hbreak h
    obtain ⟨n, u, v, hn, hk, rfl, hu, hv⟩ := exists_line_of_wrapped hc hline
    obtain ⟨place, rest, hsnippet, rfl, rfl, b, hback, hb⟩ := exists_of_getElem?_lines hn
    refine ⟨place, rest, hsnippet, .wrapped hsome hk hu ?_, ?_⟩
    · rw [hback, trimEnd_append_of_isBlank hb, hv]
    · rw [sourceLine?, hmap]
      simp only [Nat.add_sub_cancel, if_neg (Nat.succ_ne_zero _), List.getElem?_map, hline,
        Option.map_some, Option.join_some]

end Program

end SnippetRunner
