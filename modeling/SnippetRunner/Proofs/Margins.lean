import Mathlib.Data.List.Basic
import SnippetRunner.Proofs.Texts
import SnippetRunner.Scan
import SnippetRunner.Token.Lexer

/-!
# Margins

The rows of a text block lose the indentation that those of them share that are not blank
(`margin`), and the block loses what stands behind its last line break, if that is blank
(`stripIndentation_flatten`).

A row may be moved to the right by spaces in front of it (`Row.shift`). If all rows with content are
moved, the margin moves with them (`Row.margin_shift`), and the rows that are moved are cut where
they were (`Row.unindentLine_shift`). The others are blank then. They are cut at the margin too, and
a row that is no longer than the margin, its break included, is gone.

So what is left is the same for every number of spaces exactly if all that is not moved is gone from
the start (`Row.stripped_eq_iff_steady`).
-/

namespace SnippetRunner

open Text Lexer

namespace Lexer

variable {r s t : List Char} {rows : List (List Char)} {m : Nat}

/-! ## One row -/

/-- A text with one line break, at its end. -/
def IsRow (r : List Char) : Prop := ∃ body, r = body ++ ['\n'] ∧ '\n' ∉ body

theorem indentation_append_of_isBlank (hs : isBlank s = true) (r : List Char) :
    indentation (s ++ r) = byteSize s + indentation r := by
  have hle : byteSize (trimStart r) ≤ byteSize r := by
    obtain ⟨lead, hlead⟩ := List.dropWhile_suffix isSpace (l := r)
    have hsize := congrArg byteSize hlead
    rw [byteSize_append] at hsize
    rw [trimStart]
    omega
  rw [indentation, indentation, trimStart_append_of_isBlank hs, byteSize_append]
  omega

theorem isBlank_dropBreak (r : List Char) : isBlank (dropBreak r) = isBlank r := by
  obtain ⟨b, hb, hr⟩ := eq_dropBreak_append r
  conv_rhs => rw [hr, isBlank_append, isBlank_of_mem_lineBreaks hb, Bool.and_true]

/-- The break of a row with content is not part of its indentation. -/
theorem indentation_dropBreak (h : isBlank r = false) :
    indentation (dropBreak r) = indentation r := by
  obtain ⟨b, -, hr⟩ := eq_dropBreak_append r
  have hdrop : isBlank (dropBreak r) = false := by rw [isBlank_dropBreak, h]
  conv_rhs => rw [hr, indentation, trimStart_append_of_not_isBlank hdrop, byteSize_append,
    byteSize_append, Nat.add_sub_add_right, ← indentation]

theorem unindentLine_zero (r : List Char) : unindentLine 0 r = r := by
  simp [unindentLine, cut?, isBlank]

/-- **What is put in front of a row and cut off again makes no difference.** -/
theorem unindentLine_append_of_isBlank (hs : isBlank s = true) (m : Nat) (r : List Char) :
    unindentLine (byteSize s + m) (s ++ r) = unindentLine m r := by
  have hmin : min (byteSize s + byteSize r) (byteSize s + m) = byteSize s + min (byteSize r) m := by
    omega
  rw [unindentLine, byteSize_append, hmin, cut?_byteSize_add, unindentLine]
  cases cut? (min (byteSize r) m) r with
  | none => exact trimStart_append_of_isBlank hs
  | some parts =>
    simp only [Option.map_some, isBlank_append, hs, Bool.true_and,
      trimStart_append_of_isBlank hs]

theorem isBlank_trimStart (r : List Char) : isBlank (trimStart r) = isBlank r := by
  cases hr : isBlank r with
  | true => rw [trimStart_of_isBlank hr]; rfl
  | false =>
    obtain ⟨c, x, hx, hc⟩ := exists_trimStart_eq hr
    rw [hx]
    exact isBlank_append_cons hc [] x

/-- What a row keeps is its end, and all it loses is white space. -/
theorem unindentLine_suffix (m : Nat) (r : List Char) :
    unindentLine m r <:+ r ∧ isBlank (unindentLine m r) = isBlank r := by
  rw [unindentLine]
  split
  · next lead rest hcut =>
    split
    · next hlead =>
      have hr := append_of_cut? hcut
      refine ⟨⟨lead, hr⟩, ?_⟩
      rw [← hr, isBlank_append, hlead, Bool.true_and]
    · exact ⟨List.dropWhile_suffix _, isBlank_trimStart r⟩
  · exact ⟨List.dropWhile_suffix _, isBlank_trimStart r⟩

/-- A row of white space that is no longer than the margin is gone. -/
theorem unindentLine_of_byteSize_le (hr : isBlank r = true) (hle : byteSize r ≤ m) :
    unindentLine m r = [] := by
  have hcut := cut?_byteSize_append r []
  rw [List.append_nil] at hcut
  rw [unindentLine, Nat.min_eq_left hle, hcut]
  simp [hr]

/-- Of a row of white space that is longer than the margin by one the break is left. -/
theorem unindentLine_of_byteSize_eq (hrow : IsRow r) (hr : isBlank r = true)
    (hm : byteSize r = m + 1) : unindentLine m r = ['\n'] := by
  obtain ⟨body, rfl, -⟩ := hrow
  obtain rfl : m = byteSize body := by
    rw [byteSize_append] at hm
    exact (Nat.add_right_cancel hm).symm
  rw [isBlank_append, Bool.and_eq_true] at hr
  exact unindentLine_append_of_isBlank hr.1 0 ['\n'] |>.trans (unindentLine_zero _)

/-- What is left of a row ends with its break, if anything is left. -/
theorem eq_nil_or_exists_of_unindentLine (hrow : IsRow r) (m : Nat) :
    unindentLine m r = [] ∨ ∃ body, unindentLine m r = body ++ ['\n'] := by
  obtain ⟨body, rfl, -⟩ := hrow
  have hsuffix := (unindentLine_suffix m (body ++ ['\n'])).1
  generalize unindentLine m (body ++ ['\n']) = x at hsuffix
  rcases List.eq_nil_or_concat x with rfl | ⟨y, d, rfl⟩
  · exact .inl rfl
  · obtain ⟨lead, hlead⟩ := hsuffix
    rw [List.concat_eq_append, ← List.append_assoc] at hlead
    obtain ⟨-, hd⟩ := List.append_inj' hlead rfl
    exact .inr ⟨y, by rw [List.concat_eq_append, hd]⟩

/-! ## Rows -/

/-- The indentation that rows share, blank ones aside. -/
def margin (rows : List (List Char)) : Nat := commonIndentation rows.flatten

section Margin

theorem linesWithBreaks_flatten_append (hrows : ∀ r ∈ rows, IsRow r) (t : List Char) :
    linesWithBreaks (rows.flatten ++ t) = rows ++ linesWithBreaks t := by
  induction rows with
  | nil => rfl
  | cons r rows ih =>
    obtain ⟨⟨body, rfl, hbody⟩, htail⟩ := List.forall_mem_cons.1 hrows
    have hsplit : (((body ++ ['\n']) :: rows).flatten ++ t) =
        body ++ '\n' :: (rows.flatten ++ t) := by simp
    rw [hsplit, linesWithBreaks_append_newline hbody, ih htail, List.cons_append]

/-- What stands behind the last break has no line with content, if it is blank. -/
theorem filter_lines_of_isBlank (ht : isBlank t = true) :
    (lines t).filter (fun l => !isBlank l) = [] := by
  rw [List.filter_eq_nil_iff]
  intro l hl
  obtain ⟨l', hl', rfl⟩ := List.mem_map.1 hl
  have hmem : l' <:+: t := by
    conv_rhs => rw [← flatten_linesWithBreaks t]
    exact List.infix_of_mem_flatten hl'
  rw [isBlank_dropBreak, isBlank_of_isInfix hmem ht]
  decide

/-- The indentations that are compared are those of the rows with content. -/
theorem commonIndentation_flatten_append (hrows : ∀ r ∈ rows, IsRow r) (ht : isBlank t = true) :
    commonIndentation (rows.flatten ++ t) =
      ((rows.filter fun r => !isBlank r).map indentation).min?.getD 0 := by
  have hlines : (lines (rows.flatten ++ t)).filter (fun l => !isBlank l) =
      (rows.filter fun r => !isBlank r).map dropBreak := by
    have hfilter : ((fun l => !isBlank l) ∘ dropBreak) = fun r => !isBlank r :=
      funext fun r => by rw [Function.comp, isBlank_dropBreak]
    rw [lines, linesWithBreaks_flatten_append hrows, List.map_append, ← lines, List.filter_append,
      filter_lines_of_isBlank ht, List.append_nil, List.filter_map, hfilter]
  have hindent : ((rows.filter fun r => !isBlank r).map dropBreak).map indentation =
      (rows.filter fun r => !isBlank r).map indentation := by
    rw [List.map_map]
    refine List.map_congr_left fun r hr => indentation_dropBreak ?_
    simpa using (List.mem_filter.1 hr).2
  rw [commonIndentation, hlines, hindent]

theorem margin_eq (hrows : ∀ r ∈ rows, IsRow r) :
    margin rows = ((rows.filter fun r => !isBlank r).map indentation).min?.getD 0 := by
  have h := commonIndentation_flatten_append hrows (t := []) rfl
  rwa [List.append_nil] at h

/-- No row with content is indented by less than the margin. -/
theorem margin_le (hrows : ∀ r ∈ rows, IsRow r) (hr : r ∈ rows) (hcontent : isBlank r = false) :
    margin rows ≤ indentation r := by
  rw [margin_eq hrows]
  have hmem : indentation r ∈ (rows.filter fun r => !isBlank r).map indentation :=
    List.mem_map_of_mem (List.mem_filter.2 ⟨hr, by simp [hcontent]⟩)
  cases hmin : ((rows.filter fun r => !isBlank r).map indentation).min? with
  | none =>
    rw [List.min?_eq_none_iff] at hmin
    rw [hmin] at hmem
    exact absurd hmem List.not_mem_nil
  | some m => exact (List.min?_eq_some_iff.1 hmin).2 _ hmem

/-- If there is content, some row is indented by the margin. -/
theorem exists_margin_eq (hrows : ∀ r ∈ rows, IsRow r) (hex : ∃ r ∈ rows, isBlank r = false) :
    ∃ r ∈ rows, isBlank r = false ∧ indentation r = margin rows := by
  rw [margin_eq hrows]
  obtain ⟨r, hr, hcontent⟩ := hex
  cases hmin : ((rows.filter fun r => !isBlank r).map indentation).min? with
  | none =>
    rw [List.min?_eq_none_iff, List.map_eq_nil_iff, List.filter_eq_nil_iff] at hmin
    exact absurd (by simpa using hmin r hr) (Bool.eq_false_iff.1 hcontent)
  | some m =>
    obtain ⟨r', hr', hm⟩ := List.mem_map.1 (List.min?_eq_some_iff.1 hmin).1
    obtain ⟨hmem, hcontent'⟩ := List.mem_filter.1 hr'
    exact ⟨r', hmem, by simpa using hcontent', hm⟩

/-- Without content there is no margin. -/
theorem margin_of_isBlank (hrows : ∀ r ∈ rows, IsRow r) (hblank : ∀ r ∈ rows, isBlank r = true) :
    margin rows = 0 := by
  have hfilter : (rows.filter fun r => !isBlank r) = [] :=
    List.filter_eq_nil_iff.2 fun r hr => by simp [hblank r hr]
  rw [margin_eq hrows, hfilter]
  rfl

end Margin

/-! ## The end of the text -/

theorem dropBlankEnd_of_newline_not_mem (h : '\n' ∉ t) : dropBlankEnd t = t := by
  simp [dropBlankEnd, h]

/-- White space behind the last line break is dropped. -/
theorem dropBlankEnd_append (x : List Char) (ht : isBlank t = true) (hno : '\n' ∉ t) :
    dropBlankEnd (x ++ ['\n'] ++ t) = x ++ ['\n'] := by
  have htail : ((x ++ ['\n'] ++ t).reverse.takeWhile (· ≠ '\n')).reverse = t := by
    have hall : ∀ c ∈ t.reverse, decide (c ≠ '\n') = true := by
      intro c hc
      rw [decide_eq_true_eq]
      rintro rfl
      exact hno (List.mem_reverse.1 hc)
    rw [List.reverse_append, List.takeWhile_append_of_pos hall, List.reverse_concat,
      List.takeWhile_cons_of_neg (by simp), List.append_nil, List.reverse_reverse]
  rw [dropBlankEnd]
  simp only [htail]
  rw [if_pos (by simp [ht]), List.length_append, Nat.add_sub_cancel, List.take_left]

/-- What rows leave ends with a break, if anything is left. -/
theorem exists_flatMap_unindentLine (hrows : ∀ r ∈ rows, IsRow r) (m : Nat)
    (hne : ∃ r ∈ rows, unindentLine m r ≠ []) :
    ∃ x, rows.flatMap (unindentLine m) = x ++ ['\n'] := by
  induction rows with
  | nil =>
    obtain ⟨r, hr, -⟩ := hne
    exact absurd hr List.not_mem_nil
  | cons r rows ih =>
    obtain ⟨hr, htail⟩ := List.forall_mem_cons.1 hrows
    rw [List.flatMap_cons]
    by_cases hleft : ∃ r ∈ rows, unindentLine m r ≠ []
    · obtain ⟨x, hx⟩ := ih htail hleft
      exact ⟨unindentLine m r ++ x, by rw [hx, List.append_assoc]⟩
    · have hnil : rows.flatMap (unindentLine m) = [] := List.flatMap_eq_nil_iff.2 fun r hr => by
        by_contra hleft'
        exact hleft ⟨r, hr, hleft'⟩
      rw [hnil, List.append_nil]
      obtain ⟨r', hr', hleft'⟩ := hne
      rcases List.mem_cons.1 hr' with rfl | hr'
      · exact (eq_nil_or_exists_of_unindentLine hr m).resolve_left hleft'
      · exact absurd ⟨r', hr', hleft'⟩ hleft

/-- A row with content is not gone, and without content no row is. -/
theorem exists_unindentLine_ne_nil (hrows : ∀ r ∈ rows, IsRow r) (hne : rows ≠ []) :
    ∃ r ∈ rows, unindentLine (margin rows) r ≠ [] := by
  by_cases hex : ∃ r ∈ rows, isBlank r = false
  · obtain ⟨r, hr, hcontent⟩ := hex
    refine ⟨r, hr, fun hnil => ?_⟩
    have hblank := (unindentLine_suffix (margin rows) r).2
    rw [hnil, hcontent] at hblank
    exact absurd hblank (by decide)
  · obtain ⟨r, tail, rfl⟩ := List.exists_cons_of_ne_nil hne
    have hblank : ∀ r' ∈ r :: tail, isBlank r' = true := by simpa using hex
    refine ⟨r, List.mem_cons_self, ?_⟩
    obtain ⟨body, rfl, -⟩ := hrows r List.mem_cons_self
    rw [margin_of_isBlank hrows hblank, unindentLine_zero]
    simp

/-- **A text block keeps of its rows what lies beyond the margin.** -/
theorem stripIndentation_flatten (hrows : ∀ r ∈ rows, IsRow r) (hne : rows ≠ [])
    (ht : isBlank t = true) (hno : '\n' ∉ t) :
    stripIndentation (rows.flatten ++ t) = rows.flatMap (unindentLine (margin rows)) := by
  have hmargin : commonIndentation (rows.flatten ++ t) = margin rows := by
    rw [commonIndentation_flatten_append hrows ht, margin_eq hrows]
  have hend : isBlank ((linesWithBreaks t).flatMap (unindentLine (margin rows))) = true ∧
      '\n' ∉ (linesWithBreaks t).flatMap (unindentLine (margin rows)) := by
    cases t with
    | nil => exact ⟨rfl, List.not_mem_nil⟩
    | cons c t =>
      rw [linesWithBreaks_of_newline_not_mem hno (by simp), List.flatMap_singleton]
      obtain ⟨hsuffix, hblank⟩ := unindentLine_suffix (margin rows) (c :: t)
      exact ⟨hblank.trans ht, fun h => hno (hsuffix.mem h)⟩
  obtain ⟨x, hx⟩ :=
    exists_flatMap_unindentLine hrows _ (exists_unindentLine_ne_nil hrows hne)
  rw [stripIndentation, hmargin, linesWithBreaks_flatten_append hrows, List.map_append,
    List.flatten_append, ← List.flatMap_def, ← List.flatMap_def, hx,
    dropBlankEnd_append x hend.1 hend.2]

/-- A block without rows is what stands in front of its closing delimiter. -/
theorem stripIndentation_of_isBlank (ht : isBlank t = true) (hno : '\n' ∉ t) :
    stripIndentation t = t := by
  have hrows : ∀ r ∈ ([] : List (List Char)), IsRow r := nofun
  have hmargin : commonIndentation t = 0 := commonIndentation_flatten_append hrows ht
  have hzero : unindentLine 0 = id := funext unindentLine_zero
  rw [stripIndentation, hmargin, hzero, List.map_id, flatten_linesWithBreaks,
    dropBlankEnd_of_newline_not_mem hno]

/-! ## Rows that move -/

/-- A row of a text, and whether it moves when the text is indented. -/
structure Row where
  text : List Char
  moves : Bool
  deriving DecidableEq, Repr

/-- Rows of which nothing depends on how far they are moved. -/
inductive Steady (rows : List Row) : Prop
  /-- Nothing moves, and there is no content for a margin. -/
  | blank : rows ≠ [] → (∀ r ∈ rows, isBlank r.text = true ∧ r.moves = false) → Steady rows
  /-- What does not move is no longer, its break included, than what all content is indented by. -/
  | content : (∃ r ∈ rows, isBlank r.text = false) →
      (∀ r ∈ rows, r.moves = false → isBlank r.text = true ∧
        ∀ r' ∈ rows, isBlank r'.text = false → byteSize r.text ≤ indentation r'.text) →
      Steady rows

theorem not_steady_nil : ¬Steady [] := by
  rintro (⟨hne, -⟩ | ⟨⟨r, hr, -⟩, -⟩)
  · exact hne rfl
  · exact List.not_mem_nil hr

namespace Row

/-- The spaces in front of a row that is moved. -/
def lead (r : Row) (k : Nat) : List Char := List.replicate (if r.moves then k else 0) ' '

/-- A row that is moved by spaces. -/
def shift (k : Nat) (r : Row) : List Char := r.lead k ++ r.text

/-- What is left of rows that are moved by spaces. -/
def stripped (rows : List Row) (k : Nat) : List Char :=
  rows.flatMap fun r => unindentLine (margin (rows.map (shift k))) (r.shift k)

theorem byteSize_flatMap_le {f g : Row → List Char} {rows : List Row}
    (hle : ∀ r ∈ rows, byteSize (f r) ≤ byteSize (g r)) :
    byteSize (rows.flatMap f) ≤ byteSize (rows.flatMap g) := by
  induction rows with
  | nil => exact Nat.le_refl 0
  | cons r rows ih =>
    obtain ⟨hr, hle⟩ := List.forall_mem_cons.1 hle
    rw [List.flatMap_cons, List.flatMap_cons, byteSize_append, byteSize_append]
    exact Nat.add_le_add hr (ih hle)

theorem byteSize_flatMap_lt {f g : Row → List Char} {rows : List Row}
    (hle : ∀ r ∈ rows, byteSize (f r) ≤ byteSize (g r)) {r : Row} (hr : r ∈ rows)
    (hlt : byteSize (f r) < byteSize (g r)) :
    byteSize (rows.flatMap f) < byteSize (rows.flatMap g) := by
  obtain ⟨front, back, rfl⟩ := List.append_of_mem hr
  simp only [List.forall_mem_append, List.forall_mem_cons] at hle
  have hfront := byteSize_flatMap_le hle.1
  have hback := byteSize_flatMap_le hle.2.2
  simp only [List.flatMap_append, List.flatMap_cons, byteSize_append]
  omega

theorem byteSize_le_flatMap {r : Row} {rows : List Row} (hr : r ∈ rows) (f : Row → List Char) :
    byteSize (f r) ≤ byteSize (rows.flatMap f) := by
  obtain ⟨front, back, rfl⟩ := List.append_of_mem hr
  simp only [List.flatMap_append, List.flatMap_cons, byteSize_append]
  omega

theorem isBlank_lead (r : Row) (k : Nat) : isBlank (r.lead k) = true := isBlank_spaces _

theorem shift_of_not_moves {r : Row} (h : r.moves = false) (k : Nat) : r.shift k = r.text := by
  simp [shift, lead, h]

theorem byteSize_lead {r : Row} (h : r.moves = true) (k : Nat) : byteSize (r.lead k) = k := by
  simp [lead, h, Scan.byteSize_replicate_space]

/-- A row that is moved is cut where it was. -/
theorem unindentLine_shift {r : Row} (h : r.moves = true) (m k : Nat) :
    unindentLine (k + m) (r.shift k) = unindentLine m r.text := by
  have hcut := unindentLine_append_of_isBlank (r.isBlank_lead k) m r.text
  rwa [byteSize_lead h] at hcut

/-- A row that is moved beyond the margin keeps the spaces behind it. -/
theorem byteSize_unindentLine_shift {r : Row} (h : r.moves = true) {m k : Nat} (hle : m ≤ k) :
    byteSize (unindentLine m (r.shift k)) = k - m + byteSize r.text := by
  have hsplit : r.shift k = r.lead m ++ (r.lead (k - m) ++ r.text) := by
    simp only [shift, lead, h, if_true, ← List.append_assoc, List.replicate_append_replicate]
    rw [Nat.add_sub_cancel' hle]
  have hcut := unindentLine_append_of_isBlank (r.isBlank_lead m) 0 (r.lead (k - m) ++ r.text)
  rw [byteSize_lead h, Nat.add_zero, unindentLine_zero] at hcut
  rw [hsplit, hcut, byteSize_append, byteSize_lead h]

theorem isBlank_shift (r : Row) (k : Nat) : isBlank (r.shift k) = isBlank r.text := by
  rw [shift, isBlank_append, isBlank_lead, Bool.true_and]

theorem isRow_shift {r : Row} (h : IsRow r.text) (k : Nat) : IsRow (r.shift k) := by
  obtain ⟨body, hbody, hno⟩ := h
  exact ⟨r.lead k ++ body, by rw [shift, hbody, List.append_assoc],
    List.not_mem_append (newline_not_mem_spaces _) hno⟩

theorem isBlank_of_not_moves {r : Row} {rows : List Row}
    (hmoves : ∀ r ∈ rows, isBlank r.text = false → r.moves = true) (hr : r ∈ rows)
    (hstill : r.moves = false) : isBlank r.text = true := by
  by_contra hcontent
  rw [hmoves r hr (Bool.eq_false_iff.2 hcontent)] at hstill
  exact absurd hstill (by decide)

section Shifted

variable {rows : List Row} (hrows : ∀ r ∈ rows, IsRow r.text)
include hrows

theorem isRow_of_mem_shifted (k : Nat) : ∀ x ∈ rows.map (shift k), IsRow x := by
  intro x hx
  obtain ⟨r, hr, rfl⟩ := List.mem_map.1 hx
  exact isRow_shift (hrows r hr) k

theorem isRow_of_mem_texts : ∀ x ∈ rows.map text, IsRow x := by
  intro x hx
  obtain ⟨r, hr, rfl⟩ := List.mem_map.1 hx
  exact hrows r hr

/-- Rows with content are not indented by less than the margin, however far they are moved. -/
theorem margin_shift_le {r : Row} (hr : r ∈ rows) (hcontent : isBlank r.text = false) (k : Nat) :
    margin (rows.map (shift k)) ≤ byteSize (r.lead k) + indentation r.text := by
  have hle := margin_le (isRow_of_mem_shifted hrows k) (List.mem_map_of_mem hr)
    (by rw [isBlank_shift, hcontent])
  rwa [shift, indentation_append_of_isBlank (r.isBlank_lead k)] at hle

/-- **The margin moves with the content.** -/
theorem margin_shift (hmoves : ∀ r ∈ rows, isBlank r.text = false → r.moves = true)
    (hex : ∃ r ∈ rows, isBlank r.text = false) (k : Nat) :
    margin (rows.map (shift k)) = k + margin (rows.map text) := by
  apply Nat.le_antisymm
  · obtain ⟨x, hx, hcontent, hmargin⟩ := exists_margin_eq (isRow_of_mem_texts hrows)
      (by simpa using hex)
    obtain ⟨r, hr, rfl⟩ := List.mem_map.1 hx
    have hle := margin_shift_le hrows hr hcontent k
    rwa [byteSize_lead (hmoves r hr hcontent), hmargin] at hle
  · obtain ⟨x, hx, hcontent, hmargin⟩ := exists_margin_eq (isRow_of_mem_shifted hrows k)
      (by simpa [isBlank_shift] using hex)
    obtain ⟨r, hr, rfl⟩ := List.mem_map.1 hx
    rw [isBlank_shift] at hcontent
    have hle := margin_le (isRow_of_mem_texts hrows) (List.mem_map_of_mem hr) hcontent
    rw [← hmargin, shift, indentation_append_of_isBlank (r.isBlank_lead k),
      byteSize_lead (hmoves r hr hcontent)]
    omega

/-- Without content nothing is cut off. -/
theorem stripped_of_isBlank (hblank : ∀ r ∈ rows, isBlank r.text = true) (k : Nat) :
    stripped rows k = rows.flatMap (shift k) := by
  have hmargin : margin (rows.map (shift k)) = 0 :=
    margin_of_isBlank (isRow_of_mem_shifted hrows k) fun x hx => by
      obtain ⟨r, hr, rfl⟩ := List.mem_map.1 hx
      rw [isBlank_shift, hblank r hr]
  rw [stripped, hmargin]
  exact List.flatMap_congr fun r _ => unindentLine_zero _

/-- **Steady rows leave the same, however far they are moved.** -/
theorem stripped_of_steady (h : Steady rows) (k : Nat) : stripped rows k = stripped rows 0 := by
  cases h with
  | blank hne hstill =>
    have hblank : ∀ r ∈ rows, isBlank r.text = true := fun r hr => (hstill r hr).1
    rw [stripped_of_isBlank hrows hblank, stripped_of_isBlank hrows hblank]
    refine List.flatMap_congr fun r hr => ?_
    rw [shift_of_not_moves (hstill r hr).2, shift_of_not_moves (hstill r hr).2]
  | content hex hstill =>
    have hmoves : ∀ r ∈ rows, isBlank r.text = false → r.moves = true := fun r hr hcontent => by
      by_contra hnot
      rw [(hstill r hr (Bool.eq_false_iff.2 hnot)).1] at hcontent
      exact absurd hcontent (by decide)
    obtain ⟨x, hx, hcontent, hmargin⟩ := exists_margin_eq (isRow_of_mem_texts hrows)
      (by simpa using hex)
    obtain ⟨least, hleast, rfl⟩ := List.mem_map.1 hx
    rw [stripped, stripped, margin_shift hrows hmoves hex, margin_shift hrows hmoves hex]
    refine List.flatMap_congr fun r hr => ?_
    cases hmove : r.moves with
    | true => rw [unindentLine_shift hmove, unindentLine_shift hmove]
    | false =>
      obtain ⟨hblank, hle⟩ := hstill r hr hmove
      have hgone : byteSize r.text ≤ margin (rows.map text) := by
        rw [← hmargin]
        exact hle least hleast hcontent
      rw [shift_of_not_moves hmove, shift_of_not_moves hmove,
        unindentLine_of_byteSize_le hblank (by omega),
        unindentLine_of_byteSize_le hblank (by omega)]

/-- If something with content does not move, what moves grows beyond every bound. -/
theorem moves_of_stripped (h : ∀ k, stripped rows k = stripped rows 0) {mover : Row}
    (hmover : mover ∈ rows) (hmove : mover.moves = true) :
    ∀ r ∈ rows, isBlank r.text = false → r.moves = true := by
  intro r hr hcontent
  by_contra hnot
  rw [Bool.not_eq_true] at hnot
  -- the margin stays below a bound, so beyond it each space of the mover is left
  obtain ⟨k, hk⟩ : ∃ k, k = indentation r.text + byteSize (stripped rows 0) + 1 := ⟨_, rfl⟩
  have hmargin : margin (rows.map (shift k)) ≤ indentation r.text := by
    have hle := margin_shift_le hrows hr hcontent k
    simpa [lead, hnot] using hle
  have hleft := byteSize_le_flatMap hmover fun r =>
    unindentLine (margin (rows.map (shift k))) (r.shift k)
  rw [byteSize_unindentLine_shift hmove (by omega), ← stripped, h k] at hleft
  omega

/-- A blank row that does not move and is longer than the margin is left or gone, depending on how
far the others are moved. -/
theorem byteSize_le_margin_of_stripped (h : ∀ k, stripped rows k = stripped rows 0)
    (hmoves : ∀ r ∈ rows, isBlank r.text = false → r.moves = true)
    (hex : ∃ r ∈ rows, isBlank r.text = false) {r : Row} (hr : r ∈ rows)
    (hstill : r.moves = false) : byteSize r.text ≤ margin (rows.map text) := by
  by_contra hlt
  obtain ⟨few, hfew⟩ : ∃ few, byteSize r.text = few + margin (rows.map text) + 1 :=
    ⟨byteSize r.text - 1 - margin (rows.map text), by omega⟩
  obtain ⟨many, hmany⟩ : ∃ many, many = byteSize (rows.flatMap text) := ⟨_, rfl⟩
  have hgone {r : Row} (hr : r ∈ rows) (hstill : r.moves = false) :
      unindentLine (many + margin (rows.map text)) (r.shift many) = [] := by
    have hle := byteSize_le_flatMap hr text
    rw [shift_of_not_moves hstill]
    exact unindentLine_of_byteSize_le (isBlank_of_not_moves hmoves hr hstill) (by omega)
  have hsize : byteSize (stripped rows many) < byteSize (stripped rows few) := by
    rw [stripped, stripped, margin_shift hrows hmoves hex, margin_shift hrows hmoves hex]
    refine byteSize_flatMap_lt (fun r' hr' => ?_) hr ?_
    · cases hmove : r'.moves with
      | true =>
        have hsame := (unindentLine_shift hmove (margin (rows.map text)) many).trans
          (unindentLine_shift hmove _ few).symm
        exact Nat.le_of_eq (congrArg byteSize hsame)
      | false =>
        rw [hgone hr' hmove]
        exact Nat.zero_le _
    · rw [hgone hr hstill, shift_of_not_moves hstill,
        unindentLine_of_byteSize_eq (hrows r hr) (isBlank_of_not_moves hmoves hr hstill) hfew]
      decide
  rw [h many, h few] at hsize
  exact absurd hsize (Nat.lt_irrefl _)

/-- **Rows are steady if they leave the same, however far they are moved**, as long as something
moves where there is content. -/
theorem steady_of_stripped (hne : rows ≠ [])
    (hmover : (∃ r ∈ rows, isBlank r.text = false) → ∃ r ∈ rows, r.moves = true)
    (h : ∀ k, stripped rows k = stripped rows 0) : Steady rows := by
  by_cases hex : ∃ r ∈ rows, isBlank r.text = false
  · obtain ⟨mover, hmem, hmove⟩ := hmover hex
    have hmoves := moves_of_stripped hrows h hmem hmove
    refine .content hex fun r hr hstill => ⟨isBlank_of_not_moves hmoves hr hstill, ?_⟩
    intro r' hr' hcontent
    exact Nat.le_trans (byteSize_le_margin_of_stripped hrows h hmoves hex hr hstill)
      (margin_le (isRow_of_mem_texts hrows) (List.mem_map_of_mem hr') hcontent)
  · have hblank : ∀ r ∈ rows, isBlank r.text = true := by simpa using hex
    refine .blank hne fun r hr => ⟨hblank r hr, ?_⟩
    by_contra hmove
    rw [Bool.not_eq_false] at hmove
    have hsize : byteSize (rows.flatMap (shift 0)) < byteSize (rows.flatMap (shift 1)) := by
      refine byteSize_flatMap_lt (fun r' _ => ?_) hr ?_
      · simp only [shift, byteSize_append, lead, Scan.byteSize_replicate_space]
        split <;> omega
      · simp only [shift, byteSize_append, byteSize_lead hmove]
        omega
    rw [← stripped_of_isBlank hrows hblank, ← stripped_of_isBlank hrows hblank, h 1] at hsize
    exact absurd hsize (Nat.lt_irrefl _)

/-- **What is left of rows is the same, however far they are moved, exactly if they are steady.** -/
theorem stripped_eq_iff_steady (hne : rows ≠ [])
    (hmover : (∃ r ∈ rows, isBlank r.text = false) → ∃ r ∈ rows, r.moves = true) :
    (∀ k, stripped rows k = stripped rows 0) ↔ Steady rows :=
  ⟨steady_of_stripped hrows hne hmover, stripped_of_steady hrows⟩

end Shifted

end Row

end Lexer

end SnippetRunner
