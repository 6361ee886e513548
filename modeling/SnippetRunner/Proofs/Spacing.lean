import Mathlib.Logic.Relation
import SnippetRunner.Proofs.Lookahead
import SnippetRunner.Proofs.Masking
import SnippetRunner.Statement.Fragment

/-!
# White space around line breaks

Two stretches of white space over the same line breaks (`Gap`) may stand for one another in the
text of a statement; texts that come from one another in this way are `Realigned`.

* They have the same lines, but for white space at the ends of these
  (`Replaced.trimmedLines_trim`), and are statements or none together (`isSkipped_trim_eq`).
* Their code is the same but for white space (`replaced_masked`). So they start with an
  initializer together (`opensInitializer_eq`), and go on behind a line break together
  (`goesOn_eq_of_realigned`).
-/

namespace SnippetRunner

open Text Scan

namespace Text

/-- The lines of a text without white space at their ends. -/
def trimmedLines (cs : List Char) : List (List Char) := (splitAtEach (· = '\n') cs).map trim

/-! ## Replacing white space -/

/-- Texts that differ in one part. `P` says which parts may stand for one another. -/
inductive Replaced (P : List Char → List Char → Prop) : List Char → List Char → Prop
  | intro (a b : List Char) {u v : List Char} : P u v → Replaced P (a ++ u ++ b) (a ++ v ++ b)

/-- Stretches of white space. -/
structure Spaced (u v : List Char) : Prop where
  isBlank_left : isBlank u = true
  isBlank_right : isBlank v = true
  ne_nil_left : u ≠ []
  ne_nil_right : v ≠ []

/-- Stretches of white space over the same line breaks, of which there is one at least. A space at
the start of one is at the start of both. -/
structure Gap (u v : List Char) : Prop where
  isBlank_left : isBlank u = true
  isBlank_right : isBlank v = true
  newlines_eq : newlines u = newlines v
  mem_left : '\n' ∈ u
  head_iff : u.head? = some ' ' ↔ v.head? = some ' '

/-- Texts that differ in gaps. -/
def Realigned : List Char → List Char → Prop := Relation.ReflTransGen (Replaced Gap)

section Replaced

variable {P : List Char → List Char → Prop} {t t' u v : List Char}

theorem Gap.mem_right (h : Gap u v) : '\n' ∈ v := by
  have hpos : 0 < newlines u := List.count_pos_iff.2 h.mem_left
  rw [h.newlines_eq] at hpos
  exact List.count_pos_iff.1 hpos

theorem Gap.spaced (h : Gap u v) : Spaced u v :=
  ⟨h.isBlank_left, h.isBlank_right, List.ne_nil_of_mem h.mem_left, List.ne_nil_of_mem h.mem_right⟩

theorem Gap.symm (h : Gap u v) : Gap v u :=
  ⟨h.isBlank_right, h.isBlank_left, h.newlines_eq.symm, h.mem_right, h.head_iff.symm⟩

theorem Replaced.symm (h : Replaced Gap t t') : Replaced Gap t' t := by
  obtain ⟨a, b, hgap⟩ := h
  exact .intro a b hgap.symm

theorem Replaced.append (h : Replaced P t t') (s : List Char) : Replaced P (t ++ s) (t' ++ s) := by
  obtain ⟨a, b, hpart⟩ := h
  rw [List.append_assoc _ b, List.append_assoc _ b]
  exact .intro a (b ++ s) hpart

theorem Replaced.isBlank_eq (h : Replaced Spaced t t') : isBlank t = isBlank t' := by
  obtain ⟨a, b, hpart⟩ := h
  simp only [isBlank_append, hpart.isBlank_left, hpart.isBlank_right]

theorem Replaced.spaced (h : Replaced Gap t t') : Replaced Spaced t t' := by
  obtain ⟨a, b, hgap⟩ := h
  exact .intro a b hgap.spaced

/-- Trimmed, the texts are the same or differ between two parts that are not trimmed away. -/
theorem Replaced.trim (h : Replaced P t t') (hP : ∀ {u v}, P u v → Spaced u v) :
    Text.trim t = Text.trim t' ∨ ∃ a b u v, P u v ∧ isBlank a = false ∧ isBlank b = false ∧
      Text.trim t = trimStart a ++ u ++ trimEnd b ∧
      Text.trim t' = trimStart a ++ v ++ trimEnd b := by
  obtain ⟨a, b, hpart⟩ := h
  rename_i u v
  have hu := (hP hpart).isBlank_left
  have hv := (hP hpart).isBlank_right
  cases ha : isBlank a with
  | true =>
    have hlead {w : List Char} (hw : isBlank w = true) :
        Text.trim (a ++ w ++ b) = Text.trim b := by
      rw [List.append_assoc, trim_append_of_isBlank_left ha, trim_append_of_isBlank_left hw]
    exact .inl ((hlead hu).trans (hlead hv).symm)
  | false =>
    cases hb : isBlank b with
    | true =>
      have htail {w : List Char} (hw : isBlank w = true) :
          Text.trim (a ++ w ++ b) = Text.trim a := by
        rw [trim_append_of_isBlank_right hb, trim_append_of_isBlank_right hw]
      exact .inl ((htail hu).trans (htail hv).symm)
    | false =>
      exact .inr ⟨a, b, u, v, hpart, ha, hb, trim_append_append ha hb u, trim_append_append ha hb v⟩

end Replaced

/-! ## Lines -/

theorem trimmedLines_append_newline (x y : List Char) :
    trimmedLines (x ++ '\n' :: y) = trimmedLines x ++ trimmedLines y := by
  rw [trimmedLines, splitAtEach_append _ rfl, List.map_append, trimmedLines, trimmedLines]

theorem trimmedLines_of_newline_not_mem {x : List Char} (h : '\n' ∉ x) :
    trimmedLines x = [trim x] := by
  rw [trimmedLines, splitAtEach_of_forall]
  · rfl
  · intro c hc
    simp only [decide_eq_false_iff_not]
    rintro rfl
    exact h hc

/-- White space at the end of a line is trimmed away. -/
theorem trimmedLines_append_of_isBlank {s : List Char} (hs : isBlank s = true) (hbreak : '\n' ∉ s)
    (x : List Char) : trimmedLines (x ++ s) = trimmedLines x := by
  induction hn : x.length using Nat.strongRecOn generalizing x with
  | _ n ih =>
    by_cases hx : '\n' ∈ x
    · obtain ⟨l, y, rfl, -⟩ := List.eq_append_cons_of_mem hx
      have hy := ih y.length (by rw [← hn]; simp; omega) y rfl
      rw [List.append_assoc, List.cons_append, trimmedLines_append_newline,
        trimmedLines_append_newline, hy]
    · have hline : '\n' ∉ x ++ s := by
        rw [List.mem_append, not_or]
        exact ⟨hx, hbreak⟩
      rw [trimmedLines_of_newline_not_mem hline, trimmedLines_of_newline_not_mem hx,
        trim_append_of_isBlank_right hs]

/-- White space at the start of a line is trimmed away. -/
theorem trimmedLines_append_of_isBlank_left {s : List Char} (hs : isBlank s = true)
    (hbreak : '\n' ∉ s) (y : List Char) : trimmedLines (s ++ y) = trimmedLines y := by
  by_cases hy : '\n' ∈ y
  · obtain ⟨l, z, rfl, hl⟩ := List.eq_append_cons_of_mem hy
    have hline : '\n' ∉ s ++ l := by
      rw [List.mem_append, not_or]
      exact ⟨hbreak, hl⟩
    rw [← List.append_assoc, trimmedLines_append_newline, trimmedLines_append_newline,
      trimmedLines_of_newline_not_mem hline, trimmedLines_of_newline_not_mem hl,
      trim_append_of_isBlank_left hs]
  · have hline : '\n' ∉ s ++ y := by
      rw [List.mem_append, not_or]
      exact ⟨hbreak, hy⟩
    rw [trimmedLines_of_newline_not_mem hline, trimmedLines_of_newline_not_mem hy,
      trim_append_of_isBlank_left hs]

/-- A stretch of white space is worth its line breaks. -/
theorem trimmedLines_gap {u : List Char} (hu : isBlank u = true) {n : Nat}
    (hn : newlines u = n + 1) (a b : List Char) :
    trimmedLines (a ++ u ++ b) = trimmedLines a ++ (List.replicate n [] ++ trimmedLines b) := by
  induction n generalizing a u with
  | zero =>
    have hmem : '\n' ∈ u := List.count_pos_iff.1 (by rw [← newlines, hn]; exact Nat.one_pos)
    obtain ⟨s, u, rfl, hs⟩ := List.eq_append_cons_of_mem hmem
    have hrest : '\n' ∉ u := by
      refine List.count_eq_zero.1 ?_
      have hnone := List.count_eq_zero.2 hs
      simp only [newlines, List.count_append, List.count_cons_self] at hn
      omega
    rw [isBlank_append, isBlank_cons, Bool.and_eq_true, Bool.and_eq_true] at hu
    have hsplit : a ++ (s ++ '\n' :: u) ++ b = (a ++ s) ++ '\n' :: (u ++ b) := by simp
    rw [hsplit, trimmedLines_append_newline, trimmedLines_append_of_isBlank hu.1 hs,
      trimmedLines_append_of_isBlank_left hu.2.2 hrest]
    rfl
  | succ n ih =>
    have hmem : '\n' ∈ u := List.count_pos_iff.1 (by rw [← newlines, hn]; exact Nat.succ_pos _)
    obtain ⟨s, u, rfl, hs⟩ := List.eq_append_cons_of_mem hmem
    have hrest : newlines u = n + 1 := by
      have hnone := List.count_eq_zero.2 hs
      simp only [newlines, List.count_append, List.count_cons_self] at hn ⊢
      omega
    rw [isBlank_append, isBlank_cons, Bool.and_eq_true, Bool.and_eq_true] at hu
    have hsplit : a ++ (s ++ '\n' :: u) ++ b = (a ++ s) ++ '\n' :: ([] ++ u ++ b) := by simp
    rw [hsplit, trimmedLines_append_newline, trimmedLines_append_of_isBlank hu.1 hs,
      ih hu.2.2 hrest]
    rfl

theorem Gap.trimmedLines_eq {u v : List Char} (h : Gap u v) (a b : List Char) :
    trimmedLines (a ++ u ++ b) = trimmedLines (a ++ v ++ b) := by
  obtain ⟨n, hn⟩ : ∃ n, newlines u = n + 1 :=
    Nat.exists_eq_succ_of_ne_zero (Nat.ne_of_gt (List.count_pos_iff.2 h.mem_left))
  rw [trimmedLines_gap h.isBlank_left hn, trimmedLines_gap h.isBlank_right (h.newlines_eq ▸ hn)]

theorem Replaced.trimmedLines_trim {t t' : List Char} (h : Replaced Gap t t') :
    trimmedLines (Text.trim t) = trimmedLines (Text.trim t') := by
  obtain heq | ⟨a, b, u, v, hgap, -, -, ht, ht'⟩ := h.trim Gap.spaced
  · rw [heq]
  · rw [ht, ht', hgap.trimmedLines_eq]

end Text

namespace Fragment

/-! ## Statements and other texts -/

/-- A word with no white space but a space at its end stands in front of a gap or not, whatever else
the gap is. -/
theorem isPrefixOf_append_gap {u v : List Char} (h : Gap u v) (word a b : List Char)
    (hword : word.all (fun c => !isSpace c) = true) :
    (word ++ [' ']).isPrefixOf (a ++ u ++ b) = (word ++ [' ']).isPrefixOf (a ++ v ++ b) := by
  induction a generalizing word with
  | nil =>
    obtain ⟨c, u', rfl⟩ : ∃ c u', u = c :: u' :=
      List.exists_cons_of_ne_nil (List.ne_nil_of_mem h.mem_left)
    obtain ⟨d, v', rfl⟩ : ∃ d v', v = d :: v' :=
      List.exists_cons_of_ne_nil (List.ne_nil_of_mem h.mem_right)
    have hc : isSpace c = true := ((Bool.and_eq_true _ _).mp h.isBlank_left).1
    have hd : isSpace d = true := ((Bool.and_eq_true _ _).mp h.isBlank_right).1
    cases word with
    | nil =>
      have hiff : c = ' ' ↔ d = ' ' := by simpa using h.head_iff
      by_cases hspace : c = ' '
      · simp [List.isPrefixOf, hspace, hiff.1 hspace]
      · have hother : d ≠ ' ' := fun e => hspace (hiff.2 e)
        simp [List.isPrefixOf, Ne.symm hspace, Ne.symm hother]
    | cons w word =>
      have hw : isSpace w = false := by simpa using ((Bool.and_eq_true _ _).mp hword).1
      have hne {e : Char} (he : isSpace e = true) : (w == e) = false := by
        rw [beq_eq_false_iff_ne]
        rintro rfl
        rw [hw] at he
        exact Bool.false_ne_true he
      simp [List.isPrefixOf, hne hc, hne hd]
  | cons e a ih =>
    cases word with
    | nil => simp [List.isPrefixOf]
    | cons w word =>
      rw [List.all_cons, Bool.and_eq_true] at hword
      have hrest := ih word hword.2
      simp only [List.cons_append, List.isPrefixOf] at hrest ⊢
      rw [hrest]

theorem isSkipped_trim_eq {t t' : List Char} (h : Replaced Gap t t') :
    isSkipped (trim t) = isSkipped (trim t') := by
  obtain heq | ⟨a, b, u, v, hgap, ha, -, ht, ht'⟩ := h.trim Gap.spaced
  · rw [heq]
  · obtain ⟨c, x, hx, -⟩ := exists_trimStart_eq ha
    have himport := isPrefixOf_append_gap hgap "import".toList (trimStart a) (trimEnd b) (by decide)
    have hpackage := isPrefixOf_append_gap hgap "package".toList (trimStart a) (trimEnd b)
      (by decide)
    have hhead (w : List Char) : (trimStart a ++ w ++ trimEnd b).head? = some c := by
      rw [hx]
      rfl
    rw [ht, ht', isSkipped, isSkipped, hhead, hhead]
    exact congrArg₂ (fun x y => x || y || _) himport hpackage

/-! ## Code -/

theorem isPlain_head?_of_isBlank {w : List Char} (hw : isBlank w = true) : IsPlain w.head? := by
  cases w with
  | nil => exact isPlain_none
  | cons c w => exact isPlain_of_isSpace ((Bool.and_eq_true _ _).mp hw).1

/-- The code in texts that differ in a gap is the same but for white space. -/
theorem replaced_masked {t t' : List Char} (h : Replaced Gap t t') :
    Replaced Spaced (masked t) (masked t') := by
  obtain ⟨a, b, hgap⟩ := h
  rename_i u v
  have hspaced := hgap.spaced
  have hhead {w : List Char} (hne : w ≠ []) (next : Option Char) : w.head?.or next = w.head? := by
    obtain ⟨c, w', rfl⟩ := List.exists_cons_of_ne_nil hne
    rfl
  have hu := isPlain_head?_of_isBlank hspaced.isBlank_left
  have hv := isPlain_head?_of_isBlank hspaced.isBlank_right
  obtain ⟨hmask, hmode⟩ := maskFrom_eq_of_isPlain hu hv .code a
  have hcode : ¬ (modeAfter .code v.head? a).IsHalfway :=
    not_isHalfway_modeAfter (by simp [Mode.IsHalfway]) hv a
  have hparts {w : List Char} (hne : w ≠ []) : masked (a ++ w ++ b) =
      maskFrom .code w.head? a ++ maskFrom (modeAfter .code w.head? a) (b.head?.or none) w ++
        maskFrom (modeAfter (modeAfter .code w.head? a) (b.head?.or none) w) none b := by
    rw [masked_eq_maskFrom, maskFrom_append, maskFrom_append, modeAfter_append, hhead hne]
  rw [hparts hspaced.ne_nil_left, hparts hspaced.ne_nil_right, hmask, hmode,
    modeAfter_of_isBlank hgap.isBlank_left hgap.mem_left hcode,
    modeAfter_of_isBlank hgap.isBlank_right hgap.mem_right hcode]
  exact .intro _ _ ⟨isBlank_maskFrom hgap.isBlank_left _ _, isBlank_maskFrom hgap.isBlank_right _ _,
    maskFrom_ne_nil hspaced.ne_nil_left _ _, maskFrom_ne_nil hspaced.ne_nil_right _ _⟩

theorem isSome_afterLead? (lead cs : List Char) :
    (afterLead? lead cs).isSome = lead.isPrefixOf cs := by
  induction lead generalizing cs with
  | nil => rfl
  | cons c lead ih =>
    cases cs with
    | nil => rfl
    | cons d cs =>
      by_cases h : c = d
      · simp [afterLead?, List.isPrefixOf, h, ih]
      · simp [afterLead?, List.isPrefixOf, h]

theorem ledBy_append_of_isBlank {u : List Char} (hu : isBlank u = true) (hne : u ≠ [])
    (b : List Char) : LedBy isSpace (u ++ b) := by
  obtain ⟨c, u, rfl⟩ := List.exists_cons_of_ne_nil hne
  exact ledBy_cons ((Bool.and_eq_true _ _).mp hu).1

/-- What a text ends with, if it is no white space, stands behind all white space. -/
theorem isSome_beforeTail?_append {tail : List Char}
    (htail : tail.all (fun c => !isSpace c) = true) {u : List Char} (hu : isBlank u = true)
    (hne : u ≠ []) (a b : List Char) :
    (beforeTail? tail (a ++ u ++ b)).isSome = (beforeTail? tail b).isSome := by
  have hreverse : isBlank u.reverse = true := by rwa [isBlank, List.all_reverse]
  have hsome (cs : List Char) :
      (beforeTail? tail cs).isSome = tail.reverse.isPrefixOf cs.reverse := by
    rw [beforeTail?, Option.isSome_map, isSome_afterLead?]
  have hsplit : (a ++ u ++ b).reverse = b.reverse ++ (u.reverse ++ a.reverse) := by simp
  rw [hsome, hsome, hsplit]
  exact isPrefixOf_append (by rwa [List.all_reverse])
    (ledBy_append_of_isBlank hreverse (by simpa using hne) _) _

theorem awaitsBody_trim_eq {code code' : List Char} (h : Replaced Spaced code code') :
    awaitsBody (trim code) = awaitsBody (trim code') := by
  obtain heq | ⟨a, b, u, v, hspaced, ha, hb, ht, ht'⟩ := h.trim id
  · rw [heq]
  · obtain ⟨y, d, hy, -⟩ := exists_trimEnd_eq hb
    have hword {w : List Char} (hw : isBlank w = true) (hne : w ≠ []) :
        (trimStart a ++ w ++ trimEnd b).takeWhile (fun c => isLetter c || isNumber c || c = '_') =
          (trimStart a).takeWhile (fun c => isLetter c || isNumber c || c = '_') := by
      rw [List.append_assoc]
      refine takeWhile_append (fun c hc => ?_) (ledBy_append_of_isBlank hw hne _) _
      have hpart := isIdentPart_of_isSpace hc
      simp only [isIdentPart, Bool.or_eq_false_iff] at hpart
      simp [hpart]
    have hlast (w : List Char) : (trimStart a ++ w ++ trimEnd b).getLast? = some d := by
      rw [hy, ← List.append_assoc, List.getLast?_concat]
    -- a word has no white space in it
    have hne {w : List Char} (hw : isBlank w = true) (hne : w ≠ []) (word : List Char)
        (hword : word.all (fun c => !isSpace c) = true) :
        trimStart a ++ w ++ trimEnd b ≠ word := by
      rintro rfl
      obtain ⟨c, w, rfl⟩ := List.exists_cons_of_ne_nil hne
      rw [isBlank_cons, Bool.and_eq_true] at hw
      simp [hw.1] at hword
    rw [ht, ht']
    have hleft := hne hspaced.isBlank_left hspaced.ne_nil_left
    have hright := hne hspaced.isBlank_right hspaced.ne_nil_right
    simp only [awaitsBody, hword hspaced.isBlank_left hspaced.ne_nil_left,
      hword hspaced.isBlank_right hspaced.ne_nil_right, hlast, hleft "else".toList (by decide),
      hright "else".toList (by decide), hleft "do".toList (by decide),
      hright "do".toList (by decide)]

theorem endsWithOperator_trim_eq {code code' : List Char} (h : Replaced Spaced code code') :
    endsWithOperator (trim code) = endsWithOperator (trim code') := by
  obtain heq | ⟨a, b, u, v, hspaced, -, hb, ht, ht'⟩ := h.trim id
  · rw [heq]
  · obtain ⟨y, d, hy, -⟩ := exists_trimEnd_eq hb
    have hlast (w : List Char) : (trimStart a ++ w ++ trimEnd b).getLast? = some d := by
      rw [hy, ← List.append_assoc, List.getLast?_concat]
    have hsome (tail : List Char) (htail : tail.all (fun c => !isSpace c) = true) :
        (beforeTail? tail (trimStart a ++ u ++ trimEnd b)).isNone =
          (beforeTail? tail (trimStart a ++ v ++ trimEnd b)).isNone := by
      rw [← Option.not_isSome, ← Option.not_isSome,
        isSome_beforeTail?_append htail hspaced.isBlank_left hspaced.ne_nil_left,
        isSome_beforeTail?_append htail hspaced.isBlank_right hspaced.ne_nil_right]
    simp only [ht, ht', endsWithOperator, hlast, hsome "++".toList (by decide),
      hsome "--".toList (by decide)]

/-- Whether the first block of some code is an initializer or the body of a lambda. -/
def opensInitializer (code : List Char) : Bool :=
  code.contains '{' &&
    let before := trimEnd (code.takeWhile (· ≠ '{'))
    before.getLast? = some '=' || (beforeTail? "->".toList before).isSome

theorem isInitializer_eq (read : List Char) :
    isInitializer read = opensInitializer (masked read) := rfl

theorem opensInitializer_eq {code code' : List Char} (h : Replaced Spaced code code') :
    opensInitializer code = opensInitializer code' := by
  obtain ⟨a, b, hspaced⟩ := h
  rename_i u v
  have hbrace {w : List Char} (hw : isBlank w = true) : '{' ∉ w := by
    intro hmem
    exact absurd (List.all_eq_true.1 hw '{' hmem) (by decide)
  have hu := hbrace hspaced.isBlank_left
  have hv := hbrace hspaced.isBlank_right
  have hcontains {w : List Char} (hw : '{' ∉ w) :
      (a ++ w ++ b).contains '{' = (a.contains '{' || b.contains '{') := by
    simp [hw]
  rw [opensInitializer, opensInitializer, hcontains hu, hcontains hv]
  by_cases ha : '{' ∈ a
  · obtain ⟨x, y, rfl, hx⟩ := List.eq_append_cons_of_mem ha
    have hfront (w : List Char) : (x ++ '{' :: y ++ w ++ b).takeWhile (· ≠ '{') = x := by
      rw [List.append_assoc, List.append_assoc, List.takeWhile_append_of_pos]
      · simp
      · intro c hc
        simp only [decide_eq_true_eq]
        rintro rfl
        exact hx hc
    rw [hfront, hfront]
  · have hfront {w : List Char} (hw : '{' ∉ w) :
        (a ++ w ++ b).takeWhile (· ≠ '{') = a ++ w ++ b.takeWhile (· ≠ '{') := by
      rw [List.takeWhile_append_of_pos]
      intro c hc
      simp only [decide_eq_true_eq]
      rintro rfl
      rw [List.mem_append] at hc
      exact hc.elim ha hw
    rw [hfront hu, hfront hv]
    cases hb : isBlank (b.takeWhile (· ≠ '{')) with
    | true =>
      rw [trimEnd_append_of_isBlank hb, trimEnd_append_of_isBlank hb,
        trimEnd_append_of_isBlank hspaced.isBlank_left,
        trimEnd_append_of_isBlank hspaced.isBlank_right]
    | false =>
      obtain ⟨y, d, hy, -⟩ := exists_trimEnd_eq hb
      have hlast (w : List Char) :
          (a ++ w ++ trimEnd (b.takeWhile (· ≠ '{'))).getLast? = some d := by
        rw [hy, ← List.append_assoc, List.getLast?_concat]
      rw [trimEnd_append_of_not_isBlank hb, trimEnd_append_of_not_isBlank hb]
      dsimp only
      rw [hlast, hlast,
        isSome_beforeTail?_append (by decide) hspaced.isBlank_left hspaced.ne_nil_left,
        isSome_beforeTail?_append (by decide) hspaced.isBlank_right hspaced.ne_nil_right]

/-! ## Gaps in a statement -/

/-- What is the same with one gap replaced is the same for realigned texts. -/
theorem eq_of_realigned {α : Type} {f : List Char → α}
    (hf : ∀ {t t'}, Replaced Gap t t' → f t = f t') {t t' : List Char} (h : Realigned t t') :
    f t = f t' := by
  induction h with
  | refl => rfl
  | tail _ hlast ih => exact ih.trans (hf hlast)

theorem goesOn_eq_of_realigned {t t' : List Char} (h : Realigned t t') (rest : List Char) :
    goesOn t rest = goesOn t' rest := by
  refine eq_of_realigned (f := (goesOn · rest)) (fun {t t'} h => ?_) h
  have hcode := replaced_masked h
  have hempty : (trim (masked t)).isEmpty = (trim (masked t')).isEmpty := by
    rw [Bool.eq_iff_iff, List.isEmpty_iff, List.isEmpty_iff, trim_eq_nil_iff, trim_eq_nil_iff,
      hcode.isBlank_eq]
  simp only [goesOn, hempty, awaitsBody_trim_eq hcode, endsWithOperator_trim_eq hcode]

/-- White space at the end of a statement does not matter to whether it goes on. -/
theorem goesOn_append_of_isBlank {s : List Char} (hs : isBlank s = true) (t rest : List Char) :
    goesOn (t ++ s) rest = goesOn t rest := by
  have hcode : trim (masked (t ++ s)) = trim (masked t) := by
    have hplain : IsPlain (s.head?.or none) := by
      rw [Option.or_none]
      exact isPlain_head?_of_isBlank hs
    rw [masked_eq_maskFrom, maskFrom_append, trim_append_of_isBlank_right (isBlank_maskFrom hs _ _),
      (maskFrom_eq_of_isPlain hplain isPlain_none .code t).1, masked_eq_maskFrom]
  simp only [goesOn, hcode]

theorem goesOn_of_isBlank {t : List Char} (h : isBlank t = true) (rest : List Char) :
    goesOn t rest = false := by
  have hcode : trim (masked t) = [] := by
    rw [masked_eq_maskFrom, trim_eq_nil_iff]
    exact isBlank_maskFrom h _ _
  simp [goesOn, hcode]

end Fragment

end SnippetRunner
