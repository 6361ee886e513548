import SnippetRunner.Proofs.MaskedPlaces

/-!
# The closing delimiter by counting

The search for the delimiter that closes another one starts a new scan at the opening delimiter. For
one that stands in code it finds the same place as counting does in the masked text: the first one
up to which as many delimiters are closed as are opened
(`findClosing?_eq_some_iff_isLeast`).

* A search among labels is a search in what is shown of them (`map_byteSize_closeIn`).
* In a text of code the search stops at the end of the first part that closes one delimiter more
  than it opens (`closesFirst_closeIn`), since every character changes the depth by one at most.
* The depth never falls below zero (`closeChecked?_succ`).
-/

namespace SnippetRunner

open Text

namespace Scan

variable {o c x : Char} {depth depth' : Nat} {cs m part front back : List Char}

/-! ## Counting -/

/-- Whether a part of a text closes as many delimiters as it opens and `depth` more. -/
def Closes (o c : Char) (depth : Nat) (part : List Char) : Prop :=
  part.count o + depth = part.count c

theorem closes_cons_opener (hne : o ≠ c) :
    Closes o c depth (o :: part) ↔ Closes o c (depth + 1) part := by
  rw [Closes, Closes, List.count_cons_self, List.count_cons_of_ne hne]
  omega

theorem closes_cons_closer (hne : o ≠ c) :
    Closes o c (depth + 1) (c :: part) ↔ Closes o c depth part := by
  rw [Closes, Closes, List.count_cons_self, List.count_cons_of_ne hne.symm]
  omega

theorem closes_cons_of_ne (ho : x ≠ o) (hc : x ≠ c) :
    Closes o c depth (x :: part) ↔ Closes o c depth part := by
  rw [Closes, Closes, List.count_cons_of_ne ho, List.count_cons_of_ne hc]

theorem not_closes_nil : ¬ Closes o c (depth + 1) [] := by
  simp [Closes]

/-- `ClosesFirst o c depth m result`: the result is the cut of the text in front of the delimiter
with which its first closing part ends. Without one it has no such part. -/
def ClosesFirst (o c : Char) (depth : Nat) (m : List Char) :
    Option (List Char × List Char) → Prop
  | none => ∀ part, part <+: m → ¬ Closes o c depth part
  | some (before, after) => ∃ rest, after = c :: rest ∧ m = before ++ c :: rest ∧
      Closes o c depth (before ++ [c]) ∧ ∀ part, part <+: before → ¬ Closes o c depth part

/-- A character in front changes the depth only. -/
theorem ClosesFirst.cons {result : Option (List Char × List Char)}
    (hx : ∀ part, Closes o c (depth + 1) (x :: part) ↔ Closes o c (depth' + 1) part)
    (h : ClosesFirst o c (depth' + 1) m result) :
    ClosesFirst o c (depth + 1) (x :: m)
      (result.map fun (before, after) => (x :: before, after)) := by
  have hprefix {u : List Char} (hu : ∀ part, part <+: u → ¬ Closes o c (depth' + 1) part) :
      ∀ part, part <+: x :: u → ¬ Closes o c (depth + 1) part := by
    intro part hpart
    obtain rfl | ⟨part', rfl, hpart'⟩ := List.prefix_cons_iff.1 hpart
    · exact not_closes_nil
    · exact fun hcloses => hu part' hpart' ((hx part').1 hcloses)
  cases result with
  | none => exact hprefix h
  | some parts =>
    obtain ⟨rest, hafter, rfl, hcloses, hno⟩ := h
    exact ⟨rest, hafter, rfl, (hx _).2 hcloses, hprefix hno⟩

/-- **In code the search stops where the first closing part ends.** -/
theorem closesFirst_closeIn (hne : o ≠ c) (depth : Nat) (m : List Char) :
    ClosesFirst o c (depth + 1) m (closeIn o c (depth + 1) (m.map (·, .code))) := by
  induction m generalizing depth with
  | nil =>
    intro part hpart
    rw [List.prefix_nil.1 hpart]
    exact not_closes_nil
  | cons x m ih =>
    rw [List.map_cons]
    by_cases hxo : x = o
    · subst hxo
      rw [closeIn_opener]
      exact (ih (depth + 1)).cons fun part => closes_cons_opener hne
    by_cases hxc : x = c
    · subst hxc
      cases depth with
      | zero =>
        have hstop : closeIn o x 1 ((x, .code) :: m.map (·, .code)) = some ([], x :: m) := by
          simp [closeIn, Ne.symm hne, Function.comp_def]
        rw [hstop]
        refine ⟨m, rfl, rfl, (closes_cons_closer hne).2 rfl, fun part hpart => ?_⟩
        rw [List.prefix_nil.1 hpart]
        exact not_closes_nil
      | succ depth =>
        rw [closeIn_closer (Ne.symm hne)]
        exact (ih depth).cons fun part => closes_cons_closer hne
    · have hpass : closeIn o c (depth + 1) ((x, .code) :: m.map (·, .code)) =
          (closeIn o c (depth + 1) (m.map (·, .code))).map
            fun (before, after) => (x :: before, after) :=
        closeIn_cons_of_ne fun _ => ⟨hxo, hxc⟩
      rw [hpass]
      exact (ih depth).cons fun part => closes_cons_of_ne hxo hxc

/-! ## Searching what is shown -/

/-- Whether a character is shown only where it is code. -/
def IsShown (c : Char) : Prop := c ≠ ' ' ∧ c ≠ '\n'

theorem not_mem_maskedChar (hc : IsShown c) {d : Char} {cls : CharClass} (hcls : cls ≠ .code) :
    c ∉ maskedChar (d, cls) := by
  intro hmem
  rw [maskedChar] at hmem
  split at hmem
  · next hshown =>
    obtain rfl := hshown.resolve_left hcls
    exact hc.2 (List.mem_singleton.1 hmem)
  · exact hc.1 (List.eq_of_mem_replicate hmem)

/-- **A search among labels finds its place as a search in what is shown of them does.** -/
theorem map_byteSize_closeIn (ho : IsShown o) (hc : IsShown c) (depth : Nat)
    (xs : List (Char × CharClass)) :
    (closeIn o c depth xs).map (fun parts => byteSize parts.1) =
      (closeIn o c depth ((xs.flatMap maskedChar).map (·, .code))).map
        fun parts => byteSize parts.1 := by
  induction xs generalizing depth with
  | nil => rfl
  | cons y xs ih =>
    obtain ⟨d, cls⟩ := y
    -- what is shown of a character is as large as the character
    have hsize (u : List Char) (hu : byteSize u = d.utf8Size) (n : Nat) :
        ((closeIn o c n xs).map fun parts => (d :: parts.1, parts.2)).map
            (fun parts => byteSize parts.1) =
          ((closeIn o c n ((xs.flatMap maskedChar).map (·, .code))).map
            fun parts => (u ++ parts.1, parts.2)).map fun parts => byteSize parts.1 := by
      have hadd := congrArg (Option.map (d.utf8Size + ·)) (ih n)
      simpa only [Option.map_map, Function.comp_def, byteSize_cons, byteSize_append, hu] using hadd
    rw [List.flatMap_cons, List.map_append]
    by_cases hcls : cls = .code
    · subst hcls
      have hstep := hsize [d] (byteSize_maskedChar (d, .code) ▸ rfl)
      simp only [List.singleton_append] at hstep
      simp only [maskedChar_code, List.map_cons, List.map_nil, List.singleton_append, closeIn]
      split_ifs
      · exact hstep _
      · rfl
      · exact hstep _
      · exact hstep _
    · have hleft : closeIn o c depth ((d, cls) :: xs) =
          (closeIn o c depth xs).map fun parts => (d :: parts.1, parts.2) :=
        closeIn_cons_of_ne fun hcode => absurd hcode hcls
      have hnone : ∀ z ∈ (maskedChar (d, cls)).map (·, CharClass.code),
          z.2 = .code → z.1 ≠ o ∧ z.1 ≠ c := by
        intro z hz _
        obtain ⟨e, he, rfl⟩ := List.mem_map.1 hz
        constructor
        · rintro rfl
          exact not_mem_maskedChar ho hcls he
        · rintro rfl
          exact not_mem_maskedChar hc hcls he
      rw [hleft, closeIn_append hnone, hsize _ (byteSize_maskedChar (d, cls))]
      simp [Function.comp_def]

/-- The search at a delimiter that is shown. -/
theorem findClosing?_of_masked_eq (ho : IsShown o) (hc : IsShown c)
    (h : masked cs = front ++ o :: back) :
    findClosing? o c (byteSize front) cs =
      (closeIn o c 1 (back.map (·, .code))).map
        fun parts => byteSize front + o.utf8Size + byteSize parts.1 := by
  obtain ⟨before, tail, hcs, hsize, hscan, rfl⟩ := exists_of_masked_eq ho.1 ho.2 h
  have hplaces := map_byteSize_closeIn ho hc 1 (classify .code tail)
  rw [findClosing?, cut?_eq_some_iff.2 ⟨hcs, hsize⟩]
  simp only [closing?, List.head?_cons, if_true, closeFrom_eq_closeIn, hscan, closeIn_opener,
    Option.map_map, Function.comp_def, List.tail_cons, Nat.zero_add]
  have hshift := congrArg (Option.map (byteSize front + o.utf8Size + ·)) hplaces
  simpa only [Option.map_map, Function.comp_def, masked] using hshift

/-! ## The depth of a search -/

/-- The search for a closing delimiter with a depth that cannot fall below zero: it breaks off where
a closing delimiter comes at depth zero. -/
def closeChecked? (opener closer : Char) (depth : Nat) (mode : Mode) :
    List Char → Option (Option (List Char × List Char))
  | [] => some none
  | c :: cs =>
    let (cls, mode') := mode.step c cs.head?
    let next (depth : Nat) : Option (Option (List Char × List Char)) :=
      (closeChecked? opener closer depth mode' cs).map
        (Option.map fun (before, after) => (c :: before, after))
    if cls = .code ∧ c = opener then next (depth + 1)
    else if cls = .code ∧ c = closer then
      match depth with
      | 0 => none
      | 1 => some (some ([], c :: cs))
      | depth + 2 => next (depth + 1)
    else next depth

/-- **Behind an opening delimiter the search never breaks off.** It stops before its depth would
fall below zero. -/
theorem closeChecked?_succ (o c : Char) (depth : Nat) (mode : Mode) (cs : List Char) :
    closeChecked? o c (depth + 1) mode cs = some (closeFrom o c (depth + 1) mode cs) := by
  induction cs generalizing depth mode with
  | nil => rfl
  | cons x cs ih =>
    simp only [closeChecked?, closeFrom, ih, Option.map_some]
    split_ifs with hopen hclose hone
    · rfl
    · obtain rfl : depth = 0 := by omega
      rfl
    · obtain ⟨depth, rfl⟩ := Nat.exists_eq_succ_of_ne_zero (fun e : depth = 0 => hone (by rw [e]))
      rfl
    · rfl

theorem closeChecked?_opener (hcode : Mode.step .code o cs.head? = (.code, .code)) :
    closeChecked? o c 0 .code (o :: cs) = some (closeFrom o c 0 .code (o :: cs)) := by
  simp only [closeChecked?, closeFrom, hcode, true_and, if_true, closeChecked?_succ,
    Option.map_some]

/-! ## Balanced parts -/

/-- `IsBalanced o c i j m`: from byte `i` to byte `j`, both included, the text has as many opening
as closing delimiters. -/
def IsBalanced (o c : Char) (i j : Nat) (m : List Char) : Prop :=
  ∃ front part back, m = front ++ (part ++ back) ∧ byteSize front = i ∧
    byteSize (front ++ part) = j + 1 ∧ part.count o = part.count c

theorem isBalanced_iff (hne : o ≠ c) (ho : o.utf8Size = 1) {j : Nat} :
    byteSize front < j ∧ IsBalanced o c (byteSize front) j (front ++ o :: back) ↔
      ∃ part, part <+: back ∧ Closes o c 1 part ∧ byteSize front + byteSize part = j := by
  constructor
  · rintro ⟨hlt, front', part, back', hm, hfront, hend, hcount⟩
    obtain ⟨rfl, hrest⟩ := append_inj_of_byteSize hm hfront.symm
    rw [byteSize_append] at hend
    cases part with
    | nil =>
      rw [byteSize_nil] at hend
      omega
    | cons x part =>
      obtain ⟨rfl, rfl⟩ := List.cons.inj hrest
      rw [byteSize_cons, ho] at hend
      rw [List.count_cons_self, List.count_cons_of_ne hne] at hcount
      exact ⟨part, List.prefix_append part back', hcount, by omega⟩
  · rintro ⟨part, ⟨back', rfl⟩, hcloses, rfl⟩
    have hpos : 0 < byteSize part := by
      cases part with
      | nil => exact absurd hcloses not_closes_nil
      | cons x part =>
        have hx := x.utf8Size_pos
        rw [byteSize_cons]
        omega
    refine ⟨by omega, front, o :: part, back', rfl, rfl, ?_, ?_⟩
    · rw [byteSize_append, byteSize_cons, ho]
      omega
    · rw [List.count_cons_self, List.count_cons_of_ne hne]
      exact hcloses

/-- The first closing part is the smallest. -/
theorem ClosesFirst.byteSize_le {before after : List Char}
    (h : ClosesFirst o c depth m (some (before, after))) (hpart : part <+: m)
    (hcloses : Closes o c depth part) : byteSize (before ++ [c]) ≤ byteSize part := by
  obtain ⟨rest, -, rfl, -, hno⟩ := h
  have hfirst : before ++ [c] <+: before ++ c :: rest := ⟨rest, by simp⟩
  obtain hlong | hshort := List.prefix_or_prefix_of_prefix hfirst hpart
  · obtain ⟨more, rfl⟩ := hlong
    rw [byteSize_append (before ++ [c])]
    exact Nat.le_add_right _ _
  · obtain rfl | hbefore := List.prefix_concat_iff.1 hshort
    · exact Nat.le_refl _
    · exact absurd hcloses (hno part hbefore)

/-- An opening and a closing delimiter of one byte each, shown only where they are code. -/
structure IsDelimiterPair (o c : Char) : Prop where
  ne : o ≠ c
  isShown_opener : IsShown o
  isShown_closer : IsShown c
  utf8Size_opener : o.utf8Size = 1
  utf8Size_closer : c.utf8Size = 1
  step_opener (next : Option Char) : Mode.step .code o next = (.code, .code)

theorem isDelimiterPair_of_mem (h : (o, c) ∈ [('(', ')'), ('{', '}')]) : IsDelimiterPair o c := by
  simp only [List.mem_cons, Prod.mk.injEq, List.not_mem_nil, or_false] at h
  rcases h with ⟨rfl, rfl⟩ | ⟨rfl, rfl⟩ <;>
    exact ⟨by decide, by simp [IsShown], by simp [IsShown], by decide, by decide,
      fun next => by simp [Mode.step]⟩

section Delimiters

variable (h : IsDelimiterPair o c) (hmask : masked cs = front ++ o :: back)

include h hmask

theorem isBalanced_masked_iff {j : Nat} :
    byteSize front < j ∧ IsBalanced o c (byteSize front) j (masked cs) ↔
      ∃ part, part <+: back ∧ Closes o c 1 part ∧ byteSize front + byteSize part = j := by
  rw [hmask]
  exact isBalanced_iff h.ne h.utf8Size_opener

theorem isLeast_of_findClosing?_eq_some {j : Nat}
    (hj : findClosing? o c (byteSize front) cs = some j) :
    IsLeast {j | byteSize front < j ∧ IsBalanced o c (byteSize front) j (masked cs)} j := by
  have hfirst := closesFirst_closeIn h.ne 0 back
  rw [findClosing?_of_masked_eq h.isShown_opener h.isShown_closer hmask] at hj
  obtain ⟨⟨before, after⟩, hparts, rfl⟩ := Option.map_eq_some_iff.1 hj
  rw [Nat.zero_add, hparts] at hfirst
  have hend : byteSize front + o.utf8Size + byteSize before =
      byteSize front + byteSize (before ++ [c]) := by
    rw [h.utf8Size_opener, byteSize_append, byteSize_cons, h.utf8Size_closer, byteSize_nil]
    omega
  dsimp only
  rw [hend]
  constructor
  · obtain ⟨rest, -, rfl, hcloses, -⟩ := hfirst
    exact (isBalanced_masked_iff h hmask).2 ⟨before ++ [c], ⟨rest, by simp⟩, hcloses, rfl⟩
  · intro k hk
    obtain ⟨part, hpart, hcloses, rfl⟩ := (isBalanced_masked_iff h hmask).1 hk
    exact Nat.add_le_add_left (hfirst.byteSize_le hpart hcloses) _

theorem not_isBalanced_of_findClosing?_eq_none (hn : findClosing? o c (byteSize front) cs = none)
    (j : Nat) : ¬ (byteSize front < j ∧ IsBalanced o c (byteSize front) j (masked cs)) := by
  have hfirst := closesFirst_closeIn h.ne 0 back
  rw [findClosing?_of_masked_eq h.isShown_opener h.isShown_closer hmask,
    Option.map_eq_none_iff] at hn
  rw [Nat.zero_add, hn] at hfirst
  rw [isBalanced_masked_iff h hmask]
  rintro ⟨part, hpart, hcloses, -⟩
  exact hfirst part hpart hcloses

end Delimiters

/-- **The search for a closing delimiter is counting in the masked text.** At an opening parenthesis
or brace in code it finds the first position up to which the masked text has as many closing as
opening ones, and nothing iff there is none. The scan that starts there sees what the scan of the
whole text sees, and the depth of the search never falls below zero. -/
theorem findClosing?_eq_some_iff_isLeast (hpair : (o, c) ∈ [('(', ')'), ('{', '}')]) {i : Nat}
    (hopen : charAt? i (masked cs) = some o) :
    (∀ j, findClosing? o c i cs = some j ↔
      IsLeast {j | i < j ∧ IsBalanced o c i j (masked cs)} j) ∧
    (findClosing? o c i cs = none ↔ ¬ ∃ j, i < j ∧ IsBalanced o c i j (masked cs)) ∧
    ∃ before shown tail, cut? i cs = some (before, o :: tail) ∧
      cut? i (masked cs) = some (shown, masked (o :: tail)) ∧
      closeChecked? o c 0 .code (o :: tail) = some (closeFrom o c 0 .code (o :: tail)) := by
  have h := isDelimiterPair_of_mem hpair
  obtain ⟨front, back, hmask, rfl⟩ := charAt?_eq_some_iff.1 hopen
  obtain ⟨hsome, hnone⟩ := Text.eq_iff_isLeast
    (fun _ hj => isLeast_of_findClosing?_eq_some h hmask hj)
    (fun hn => not_isBalanced_of_findClosing?_eq_none h hmask hn)
  obtain ⟨before, tail, hcs, hsize, hscan, hback⟩ :=
    exists_of_masked_eq h.isShown_opener.1 h.isShown_opener.2 hmask
  refine ⟨hsome, hnone, before, front, tail, cut?_eq_some_iff.2 ⟨hcs, hsize⟩, ?_,
    closeChecked?_opener (h.step_opener _)⟩
  rw [masked_cons_of_code hscan, hback]
  exact cut?_eq_some_iff.2 ⟨hmask, rfl⟩

/-- A parenthesis in a literal and one in a comment do not count. -/
def hiddenParens : List Char := "f(\")\", (1) /* ) */ + 2) // )".toList

theorem findClosing?_hiddenParens :
    charAt? 1 (masked hiddenParens) = some '(' ∧ findClosing? '(' ')' 1 hiddenParens = some 22 ∧
      IsLeast {j | 1 < j ∧ IsBalanced '(' ')' 1 j (masked hiddenParens)} 22 := by
  have hopen : charAt? 1 (masked hiddenParens) = some '(' := by decide +kernel
  have hfind : findClosing? '(' ')' 1 hiddenParens = some 22 := by decide +kernel
  have hsearch := findClosing?_eq_some_iff_isLeast (c := ')') (by decide) hopen
  exact ⟨hopen, hfind, (hsearch.1 22).1 hfind⟩

end Scan

end SnippetRunner
