import SnippetRunner.Proofs.Wrapping

/-!
# The lines of a wrapped snippet

A wrapped snippet becomes a program line by line (`Program.LineOf`): imports move to the front,
lines that open the class and the `main` follow, then every line of the snippet stands in its place,
emptied if it is blank or an import, and closing lines end the program. These are all its lines
(`Program.getElem?_wrapped_iff`).
-/

namespace SnippetRunner

open Text

namespace Text

theorem newline_not_mem_of_mem_lines {cs l : List Char} (h : l ∈ lines cs) : '\n' ∉ l := by
  induction hn : cs.length using Nat.strongRecOn generalizing cs with
  | _ n ih =>
    by_cases hbreak : '\n' ∈ cs
    · obtain ⟨x, rest, rfl, hx⟩ := List.eq_append_cons_of_mem hbreak
      rw [lines_append_newline hx, List.mem_cons] at h
      rcases h with rfl | h
      · exact newline_not_mem_dropBreak hx
      · exact ih rest.length (by rw [← hn]; simp; omega) h rfl
    · cases cs with
      | nil => cases h
      | cons c cs =>
        rw [lines_of_newline_not_mem hbreak (by simp), List.mem_singleton] at h
        rwa [h]

end Text

namespace Program

/-! ## The lines around a snippet -/

/-- The lines that open the class and, unless the snippet has one, the `main`. -/
def openingLines (snippet : List Char) : List (List Char) :=
  "public class TempClass \x7b".toList ::
    if hasMain snippet then [] else ["    public static void main(String[] args) \x7b".toList]

/-- The lines that close what was opened. -/
def closingLines (snippet : List Char) : List (List Char) :=
  (if hasMain snippet then [] else ["    \x7d".toList]) ++ ["\x7d".toList]

/-- All lines that may stand around a snippet. -/
def shellLines : List (List Char) :=
  ["public class TempClass \x7b".toList,
    "    public static void main(String[] args) \x7b".toList, "    \x7d".toList, "\x7d".toList]

theorem mem_shellLines {snippet l : List Char}
    (h : l ∈ openingLines snippet ++ closingLines snippet) : l ∈ shellLines := by
  unfold openingLines closingLines at h
  revert l
  cases hasMain snippet <;> simp [shellLines]

theorem wrapped_eq (snippet : List Char) :
    wrapped snippet =
      ((numbered snippet).filter fun x => isImport x.1).map (fun x => (trim x.1, some x.2)) ++
        ((openingLines snippet).map (·, none) ++
          ((numbered snippet).map (fun x => bodyLine (margin snippet) x.1 x.2) ++
            (closingLines snippet).map (·, none))) := by
  unfold wrapped openingLines closingLines margin
  cases hasMain snippet <;> simp only [List.append_assoc] <;> rfl

/-- How many lines move in front of the class. -/
def importCount (snippet : List Char) : Nat := (lines snippet).countP isImport

/-- How many lines of the program stand in front of the body. -/
def bodyStart (snippet : List Char) : Nat := importCount snippet + (openingLines snippet).length

/-- `LineOf snippet k text origin`: the line of the program with `k` lines in front of it has the
text, and it comes from the line of the snippet with the number, if from any. -/
inductive LineOf (snippet : List Char) : Nat → List Char → Option Nat → Prop
  /-- An import, behind those in front of it. -/
  | hoisted {n : Nat} {l : List Char} : (lines snippet)[n]? = some l → isImport l = true →
      LineOf snippet (((lines snippet).take n).countP isImport) (trim l) (some (n + 1))
  | opening {i : Nat} {l : List Char} : (openingLines snippet)[i]? = some l →
      LineOf snippet (importCount snippet + i) l none
  /-- What is left in the place of an import or of a blank line. -/
  | emptied {n : Nat} {l : List Char} : (lines snippet)[n]? = some l →
      (isImport l || isBlank l) = true → LineOf snippet (bodyStart snippet + n) [] none
  | kept {n : Nat} {l : List Char} : (lines snippet)[n]? = some l →
      (isImport l || isBlank l) = false →
      LineOf snippet (bodyStart snippet + n) (margin snippet ++ l) (some (n + 1))
  | closing {i : Nat} {l : List Char} : (closingLines snippet)[i]? = some l →
      LineOf snippet (bodyStart snippet + (lines snippet).length + i) l none

/-! ## Look-up in parts -/

/-- What is left of a list by a filter is found in the list behind as many others that are left. -/
theorem exists_getElem?_of_filter {α : Type} {q : α → Bool} {xs : List α} {k : Nat} {x : α}
    (h : (xs.filter q)[k]? = some x) : ∃ n, xs[n]? = some x ∧ (xs.take n).countP q = k := by
  induction xs generalizing k with
  | nil => cases h
  | cons y xs ih =>
    cases hy : q y with
    | false =>
      rw [List.filter_cons_of_neg (by simp [hy])] at h
      obtain ⟨n, hn, hcount⟩ := ih h
      exact ⟨n + 1, hn, by rw [List.take_succ_cons, List.countP_cons_of_neg (by simp [hy]), hcount]⟩
    | true =>
      rw [List.filter_cons_of_pos hy] at h
      cases k with
      | zero => exact ⟨0, h, rfl⟩
      | succ k =>
        obtain ⟨n, hn, hcount⟩ := ih h
        exact ⟨n + 1, hn, by rw [List.take_succ_cons, List.countP_cons_of_pos hy, hcount]⟩

theorem getElem?_numbered (snippet : List Char) (n : Nat) :
    (numbered snippet)[n]? = ((lines snippet)[n]?).map (·, n + 1) := by
  rw [numbered, List.getElem?_zipIdx]
  simp only [Nat.add_comm]

theorem countP_take_numbered (snippet : List Char) (n : Nat) :
    ((numbered snippet).take n).countP (fun x => isImport x.1) =
      ((lines snippet).take n).countP isImport := by
  have hlines : lines snippet = (numbered snippet).map Prod.fst := (List.zipIdx_map_fst 1 _).symm
  rw [hlines, ← List.map_take, List.countP_map]
  rfl

theorem length_imports (snippet : List Char) :
    ((numbered snippet).filter fun x => isImport x.1).length = (lines snippet).countP isImport := by
  have hall := countP_take_numbered snippet (lines snippet).length
  rw [List.take_length, List.take_of_length_le (by simp [numbered])] at hall
  rw [← List.countP_eq_length_filter, hall]

theorem getElem?_append_eq_some_iff {α : Type} {xs ys : List α} {k : Nat} {x : α} :
    (xs ++ ys)[k]? = some x ↔ xs[k]? = some x ∨ ∃ j, k = xs.length + j ∧ ys[j]? = some x := by
  rw [List.getElem?_append]
  split
  · next hlt =>
    refine (or_iff_left ?_).symm
    rintro ⟨j, rfl, -⟩
    omega
  · next hge =>
    constructor
    · exact fun h => .inr ⟨k - xs.length, by omega, h⟩
    · rintro (h | ⟨j, rfl, h⟩)
      · exact absurd (List.getElem?_eq_some_iff.1 h).1 hge
      · rwa [Nat.add_sub_cancel_left]

/-- What is left by a filter stands behind as many others that are left. -/
theorem getElem?_filter_countP {α : Type} {q : α → Bool} {xs : List α} {n : Nat} {x : α}
    (h : xs[n]? = some x) (hq : q x = true) :
    (xs.filter q)[(xs.take n).countP q]? = some x := by
  induction xs generalizing n with
  | nil => cases h
  | cons y xs ih =>
    cases n with
    | zero =>
      obtain rfl : y = x := Option.some.inj h
      rw [List.filter_cons_of_pos hq]
      rfl
    | succ n =>
      rw [List.take_succ_cons]
      cases hy : q y with
      | false =>
        rw [List.filter_cons_of_neg (by simp [hy]), List.countP_cons_of_neg (by simp [hy])]
        exact ih h
      | true =>
        rw [List.filter_cons_of_pos hy, List.countP_cons_of_pos hy, List.getElem?_cons_succ]
        exact ih h

theorem getElem?_hoisted_iff {snippet text : List Char} {origin : Option Nat} {k : Nat} :
    (((numbered snippet).filter fun x => isImport x.1).map
        fun x => (trim x.1, some x.2))[k]? = some (text, origin) ↔
      ∃ n l, (lines snippet)[n]? = some l ∧ isImport l = true ∧
        k = ((lines snippet).take n).countP isImport ∧ text = trim l ∧ origin = some (n + 1) := by
  rw [List.getElem?_map, Option.map_eq_some_iff]
  constructor
  · rintro ⟨⟨l, number⟩, hl, heq⟩
    obtain ⟨rfl, rfl⟩ := Prod.mk.inj heq
    have himport : isImport l = true := by
      simpa using (List.mem_filter.1 (List.mem_of_getElem? hl)).2
    obtain ⟨n, hn, hk⟩ := exists_getElem?_of_filter hl
    rw [getElem?_numbered, Option.map_eq_some_iff] at hn
    obtain ⟨l, hn, hpair⟩ := hn
    obtain ⟨rfl, rfl⟩ := Prod.mk.inj hpair
    exact ⟨n, l, hn, himport, by rw [← countP_take_numbered, hk], rfl, rfl⟩
  · rintro ⟨n, l, hl, himport, rfl, rfl, rfl⟩
    have hn : (numbered snippet)[n]? = some (l, n + 1) := by rw [getElem?_numbered, hl]; rfl
    rw [← countP_take_numbered]
    exact ⟨(l, n + 1), getElem?_filter_countP hn himport, rfl⟩

theorem getElem?_around_iff {shell : List (List Char)} {text : List Char} {origin : Option Nat}
    {k : Nat} :
    (shell.map fun l => (l, (none : Option Nat)))[k]? = some (text, origin) ↔
      shell[k]? = some text ∧ origin = none := by
  rw [List.getElem?_map, Option.map_eq_some_iff]
  constructor
  · rintro ⟨l, hl, heq⟩
    obtain ⟨rfl, rfl⟩ := Prod.mk.inj heq
    exact ⟨hl, rfl⟩
  · rintro ⟨hl, rfl⟩
    exact ⟨text, hl, rfl⟩

theorem getElem?_body_iff {snippet indent text : List Char} {origin : Option Nat} {k : Nat} :
    ((numbered snippet).map fun x => bodyLine indent x.1 x.2)[k]? = some (text, origin) ↔
      ∃ l, (lines snippet)[k]? = some l ∧
        if (isImport l || isBlank l) = true then text = [] ∧ origin = none
        else text = indent ++ l ∧ origin = some (k + 1) := by
  rw [List.getElem?_map, getElem?_numbered, Option.map_map, Option.map_eq_some_iff]
  refine exists_congr fun l => and_congr_right fun _ => ?_
  change bodyLine indent l (k + 1) = (text, origin) ↔ _
  unfold bodyLine
  split <;> rw [Prod.mk.injEq, eq_comm (b := text), eq_comm (b := origin)]

/-- **The lines of a wrapped snippet** are its imports, the opening lines, the lines of the snippet
in their places and the closing lines. -/
theorem getElem?_wrapped_iff {snippet text : List Char} {origin : Option Nat} {k : Nat} :
    (wrapped snippet)[k]? = some (text, origin) ↔ LineOf snippet k text origin := by
  have himports : (((numbered snippet).filter fun x => isImport x.1).map
      fun x => (trim x.1, some x.2)).length = importCount snippet := by
    rw [List.length_map, length_imports, importCount]
  have hbody : ((numbered snippet).map
      fun x => bodyLine (margin snippet) x.1 x.2).length = (lines snippet).length := by
    rw [List.length_map, numbered, List.length_zipIdx]
  rw [wrapped_eq, getElem?_append_eq_some_iff, himports, getElem?_hoisted_iff]
  simp only [getElem?_append_eq_some_iff, getElem?_around_iff, getElem?_body_iff, hbody,
    List.length_map]
  constructor
  · rintro (⟨n, l, hl, himport, rfl, rfl, rfl⟩ | ⟨i, rfl, ⟨hl, rfl⟩ | ⟨n, rfl, hbelow⟩⟩)
    · exact .hoisted hl himport
    · exact .opening hl
    · obtain ⟨l, hl, hline⟩ | ⟨i, rfl, hl, rfl⟩ := hbelow
      · rw [← Nat.add_assoc]
        split at hline
        · next hempty =>
          obtain ⟨rfl, rfl⟩ := hline
          exact .emptied hl hempty
        · next hkept =>
          obtain ⟨rfl, rfl⟩ := hline
          exact .kept hl (by simpa using hkept)
      · rw [← Nat.add_assoc, ← Nat.add_assoc]
        exact .closing hl
  · intro h
    cases h with
    | @hoisted n l hl himport => exact .inl ⟨n, l, hl, himport, rfl, rfl, rfl⟩
    | @opening i l hl => exact .inr ⟨i, rfl, .inl ⟨hl, rfl⟩⟩
    | @emptied n l hl hempty =>
      exact .inr ⟨_, Nat.add_assoc _ _ _, .inr ⟨n, rfl, .inl ⟨l, hl, by simp [hempty]⟩⟩⟩
    | @kept n l hl hkept =>
      exact .inr ⟨_, Nat.add_assoc _ _ _, .inr ⟨n, rfl, .inl ⟨l, hl, by simp [hkept]⟩⟩⟩
    | @closing i l hl =>
      refine .inr ⟨_, ?_, .inr ⟨_, rfl, .inr ⟨i, rfl, hl, rfl⟩⟩⟩
      rw [bodyStart]
      omega

/-! ## Where the lines of the snippet are -/

/-- The line of the program, counted from zero, that a line of a wrapped snippet becomes: imports
stand in front of the class, and all other lines in their places behind the lines that open it. -/
def wrappedLine (snippet : List Char) (n : Nat) : Nat :=
  if ((lines snippet)[n]?).any isImport then ((lines snippet).take n).countP isImport
  else (lines snippet).countP isImport + (if hasMain snippet then 1 else 2) + n

theorem isBlank_of_isImport {l : List Char} (h : isImport l = true) : isBlank l = false := by
  by_contra hblank
  rw [Bool.not_eq_false, ← trim_eq_nil_iff] at hblank
  rw [isImport, hblank] at h
  exact absurd h (by decide)

/-- A line of the program that comes from one of the snippet stands where that line went, and has
its text but for white space. -/
theorem LineOf.exists_origin {snippet text : List Char} {k r : Nat}
    (h : LineOf snippet k text (some r)) :
    ∃ n l, r = n + 1 ∧ (lines snippet)[n]? = some l ∧ isBlank l = false ∧ trim text = trim l ∧
      k = wrappedLine snippet n := by
  cases h with
  | @hoisted n l hl himport =>
    refine ⟨n, l, rfl, hl, isBlank_of_isImport himport, trim_trim l, ?_⟩
    rw [wrappedLine, hl, Option.any_some, if_pos himport]
  | @kept n l hl hkept =>
    rw [Bool.or_eq_false_iff] at hkept
    refine ⟨n, l, rfl, hl, hkept.2, trim_append_of_isBlank_left (isBlank_margin snippet), ?_⟩
    rw [wrappedLine, hl, Option.any_some, hkept.1, if_neg Bool.false_ne_true, bodyStart,
      importCount,
      openingLines]
    cases hasMain snippet <;> rfl

/-- A line of the snippet that is not blank stands where it went. -/
theorem exists_lineOf {snippet l : List Char} {n : Nat} (hl : (lines snippet)[n]? = some l)
    (hblank : isBlank l = false) :
    ∃ text, LineOf snippet (wrappedLine snippet n) text (some (n + 1)) := by
  have hline : ∃ k text, LineOf snippet k text (some (n + 1)) := by
    cases himport : isImport l with
    | true => exact ⟨_, _, .hoisted hl himport⟩
    | false => exact ⟨_, _, .kept hl (by rw [himport, hblank]; rfl)⟩
  obtain ⟨k, text, hline⟩ := hline
  obtain ⟨m, -, hm, -, -, -, rfl⟩ := hline.exists_origin
  obtain rfl := Nat.succ.inj hm
  exact ⟨text, hline⟩

theorem LineOf.newline_not_mem {snippet text : List Char} {k : Nat} {origin : Option Nat}
    (h : LineOf snippet k text origin) : '\n' ∉ text := by
  have hshell : ∀ l ∈ shellLines, '\n' ∉ l := by decide
  cases h with
  | @hoisted n l hl himport =>
    intro hbreak
    obtain ⟨s, b, hsplit, -, -⟩ := exists_eq_append_trim l
    refine newline_not_mem_of_mem_lines (List.mem_of_getElem? hl) ?_
    rw [hsplit]
    exact List.mem_append_right _ (List.mem_append_left _ hbreak)
  | opening hl =>
    exact hshell _ (mem_shellLines (List.mem_append_left _ (List.mem_of_getElem? hl)))
  | emptied => exact List.not_mem_nil
  | kept hl =>
    rw [List.mem_append, not_or]
    exact ⟨newline_not_mem_margin snippet, newline_not_mem_of_mem_lines (List.mem_of_getElem? hl)⟩
  | closing hl =>
    exact hshell _ (mem_shellLines (List.mem_append_right _ (List.mem_of_getElem? hl)))

theorem newline_not_mem_wrapped {snippet : List Char} {l : List Char × Option Nat}
    (h : l ∈ wrapped snippet) : '\n' ∉ l.1 := by
  obtain ⟨k, hk⟩ := List.getElem?_of_mem h
  exact (getElem?_wrapped_iff.1 hk).newline_not_mem

end Program

end SnippetRunner
