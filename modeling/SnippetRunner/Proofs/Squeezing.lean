import Mathlib.Data.List.Induction
import SnippetRunner.Proofs.Spacing
import SnippetRunner.Proofs.Substance

/-!
# Comments and white space

A comment can be dropped from a text (`keptOf`), or white space can be put in its place
(`spacedOut`). Both leave the code and the literals of a scanned text what they are
(`Scanned.classify_keptOf`, `Scanned.classify_spacedOut`).

Where no comment stands alone between two other characters (`Apart`), the two texts differ only in
how much white space stands where there is some (`Loosened`). Such texts are the same when their
white space is squeezed (`squeezed_trim_keptOf`), they go on behind a line break together
(`goesOn_keptOf`), and they have an initializer together (`isInitializer_keptOf`).
-/

namespace SnippetRunner

open Text Scan

namespace Scan

variable {mode : Mode} {c : Char} {cls : CharClass} {next : Option Char}
  {own rest xs ys : List (Char × CharClass)}

/-! ## Scanning a text without its comments -/

theorem step_newline_ne_literal (mode : Mode) (next : Option Char) :
    (mode.step '\n' next).1 ≠ .literal := by
  cases mode <;> simp [Mode.step]

theorem spacedChar_newline (hcls : cls ≠ .literal) : spacedChar ('\n', cls) = ('\n', .code) := by
  cases cls with
  | literal => exact absurd rfl hcls
  | code | comment => rfl

theorem spacedChar_comment (hc : c ≠ '\n') : spacedChar (c, .comment) = (' ', .code) := by
  simp [spacedChar, hc]

theorem spacedChar_of_ne (hcls : cls ≠ .comment) : spacedChar (c, cls) = (c, cls) := by
  cases cls with
  | comment => exact absurd rfl hcls
  | code | literal => rfl

theorem spacedChar_snd_ne (x : Char × CharClass) : (spacedChar x).2 ≠ .comment := by
  obtain ⟨c, cls⟩ := x
  cases cls <;> simp [spacedChar]

theorem spacedChar_fst_of_isKept {x : Char × CharClass} (h : isKept x = true) :
    (spacedChar x).1 = x.1 := by
  obtain ⟨c, cls⟩ := x
  cases cls with
  | comment =>
    have hbreak : c = '\n' := by simpa [isKept] using h
    simp [spacedChar, hbreak]
  | code | literal => rfl

@[simp] theorem spacedOut_append (xs ys : List (Char × CharClass)) :
    spacedOut (xs ++ ys) = spacedOut xs ++ spacedOut ys := by
  simp [spacedOut]

theorem kept_eq (mode : Mode) (cs : List Char) :
    kept mode cs = ((classify mode cs).filter isKept).map spacedChar := by
  induction cs generalizing mode with
  | nil => rfl
  | cons c cs ih =>
    simp only [kept, classify]
    by_cases hc : c = '\n'
    · subst hc
      have hkept : isKept ('\n', (mode.step '\n' cs.head?).1) = true := by simp [isKept]
      rw [if_pos rfl, ih, List.filter_cons_of_pos hkept, List.map_cons,
        spacedChar_newline (step_newline_ne_literal mode cs.head?)]
    · rw [if_neg hc, ih]
      by_cases hcls : (mode.step c cs.head?).1 = .comment
      · have hdropped : ¬ isKept (c, (mode.step c cs.head?).1) = true := by simp [isKept, hc, hcls]
        rw [if_pos hcls, List.filter_cons_of_neg hdropped]
      · have hkept : isKept (c, (mode.step c cs.head?).1) = true := by simp [isKept, hcls]
        rw [if_neg hcls, List.filter_cons_of_pos hkept, List.map_cons, spacedChar_of_ne hcls]

theorem settled_of_comment (h : (mode.step c next).1 = .comment) : mode.settled = .code := by
  cases mode with
  | quoted mark escaped =>
    simp only [Mode.step] at h
    split_ifs at h
  | _ => rfl

/-- A character in code that is no slash stays what it is. -/
theorem head?_spacedOut_code {d : Char} (hd : d ≠ '/') (cs : List Char) :
    (spacedOut (classify .code (d :: cs))).head? = some d := by
  have hcls : (Mode.step .code d cs.head?).1 ≠ .comment := by
    simp only [Mode.step, hd, false_and, if_false]
    split <;> simp
  simp only [classify, spacedOut, List.map_cons, List.head?_cons, spacedChar_of_ne hcls]

/-- A character is scanned in the same way when white space stands in the place of the comments. -/
theorem step_settled_spacedChar (mode : Mode) (c : Char) (cs : List Char) :
    mode.settled.step (spacedChar (c, (mode.step c cs.head?).1)).1
        (spacedOut (classify (mode.step c cs.head?).2 cs)).head? =
      ((spacedChar (c, (mode.step c cs.head?).1)).2, (mode.step c cs.head?).2.settled) := by
  by_cases hc : c = '\n'
  · subst hc
    rw [spacedChar_newline (step_newline_ne_literal mode cs.head?), step_settled_newline,
      settled_step_newline]
  by_cases hcls : (mode.step c cs.head?).1 = .comment
  · rw [settled_step_of_comment hcls, settled_of_comment hcls, hcls, spacedChar_comment hc,
      Mode.step_of_isSpace (by decide)]
  rw [spacedChar_of_ne hcls]
  cases mode with
  | code =>
    by_cases hs : c = '/'
    · subst hs
      -- what follows the slash starts no comment, so it is the same character
      have hnext : cs.head? ≠ some '/' ∧ cs.head? ≠ some '*' := by
        constructor <;> intro hn <;> simp [Mode.step, hn] at hcls
      have hstep : Mode.step .code '/' cs.head? = (.code, .code) := by
        simp [Mode.step, hnext]
      have hhead : (spacedOut (classify .code cs)).head? = cs.head? := by
        cases cs with
        | nil => rfl
        | cons d ds => exact head?_spacedOut_code (fun hd => hnext.1 (by rw [hd]; rfl)) ds
      rw [hstep, hhead]
      exact hstep
    · simp only [Mode.settled, Mode.step, hs, false_and, if_false]
      split <;> rfl
  | quoted mark escaped =>
    simp only [Mode.settled, Mode.step, hc, if_false]
    split_ifs <;> rfl
  | lineComment => simp [Mode.step, hc] at hcls
  | blockComment =>
    simp only [Mode.step] at hcls
    split_ifs at hcls <;> simp at hcls
  | lineOpening | blockOpening | blockClosing => simp [Mode.step] at hcls

/-- **A scan of a text with white space for its comments finds the same code and the same
literals.** -/
theorem classify_spacedOut (mode : Mode) (cs : List Char) :
    classify mode.settled (spacedOut (classify mode cs)) = (classify mode cs).map spacedChar := by
  induction cs generalizing mode with
  | nil => rfl
  | cons c cs ih =>
    have hstep := step_settled_spacedChar mode c cs
    have hcons : spacedOut (classify mode (c :: cs)) =
        (spacedChar (c, (mode.step c cs.head?).1)).1 ::
          spacedOut (classify (mode.step c cs.head?).2 cs) := rfl
    rw [hcons, classify, hstep]
    dsimp only
    rw [ih]
    rfl

/-- The class of a character that ends a text, if it does not start a comment there. -/
theorem step_none_fst (h : (mode.step c next).1 ≠ .comment) :
    (mode.step c none).1 = (mode.step c next).1 := by
  cases mode with
  | code =>
    simp only [Mode.step, reduceCtorEq, and_false, if_false] at h ⊢
    split_ifs at h ⊢ <;> simp_all
  | quoted | lineComment => rfl
  | blockComment =>
    simp only [Mode.step] at h
    split_ifs at h <;> simp at h
  | lineOpening | blockOpening | blockClosing => rfl

/-- What a scan finds in the front of a text is found without the rest, if it is no comment. -/
theorem classify_of_append {a b : List Char} (h : classify mode (a ++ b) = xs ++ ys)
    (hxs : xs.map Prod.fst = a) (hno : ∀ x ∈ xs, x.2 ≠ .comment) : classify mode a = xs := by
  induction a generalizing mode xs with
  | nil => rw [List.map_eq_nil_iff.1 hxs, classify]
  | cons c a ih =>
    obtain ⟨x, xs, rfl, rfl, rfl⟩ := List.map_eq_cons_iff.1 hxs
    rw [List.cons_append, classify, List.cons_append, List.cons.injEq] at h
    obtain ⟨hx, hrest⟩ := h
    have hcls := hno x List.mem_cons_self
    have htail := ih hrest rfl fun y hy => hno y (List.mem_cons_of_mem x hy)
    rw [← hx] at hcls
    cases xs with
    | nil =>
      simp only [List.map_nil, classify, List.head?_nil]
      rw [step_none_fst hcls]
      exact congrArg (· :: []) hx
    | cons y xs =>
      rw [classify]
      exact congrArg₂ _ hx htail

/-- Whether a scan that is not inside of a literal finds these characters. -/
def Scanned (xs : List (Char × CharClass)) : Prop :=
  ∃ mode cs, Mode.settled mode = .code ∧ classify mode cs = xs

theorem map_fst_filter_isKept (xs : List (Char × CharClass)) :
    ((xs.filter isKept).map spacedChar).map Prod.fst = keptOf xs := by
  rw [keptOf, List.map_map]
  exact List.map_congr_left fun x hx => spacedChar_fst_of_isKept (List.mem_filter.1 hx).2

/-- The part of a text that was read keeps its code and its literals when its comments are
dropped. -/
theorem Scanned.classify_keptOf (h : Scanned (own ++ rest)) :
    classify .code (keptOf own) = (own.filter isKept).map spacedChar := by
  obtain ⟨mode, cs, hmode, hcs⟩ := h
  have hkept := classify_keptText mode cs
  rw [keptText, kept_eq, hcs, hmode, map_fst_filter_isKept, keptOf_append, List.filter_append,
    List.map_append] at hkept
  refine classify_of_append hkept (map_fst_filter_isKept own) fun x hx => ?_
  obtain ⟨y, -, rfl⟩ := List.mem_map.1 hx
  exact spacedChar_snd_ne y

/-- The part of a text that was read keeps its code and its literals when white space stands in the
place of its comments. -/
theorem Scanned.classify_spacedOut (h : Scanned (own ++ rest)) :
    classify .code (spacedOut own) = own.map spacedChar := by
  obtain ⟨mode, cs, hmode, hcs⟩ := h
  have hspaced := Scan.classify_spacedOut mode cs
  rw [hcs, hmode, spacedOut_append, List.map_append] at hspaced
  refine classify_of_append hspaced (by simp [spacedOut]) fun x hx => ?_
  obtain ⟨y, -, rfl⟩ := List.mem_map.1 hx
  exact spacedChar_snd_ne y

/-- Behind a character that starts no literal a scan is not inside of a literal. -/
theorem Scanned.of_cons {x : Char × CharClass} (h : Scanned (x :: xs)) (hx : x.2 ≠ .literal) :
    Scanned xs := by
  obtain ⟨mode, cs, hmode, hcs⟩ := h
  cases cs with
  | nil => exact absurd hcs nofun
  | cons c cs =>
    rw [classify, List.cons.injEq] at hcs
    obtain ⟨rfl, rfl⟩ := hcs
    refine ⟨_, cs, ?_, rfl⟩
    dsimp only at hx
    cases hcls : (mode.step c cs.head?).1 with
    | code =>
      rw [Mode.step_snd_of_code hcls]
      rfl
    | literal => exact absurd hcls hx
    | comment => rw [settled_step_of_comment hcls, hmode]

/-- A literal starts with a quote mark. -/
theorem Scanned.isSpace_of_literal (h : Scanned ((c, .literal) :: xs)) : isSpace c = false := by
  obtain ⟨mode, cs, hmode, hcs⟩ := h
  cases cs with
  | nil => exact absurd hcs nofun
  | cons d cs =>
    rw [classify, List.cons.injEq, Prod.mk.injEq] at hcs
    obtain ⟨⟨rfl, hcls⟩, -⟩ := hcs
    cases mode with
    | quoted => simp [Mode.settled] at hmode
    | code =>
      cases hspace : isSpace d with
      | true => simp [Mode.step_of_isSpace hspace] at hcls
      | false => rfl
    | lineComment | blockComment =>
      simp only [Mode.step] at hcls
      split_ifs at hcls
    | lineOpening | blockOpening | blockClosing => simp [Mode.step] at hcls

/-! ## Squeezing white space -/

/-- Whether a character is white space in code. -/
def isCodeSpace (x : Char × CharClass) : Bool := x.2 = .code && isSpace x.1

/-- Whether a character is a comment or white space in code. -/
def isGap (x : Char × CharClass) : Bool := x.2 = .comment || isCodeSpace x

/-- The text of classified characters with one space for every stretch of white space in code. -/
def squeeze : List (Char × CharClass) → List Char
  | [] => []
  | x :: xs =>
    if isCodeSpace x then
      if xs.head?.any isCodeSpace then squeeze xs else ' ' :: squeeze xs
    else x.1 :: squeeze xs

/-- The text with one space for every stretch of white space outside of literals. -/
def squeezed (cs : List Char) : List Char := squeeze (classify .code cs)

/-- Texts that differ in how much white space stands in code where there is some. -/
inductive Loosened : List (Char × CharClass) → List (Char × CharClass) → Prop
  | nil : Loosened [] []
  | same (x : Char × CharClass) {xs ys : List (Char × CharClass)} : Loosened xs ys →
      Loosened (x :: xs) (x :: ys)
  | spaces {u v xs ys : List (Char × CharClass)} : u ≠ [] → v ≠ [] →
      (∀ x ∈ u, isCodeSpace x = true) → (∀ x ∈ v, isCodeSpace x = true) → Loosened xs ys →
      Loosened (u ++ xs) (v ++ ys)

theorem squeeze_append_of_isCodeSpace {u : List (Char × CharClass)} (hne : u ≠ [])
    (hu : ∀ x ∈ u, isCodeSpace x = true) (xs : List (Char × CharClass)) :
    squeeze (u ++ xs) = if xs.head?.any isCodeSpace then squeeze xs else ' ' :: squeeze xs := by
  induction u with
  | nil => exact absurd rfl hne
  | cons x u ih =>
    rw [List.cons_append, squeeze, if_pos (hu x List.mem_cons_self)]
    cases u with
    | nil => rfl
    | cons y u =>
      have hhead : (y :: u ++ xs).head?.any isCodeSpace = true :=
        hu y (List.mem_cons_of_mem x List.mem_cons_self)
      rw [if_pos hhead, ih (List.cons_ne_nil y u) fun z hz => hu z (List.mem_cons_of_mem x hz)]

theorem any_head?_append {u : List (Char × CharClass)} (hne : u ≠ [])
    (hu : ∀ x ∈ u, isCodeSpace x = true) (xs : List (Char × CharClass)) :
    (u ++ xs).head?.any isCodeSpace = true := by
  obtain ⟨x, u, rfl⟩ := List.exists_cons_of_ne_nil hne
  exact hu x List.mem_cons_self

theorem Loosened.any_head?_eq (h : Loosened xs ys) :
    xs.head?.any isCodeSpace = ys.head?.any isCodeSpace := by
  cases h with
  | nil => rfl
  | same x => rfl
  | spaces hne hne' hu hv => rw [any_head?_append hne hu, any_head?_append hne' hv]

/-- Squeezed, such texts are the same. -/
theorem Loosened.squeeze_eq (h : Loosened xs ys) : squeeze xs = squeeze ys := by
  induction h with
  | nil => rfl
  | same x hrest ih => rw [squeeze, squeeze, ih, hrest.any_head?_eq]
  | spaces hne hne' hu hv hrest ih =>
    rw [squeeze_append_of_isCodeSpace hne hu, squeeze_append_of_isCodeSpace hne' hv, ih,
      hrest.any_head?_eq]

theorem maskedChar_of_isCodeSpace {x : Char × CharClass} (h : isCodeSpace x = true) :
    maskedChar x = [x.1] := by
  rw [isCodeSpace, Bool.and_eq_true, decide_eq_true_eq] at h
  simp [maskedChar, h.1]

/-- White space in code is left when a text is masked. -/
theorem flatMap_maskedChar_of_isCodeSpace {u : List (Char × CharClass)}
    (hu : ∀ x ∈ u, isCodeSpace x = true) : u.flatMap maskedChar = u.map Prod.fst := by
  induction u with
  | nil => rfl
  | cons x u ih =>
    rw [List.flatMap_cons, maskedChar_of_isCodeSpace (hu x List.mem_cons_self),
      ih fun y hy => hu y (List.mem_cons_of_mem x hy)]
    rfl

theorem isBlank_of_isCodeSpace {u : List (Char × CharClass)}
    (hu : ∀ x ∈ u, isCodeSpace x = true) : isBlank (u.map Prod.fst) = true := by
  rw [isBlank, List.all_map, List.all_eq_true]
  exact fun x hx => ((Bool.and_eq_true _ _).mp (hu x hx)).2

theorem replaced_append_left {P : List Char → List Char → Prop} {t t' : List Char}
    (h : Replaced P t t') (s : List Char) : Replaced P (s ++ t) (s ++ t') := by
  obtain ⟨a, b, hpart⟩ := h
  rw [List.append_assoc, List.append_assoc, ← List.append_assoc s, ← List.append_assoc s,
    ← List.append_assoc (s ++ a), ← List.append_assoc (s ++ a)]
  exact .intro (s ++ a) b hpart

/-- The code of such texts differs in how much white space stands where there is some. -/
theorem Loosened.flatMap_maskedChar (h : Loosened xs ys) :
    Relation.ReflTransGen (Replaced Spaced) (xs.flatMap maskedChar) (ys.flatMap maskedChar) := by
  induction h with
  | nil => exact .refl
  | same x _ ih =>
    rw [List.flatMap_cons, List.flatMap_cons]
    exact ih.lift (maskedChar x ++ ·) fun t t' h => replaced_append_left h _
  | @spaces u v xs ys hne hne' hu hv _ ih =>
    rw [List.flatMap_append, List.flatMap_append, flatMap_maskedChar_of_isCodeSpace hu,
      flatMap_maskedChar_of_isCodeSpace hv]
    have hspaced : Spaced (u.map Prod.fst) (v.map Prod.fst) :=
      ⟨isBlank_of_isCodeSpace hu, isBlank_of_isCodeSpace hv, by simpa using hne,
        by simpa using hne'⟩
    have hhead := Replaced.intro (P := Spaced) [] (xs.flatMap maskedChar) hspaced
    exact .head hhead (ih.lift (v.map Prod.fst ++ ·) fun t t' h => replaced_append_left h _)

/-! ## Comments that stand apart -/

/-- Whether no comment stands alone between two characters that are neither comments nor white
space in code. -/
def Apart : List (Char × CharClass) → Prop
  | [] => True
  | x :: xs =>
    (isGap x = false → xs.head?.any (!isKept ·) = true →
      (xs.dropWhile (!isKept ·)).head?.all isGap = true) ∧ Apart xs

instance decidableApart : (xs : List (Char × CharClass)) → Decidable (Apart xs)
  | [] => isTrue trivial
  | _ :: xs =>
    have := decidableApart xs
    inferInstanceAs (Decidable (_ ∧ _))

theorem Apart.of_append_right (h : Apart (xs ++ ys)) : Apart ys := by
  induction xs with
  | nil => exact h
  | cons x xs ih => exact ih h.2

theorem dropWhile_append_head? {p : Char × CharClass → Bool} (xs ys : List (Char × CharClass))
    (h : ((xs ++ ys).dropWhile p).head?.all isGap = true) :
    (xs.dropWhile p).head?.all isGap = true := by
  cases hdrop : xs.dropWhile p with
  | nil => rfl
  | cons x zs =>
    rw [List.dropWhile_append, hdrop] at h
    exact h

theorem Apart.of_append_left (h : Apart (xs ++ ys)) : Apart xs := by
  induction xs with
  | nil => trivial
  | cons x xs ih =>
    refine ⟨fun hx hhead => ?_, ih h.2⟩
    refine dropWhile_append_head? xs ys (h.1 hx ?_)
    cases xs with
    | nil => exact absurd hhead Bool.false_ne_true
    | cons y xs => exact hhead

theorem isCodeSpace_spacedChar {x : Char × CharClass} (h : isGap x = true) :
    isCodeSpace (spacedChar x) = true := by
  obtain ⟨c, cls⟩ := x
  cases cls with
  | comment =>
    by_cases hbreak : c = '\n'
    · subst hbreak
      decide
    · rw [spacedChar_comment hbreak]
      decide
  | code =>
    have hspace : isCodeSpace (c, .code) = true := by simpa [isGap] using h
    exact hspace
  | literal => simp [isGap, isCodeSpace] at h

theorem spacedChar_of_not_isGap {x : Char × CharClass} (h : isGap x = false) :
    isKept x = true ∧ spacedChar x = x := by
  obtain ⟨c, cls⟩ := x
  cases cls with
  | comment => simp [isGap] at h
  | code | literal => exact ⟨by simp [isKept], rfl⟩

/-- A gap at the front of a text, and what stands behind it. -/
theorem exists_gap_append (xs : List (Char × CharClass)) :
    ∃ u v, xs = u ++ v ∧ (∀ y ∈ u, isGap y = true) ∧ ∀ y ∈ v.head?, isGap y = false := by
  refine ⟨xs.takeWhile isGap, xs.dropWhile isGap, List.takeWhile_append_dropWhile.symm,
    List.all_eq_true.1 List.all_takeWhile, fun y hy => ?_⟩
  simpa [Option.mem_def.1 hy] using List.head?_dropWhile_not isGap xs

/-- In a gap between two characters there is white space. -/
theorem Apart.exists_isKept {x z : Char × CharClass} {u v : List (Char × CharClass)}
    (h : Apart (x :: (u ++ z :: v))) (hx : isGap x = false) (hz : isGap z = false) (hu : u ≠ []) :
    ∃ y ∈ u, isKept y = true := by
  by_contra! hcomments
  have hdropped : ∀ y ∈ u, (!isKept y) = true := fun y hy => by simpa using hcomments y hy
  have hfirst : (u ++ z :: v).head?.any (!isKept ·) = true := by
    obtain ⟨y, u, rfl⟩ := List.exists_cons_of_ne_nil hu
    exact hdropped y List.mem_cons_self
  have hbehind := h.1 hx hfirst
  rw [List.dropWhile_append_of_pos hdropped,
    List.dropWhile_cons_of_neg (by simp [(spacedChar_of_not_isGap hz).1])] at hbehind
  exact absurd (hz.symm.trans hbehind) Bool.false_ne_true

/-- **Where comments stand apart, dropping them leaves white space where there is some when white
space is put in their place.** -/
theorem Apart.loosened (h : Apart own) (hhead : ∀ x ∈ own.head?, isGap x = false)
    (hlast : ∀ x ∈ own.getLast?, isGap x = false) :
    Loosened ((own.filter isKept).map spacedChar) (own.map spacedChar) := by
  -- from one character that is no gap to the next one
  induction hn : own.length using Nat.strongRecOn generalizing own with
  | _ n ih =>
    cases own with
    | nil => exact .nil
    | cons x own =>
      have hx := hhead x rfl
      obtain ⟨hkept, hsame⟩ := spacedChar_of_not_isGap hx
      rw [List.filter_cons_of_pos hkept, List.map_cons, List.map_cons]
      refine .same _ ?_
      obtain ⟨u, v, rfl, hgap, hvhead⟩ := exists_gap_append own
      have hvlast : ∀ y ∈ v.getLast?, isGap y = false := fun y hy => by
        refine hlast y ?_
        rw [← List.cons_append, List.getLast?_append, Option.mem_def.1 hy]
        rfl
      have hlength : v.length < n := by
        rw [← hn]
        simp only [List.length_cons, List.length_append]
        omega
      have hrest := ih v.length hlength h.2.of_append_right hvhead hvlast rfl
      by_cases hu : u = []
      · subst hu
        exact hrest
      have hspaces (w : List (Char × CharClass)) (hw : ∀ y ∈ w, y ∈ u) :
          ∀ z ∈ w.map spacedChar, isCodeSpace z = true := by
        intro z hz
        obtain ⟨y, hy, rfl⟩ := List.mem_map.1 hz
        exact isCodeSpace_spacedChar (hgap y (hw y hy))
      have hwhite : (u.filter isKept).map spacedChar ≠ [] := by
        cases v with
        | nil =>
          have hend := hlast (u.getLast hu) (by
            rw [List.append_nil, List.getLast?_cons, List.getLast?_eq_some_getLast hu]
            rfl)
          rw [hgap _ (List.getLast_mem hu)] at hend
          exact absurd hend.symm Bool.false_ne_true
        | cons z v =>
          obtain ⟨y, hy, hkept⟩ := h.exists_isKept hx (hvhead z rfl) hu
          exact List.ne_nil_of_mem (List.mem_map_of_mem (List.mem_filter.2 ⟨hy, hkept⟩))
      rw [List.filter_append, List.map_append, List.map_append]
      exact .spaces hwhite (by simpa using hu) (hspaces _ fun y hy => (List.mem_filter.1 hy).1)
        (hspaces _ fun y hy => hy) hrest

/-! ## Comments behind a word -/

/-- Whether a text starts with a word and goes on with a comment. -/
def CommentBehind (word : List Char) (xs : List (Char × CharClass)) : Prop :=
  word.isPrefixOf (xs.map Prod.fst) = true ∧ xs[word.length]?.any (!isKept ·) = true

instance (word : List Char) (xs : List (Char × CharClass)) : Decidable (CommentBehind word xs) :=
  inferInstanceAs (Decidable (_ ∧ _))

theorem CommentBehind.append {word : List Char} (h : CommentBehind word xs)
    (ys : List (Char × CharClass)) : CommentBehind word (xs ++ ys) := by
  obtain ⟨hword, hany⟩ := h
  refine ⟨?_, ?_⟩
  · rw [List.isPrefixOf_iff_prefix] at hword ⊢
    rw [List.map_append]
    exact hword.trans (List.prefix_append _ _)
  · cases hx : xs[word.length]? with
    | none => simp [hx] at hany
    | some x =>
      obtain ⟨hlt, -⟩ := List.getElem?_eq_some_iff.1 hx
      rwa [List.getElem?_append_left hlt]

theorem keptOf_dropWhile (xs : List (Char × CharClass)) :
    keptOf (xs.dropWhile (!isKept ·)) = keptOf xs := by
  induction xs with
  | nil => rfl
  | cons x xs ih =>
    cases hkept : isKept x with
    | true => rw [List.dropWhile_cons_of_neg (by simp [hkept])]
    | false =>
      rw [List.dropWhile_cons_of_pos (by simp [hkept]), ih, keptOf, keptOf,
        List.filter_cons_of_neg (by simp [hkept])]

theorem spacedOut_cons (x : Char × CharClass) (xs : List (Char × CharClass)) :
    spacedOut (x :: xs) = (spacedChar x).1 :: spacedOut xs := rfl

/-- A kept gap is white space. -/
theorem isSpace_of_isGap {x : Char × CharClass} (hgap : isGap x = true) (hkept : isKept x = true) :
    isSpace x.1 = true := by
  have hspace := isCodeSpace_spacedChar hgap
  rw [isCodeSpace, Bool.and_eq_true, spacedChar_fst_of_isKept hkept] at hspace
  exact hspace.2

/-- What is no white space is not the white space that a text starts with. -/
theorem beq_eq_false_of_isSpace {w c : Char} (hw : isSpace w = false) (hc : isSpace c = true) :
    (w == c) = false := by
  rw [beq_eq_false_iff_ne]
  rintro rfl
  exact absurd (hw.symm.trans hc) Bool.false_ne_true

/-- A text that starts with a comment, and goes on with white space, starts with no word. -/
theorem isPrefixOf_eq_false_of_comment {w : Char} {x : Char × CharClass} (word : List Char)
    (hw : isSpace w = false) (hkept : isKept x = false)
    (hnext : ((x :: xs).dropWhile (!isKept ·)).head?.all isGap = true) :
    (w :: word).isPrefixOf (keptOf (x :: xs)) = false ∧
      (w :: word).isPrefixOf (spacedOut (x :: xs)) = false := by
  have hgap : isGap x = true := by
    by_contra hgap
    rw [(spacedChar_of_not_isGap (Bool.not_eq_true _ ▸ hgap)).1] at hkept
    exact Bool.false_ne_true hkept.symm
  have hspace : isSpace (spacedChar x).1 = true :=
    ((Bool.and_eq_true _ _).mp (isCodeSpace_spacedChar hgap)).2
  constructor
  · rw [← keptOf_dropWhile]
    cases hdrop : (x :: xs).dropWhile (!isKept ·) with
    | nil => rfl
    | cons y ys =>
      rw [hdrop] at hnext
      have hykept : isKept y = true := by
        simpa [hdrop] using List.head?_dropWhile_not (!isKept ·) (x :: xs)
      rw [keptOf_cons_of_isKept hykept, List.isPrefixOf,
        beq_eq_false_of_isSpace hw (isSpace_of_isGap hnext hykept)]
      rfl
  · rw [spacedOut_cons, List.isPrefixOf, beq_eq_false_of_isSpace hw hspace]
    rfl

/-- Whether a text starts with a word and a space does not depend on what becomes of comments that
stand apart, and not behind the word. -/
theorem isPrefixOf_keptOf {word : List Char} (hword : word.all (fun c => !isSpace c) = true)
    (hhead : xs.head?.any (!isKept ·) = true →
      (xs.dropWhile (!isKept ·)).head?.all isGap = true)
    (hapart : Apart xs) (hno : ¬ CommentBehind word xs) :
    (word ++ [' ']).isPrefixOf (keptOf xs) = (word ++ [' ']).isPrefixOf (spacedOut xs) := by
  induction word generalizing xs with
  | nil =>
    cases xs with
    | nil => rfl
    | cons x xs =>
      have hkept : isKept x = true := by simpa [CommentBehind] using hno
      rw [keptOf_cons_of_isKept hkept, spacedOut_cons, spacedChar_fst_of_isKept hkept]
      simp [List.isPrefixOf]
  | cons w word ih =>
    rw [List.all_cons, Bool.and_eq_true] at hword
    have hw : isSpace w = false := by simpa using hword.1
    cases xs with
    | nil => rfl
    | cons x xs =>
      cases hkept : isKept x with
      | true =>
        rw [keptOf_cons_of_isKept hkept, spacedOut_cons, spacedChar_fst_of_isKept hkept,
          List.cons_append, List.isPrefixOf, List.isPrefixOf]
        by_cases hx : w = x.1
        · subst hx
          have hgap : isGap x = false := by
            by_contra hgap
            have hspace := isSpace_of_isGap (Bool.not_eq_false _ ▸ hgap) hkept
            exact absurd (hw.symm.trans hspace) Bool.false_ne_true
          have hrest : ¬ CommentBehind word xs := fun h =>
            hno ⟨by simpa [List.isPrefixOf] using h.1, by simpa using h.2⟩
          rw [ih hword.2 (hapart.1 hgap) hapart.2 hrest]
        · rw [beq_eq_false_iff_ne.2 hx]
          rfl
      | false =>
        have hnext := hhead (by simp [hkept])
        have hneither := isPrefixOf_eq_false_of_comment (word ++ [' ']) hw hkept hnext
        exact hneither.1.trans hneither.2.symm

end Scan

namespace Fragment

variable {own rest : List (Char × CharClass)}

/-! ## Statements with white space for their comments -/

/-- What was read of a statement ends with the last of its characters that is neither white space
nor a comment, and a tail. -/
theorem StartsStatement.exists_core (h : StartsStatement own) :
    ∃ core tail, own = core ++ tail ∧ StartsStatement core ∧
      (∀ x ∈ core.getLast?, x.2 ≠ .comment ∧ isSpace x.1 = false) ∧
      ∀ x ∈ tail, x.2 = .comment ∨ isSpace x.1 = true := by
  induction own using List.reverseRecOn with
  | nil =>
    obtain ⟨x, rest, hx, -⟩ := h
    exact absurd hx nofun
  | append_singleton front z ih =>
    by_cases hz : z.2 ≠ .comment ∧ isSpace z.1 = false
    · refine ⟨front ++ [z], [], by simp, h, fun x hx => ?_, nofun⟩
      rw [List.getLast?_concat] at hx
      obtain rfl := Option.some.inj hx
      exact hz
    · obtain ⟨x, rest, hfront, hx⟩ := h
      cases front with
      | nil =>
        obtain ⟨rfl, -⟩ := List.cons.inj hfront
        exact absurd hx hz
      | cons y front =>
        obtain ⟨rfl, -⟩ := List.cons.inj hfront
        obtain ⟨core, tail, hown, hcore, hlast, htail⟩ := ih ⟨_, _, rfl, hx⟩
        refine ⟨core, tail ++ [z], by rw [hown, List.append_assoc], hcore, hlast, fun w hw => ?_⟩
        rcases List.mem_append.1 hw with hw | hw
        · exact htail w hw
        · rw [List.mem_singleton.1 hw]
          by_contra hnot
          rw [not_or, Bool.not_eq_true] at hnot
          exact hz hnot

/-- A character that is neither white space nor a comment is no gap. -/
theorem isGap_of_solid {x : Char × CharClass} (h : x.2 ≠ .comment ∧ isSpace x.1 = false) :
    isGap x = false := by
  simp [isGap, isCodeSpace, h.1, h.2]

/-- White space in the place of comments and of white space. -/
theorem isSpace_spacedChar {x : Char × CharClass} (h : x.2 = .comment ∨ isSpace x.1 = true) :
    isSpace (spacedChar x).1 = true := by
  obtain ⟨c, cls⟩ := x
  by_cases hcls : cls = .comment
  · subst hcls
    exact ((Bool.and_eq_true _ _).mp (isCodeSpace_spacedChar (by simp [isGap]))).2
  · rw [spacedChar_of_ne hcls]
    exact h.resolve_left hcls

theorem isBlank_flatMap_maskedChar {xs : List (Char × CharClass)}
    (h : ∀ x ∈ xs, isSpace x.1 = true) : isBlank (xs.flatMap maskedChar) = true := by
  rw [isBlank, List.all_flatMap, List.all_eq_true]
  exact fun x hx => isBlank_maskedChar (h x hx) x.2

/-- The code of the two texts differs in how much white space stands where there is some, and at the
end. -/
theorem exists_masked (h : Scanned (own ++ rest)) (hstart : StartsStatement own)
    (hapart : Apart own) :
    ∃ a a' s s', masked (keptOf own) = a ++ s ∧ masked (spacedOut own) = a' ++ s' ∧
      isBlank s = true ∧ isBlank s' = true ∧ Relation.ReflTransGen (Replaced Spaced) a a' := by
  obtain ⟨core, tail, rfl, ⟨x, xs, rfl, hx⟩, hlast, htail⟩ := hstart.exists_core
  have hspaced (y : Char × CharClass) (hy : y ∈ tail) : isSpace (spacedChar y).1 = true :=
    isSpace_spacedChar (htail y hy)
  have hhead : ∀ y ∈ (x :: xs).head?, isGap y = false := fun y hy => by
    obtain rfl := Option.some.inj hy
    exact isGap_of_solid hx
  have hloose := hapart.of_append_left.loosened hhead fun y hy => isGap_of_solid (hlast y hy)
  refine ⟨_, _, ((tail.filter isKept).map spacedChar).flatMap maskedChar,
    (tail.map spacedChar).flatMap maskedChar, ?_, ?_, ?_, ?_, hloose.flatMap_maskedChar⟩
  · rw [masked, h.classify_keptOf, List.filter_append, List.map_append, List.flatMap_append]
  · rw [masked, h.classify_spacedOut, List.map_append, List.flatMap_append]
  · refine isBlank_flatMap_maskedChar fun y hy => ?_
    obtain ⟨z, hz, rfl⟩ := List.mem_map.1 hy
    exact hspaced z (List.mem_filter.1 hz).1
  · refine isBlank_flatMap_maskedChar fun y hy => ?_
    obtain ⟨z, hz, rfl⟩ := List.mem_map.1 hy
    exact hspaced z hz

/-- What is the same with one stretch of white space replaced is the same with many. -/
theorem eq_of_reflTransGen {α : Type} {f : List Char → α}
    (hf : ∀ {t t'}, Replaced Spaced t t' → f t = f t') {t t' : List Char}
    (h : Relation.ReflTransGen (Replaced Spaced) t t') : f t = f t' := by
  induction h with
  | refl => rfl
  | tail _ hlast ih => exact ih.trans (hf hlast)

/-- The two texts go on behind a line break together. -/
theorem goesOn_keptOf (h : Scanned (own ++ rest)) (hstart : StartsStatement own)
    (hapart : Apart own) (next : List Char) :
    goesOn (keptOf own) next = goesOn (spacedOut own) next := by
  obtain ⟨a, a', s, s', ha, ha', hs, hs', hcode⟩ := exists_masked h hstart hapart
  have htrim : trim (masked (keptOf own)) = trim a := by
    rw [ha, trim_append_of_isBlank_right hs]
  have htrim' : trim (masked (spacedOut own)) = trim a' := by
    rw [ha', trim_append_of_isBlank_right hs']
  have hblank : isBlank a = isBlank a' :=
    eq_of_reflTransGen (f := isBlank) (fun h => h.isBlank_eq) hcode
  have hempty : (trim a).isEmpty = (trim a').isEmpty := by
    rw [isEmpty_trim, isEmpty_trim, hblank]
  have hbody : awaitsBody (trim a) = awaitsBody (trim a') :=
    eq_of_reflTransGen (f := fun t => awaitsBody (trim t)) awaitsBody_trim_eq hcode
  have hoperator : endsWithOperator (trim a) = endsWithOperator (trim a') :=
    eq_of_reflTransGen (f := fun t => endsWithOperator (trim t)) endsWithOperator_trim_eq hcode
  simp only [goesOn, htrim, htrim', hempty, hbody, hoperator]

theorem opensInitializer_append_of_isBlank {s : List Char} (hs : isBlank s = true)
    (a : List Char) : opensInitializer (a ++ s) = opensInitializer a := by
  have hbrace : '{' ∉ s := fun hmem => absurd (List.all_eq_true.1 hs '{' hmem) (by decide)
  by_cases ha : '{' ∈ a
  · obtain ⟨x, y, rfl, hx⟩ := List.eq_append_cons_of_mem ha
    have hfront (z : List Char) : (x ++ '{' :: z).takeWhile (· ≠ '{') = x := by
      rw [List.takeWhile_append_of_pos]
      · simp
      · intro c hc
        simp only [decide_eq_true_eq]
        rintro rfl
        exact hx hc
    have hsplit : x ++ '{' :: y ++ s = x ++ '{' :: (y ++ s) := by simp
    rw [hsplit, opensInitializer, opensInitializer, hfront, hfront]
    simp
  · simp [opensInitializer, ha, hbrace]

/-- The two texts have an initializer together. -/
theorem isInitializer_keptOf (h : Scanned (own ++ rest)) (hstart : StartsStatement own)
    (hapart : Apart own) : isInitializer (keptOf own) = isInitializer (spacedOut own) := by
  obtain ⟨a, a', s, s', ha, ha', hs, hs', hcode⟩ := exists_masked h hstart hapart
  rw [isInitializer_eq, isInitializer_eq, ha, ha', opensInitializer_append_of_isBlank hs,
    opensInitializer_append_of_isBlank hs']
  exact eq_of_reflTransGen (f := opensInitializer) opensInitializer_eq hcode

/-- Whether comments stand apart in a piece, and not behind a word that makes a declaration of
it. -/
structure CommentsApart (own : List (Char × CharClass)) : Prop where
  apart : Apart own
  not_behind : ∀ word ∈ ["import".toList, "package".toList],
    ¬ CommentBehind word (own.dropWhile isGap)

instance (own : List (Char × CharClass)) : Decidable (CommentsApart own) :=
  decidable_of_iff
    (Apart own ∧ ∀ word ∈ ["import".toList, "package".toList],
      ¬ CommentBehind word (own.dropWhile isGap))
    ⟨fun h => ⟨h.1, h.2⟩, fun h => ⟨h.apart, h.not_behind⟩⟩

/-- The statement that is read is neither white space nor a comment at its ends. -/
theorem trim_core {core tail : List (Char × CharClass)} (hcore : StartsStatement core)
    (hlast : ∀ x ∈ core.getLast?, x.2 ≠ .comment ∧ isSpace x.1 = false)
    (htail : ∀ x ∈ tail, x.2 = .comment ∨ isSpace x.1 = true) :
    trim (keptOf (core ++ tail)) = keptOf core ∧
      trim (spacedOut (core ++ tail)) = spacedOut core := by
  have hsolid {x : Char × CharClass} (hx : x.2 ≠ .comment ∧ isSpace x.1 = false) :
      isKept x = true ∧ spacedChar x = x := spacedChar_of_not_isGap (isGap_of_solid hx)
  obtain ⟨x, xs, rfl, hx⟩ := hcore
  obtain ⟨front, z, hsplit⟩ : ∃ front z, x :: xs = front ++ [z] :=
    ⟨_, _, (List.dropLast_concat_getLast (List.cons_ne_nil x xs)).symm⟩
  have hz : z.2 ≠ .comment ∧ isSpace z.1 = false := by
    refine hlast z ?_
    rw [hsplit, List.getLast?_concat]
    rfl
  have hkeptLast : keptOf (x :: xs) = keptOf front ++ [z.1] := by
    rw [hsplit, keptOf_append, keptOf_cons_of_isKept (hsolid hz).1]
    rfl
  have hspacedLast : spacedOut (x :: xs) = spacedOut front ++ [z.1] := by
    rw [hsplit, spacedOut_append, spacedOut_cons, (hsolid hz).2]
    rfl
  have hkeptTail : isBlank (keptOf tail) = true := by
    rw [isBlank, keptOf, List.all_map, List.all_eq_true]
    intro y hy
    have hspace := isSpace_spacedChar (htail y (List.mem_filter.1 hy).1)
    rwa [spacedChar_fst_of_isKept (List.mem_filter.1 hy).2] at hspace
  have hspacedTail : isBlank (spacedOut tail) = true := by
    rw [isBlank, spacedOut, List.all_map, List.all_eq_true]
    exact fun y hy => isSpace_spacedChar (htail y hy)
  rw [keptOf_append, spacedOut_append, trim_append_of_isBlank_right hkeptTail,
    trim_append_of_isBlank_right hspacedTail]
  constructor
  · refine trim_eq_self ?_ ?_
    · rw [keptOf_cons_of_isKept (hsolid hx).1]
      simpa using hx.2
    · rw [hkeptLast, List.getLast?_concat]
      simpa using hz.2
  · refine trim_eq_self ?_ ?_
    · rw [spacedOut_cons, (hsolid hx).2]
      simpa using hx.2
    · rw [hspacedLast, List.getLast?_concat]
      simpa using hz.2

/-- **The two texts are statements together, and squeezed they are the same.** -/
theorem squeezed_trim_keptOf (h : Scanned (own ++ rest)) (hstart : StartsStatement own)
    (hapart : CommentsApart own) :
    isSkipped (trim (keptOf own)) = isSkipped (trim (spacedOut own)) ∧
      squeezed (trim (keptOf own)) = squeezed (trim (spacedOut own)) := by
  have hfirst : own.dropWhile isGap = own := by
    obtain ⟨x, xs, rfl, hx⟩ := hstart
    rw [List.dropWhile_cons_of_neg (by simp [isGap_of_solid hx])]
  obtain ⟨happart, hbehind⟩ := hapart
  rw [hfirst] at hbehind
  obtain ⟨core, tail, rfl, hcore, hlast, htail⟩ := hstart.exists_core
  obtain ⟨hkept, hspaced⟩ := trim_core hcore hlast htail
  obtain ⟨x, xs, rfl, hx⟩ := hcore
  have hsolid := spacedChar_of_not_isGap (isGap_of_solid hx)
  have hcoreApart := happart.of_append_left
  rw [hkept, hspaced]
  constructor
  · have hword (word : List Char) (hmem : word ∈ ["import".toList, "package".toList])
        (hall : word.all (fun c => !isSpace c) = true) :
        (word ++ [' ']).isPrefixOf (keptOf (x :: xs)) =
          (word ++ [' ']).isPrefixOf (spacedOut (x :: xs)) :=
      isPrefixOf_keptOf hall (fun hcomment => absurd hcomment (by simp [hsolid.1])) hcoreApart
        fun hno => hbehind word hmem (hno.append tail)
    have himport := hword "import".toList (by simp) (by decide)
    have hpackage := hword "package".toList (by simp) (by decide)
    have hhead : (keptOf (x :: xs)).head? = (spacedOut (x :: xs)).head? := by
      rw [keptOf_cons_of_isKept hsolid.1, spacedOut_cons, hsolid.2]
      rfl
    rw [isSkipped, isSkipped, hhead]
    exact congrArg₂ (fun x y => x || y || _) himport hpackage
  · rw [List.append_assoc] at h
    have hhead : ∀ y ∈ (x :: xs).head?, isGap y = false := fun y hy => by
      obtain rfl := Option.some.inj hy
      exact isGap_of_solid hx
    rw [squeezed, squeezed, h.classify_keptOf, h.classify_spacedOut]
    exact (hcoreApart.loosened hhead fun y hy => isGap_of_solid (hlast y hy)).squeeze_eq

end Fragment

end SnippetRunner
