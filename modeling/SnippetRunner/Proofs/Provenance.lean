import SnippetRunner.Proofs.Splitting

/-!
# Where statements stand

A statement is a piece of the body it is cut from, without its comments (`Fragment.IsCutFrom`). The
statements of a body stand in it one behind another, each on the line it is reported on
(`laid_split`). So a statement is no longer than the body (`length_text_le_of_mem_split`).

What carries the proof is an invariant of a statement while it is read (`Pending.Tracks`): it is the
text of the characters since its first one, and remembers the line of that.
-/

namespace SnippetRunner

open Text Scan

namespace Scan

/-! ## Characters that are kept -/

/-- Whether a character is left when comments are dropped: it is no comment, or a line break. -/
def isKept (x : Char × CharClass) : Bool := x.2 ≠ .comment || x.1 = '\n'

/-- The text of classified characters without the comments. -/
def keptOf (xs : List (Char × CharClass)) : List Char := (xs.filter isKept).map Prod.fst

/-- The line breaks among classified characters. -/
def breaksIn (xs : List (Char × CharClass)) : Nat := newlines (xs.map Prod.fst)

variable {xs ys : List (Char × CharClass)} {u v : List Char}

@[simp] theorem keptOf_append (xs ys : List (Char × CharClass)) :
    keptOf (xs ++ ys) = keptOf xs ++ keptOf ys := by
  simp [keptOf]

theorem keptOf_cons_of_isKept {x : Char × CharClass} (h : isKept x = true) :
    keptOf (x :: xs) = x.1 :: keptOf xs := by
  simp [keptOf, List.filter_cons_of_pos h]

@[simp] theorem breaksIn_append (xs ys : List (Char × CharClass)) :
    breaksIn (xs ++ ys) = breaksIn xs + breaksIn ys := by
  simp [breaksIn]

theorem breaksIn_singleton_of_ne {c : Char} (h : c ≠ '\n') (cls : CharClass) :
    breaksIn [(c, cls)] = 0 := by
  simp [breaksIn, newlines, h]

/-- No line break is dropped. -/
theorem newlines_keptOf (xs : List (Char × CharClass)) : newlines (keptOf xs) = breaksIn xs := by
  induction xs with
  | nil => rfl
  | cons x xs ih =>
    have hsplit : x :: xs = [x] ++ xs := rfl
    rw [hsplit, keptOf_append, newlines_append, breaksIn_append, ih]
    congr 1
    cases hkept : isKept x with
    | true => rw [keptOf_cons_of_isKept hkept]; rfl
    | false =>
      have hbreak : x.1 ≠ '\n' := by
        rintro h
        simp [isKept, h] at hkept
      rw [show [x] = [(x.1, x.2)] from rfl, breaksIn_singleton_of_ne hbreak]
      simp [keptOf, hkept, newlines]

theorem keptOf_of_forall (h : ∀ x ∈ xs, x.2 ≠ .comment) : keptOf xs = xs.map Prod.fst := by
  have hall : xs.filter isKept = xs :=
    List.filter_eq_self.2 fun x hx => by simp [isKept, h x hx]
  rw [keptOf, hall]

theorem length_keptOf_le (xs : List (Char × CharClass)) : (keptOf xs).length ≤ xs.length := by
  rw [keptOf, List.length_map]
  exact List.length_filter_le _ _

/-- A text of two parts is kept of two parts. -/
theorem exists_of_keptOf_eq_append (h : keptOf xs = u ++ v) :
    ∃ us vs, xs = us ++ vs ∧ keptOf us = u ∧ keptOf vs = v := by
  obtain ⟨us, vs, hfilter, rfl, rfl⟩ := List.map_eq_append_iff.1 h
  obtain ⟨us', vs', rfl, rfl, rfl⟩ := List.filter_eq_append_iff.1 hfilter
  exact ⟨us', vs', rfl, rfl, rfl⟩

/-- What is kept starts with a character that is, and only comments stand in front of that. -/
theorem exists_of_keptOf_eq_cons {c : Char} (h : keptOf xs = c :: u) :
    ∃ us x vs, xs = us ++ x :: vs ∧ keptOf us = [] ∧ isKept x = true ∧ x.1 = c ∧ keptOf vs = u := by
  obtain ⟨x, rest, hfilter, rfl, rfl⟩ := List.map_eq_cons_iff.1 h
  obtain ⟨us, vs, rfl, hnone, hkept, rfl⟩ := List.filter_eq_cons_iff.1 hfilter
  refine ⟨us, x, vs, rfl, ?_, hkept, rfl, rfl⟩
  rw [keptOf, List.filter_eq_nil_iff.2 hnone, List.map_nil]

end Scan

/-! ## Statements in the order of their text -/

namespace Fragment

/-- Whether classified characters start with one that can be the first of a statement: neither white
space nor a comment. -/
def StartsStatement (own : List (Char × CharClass)) : Prop :=
  ∃ x rest, own = x :: rest ∧ x.2 ≠ .comment ∧ isSpace x.1 = false

/-- Whether a statement is the text of the given piece of a scanned text, without the comments in
it. -/
structure IsCutFrom (f : Fragment) (own : List (Char × CharClass)) : Prop where
  starts : StartsStatement own
  text_eq : f.text = keptOf own

/-- `Laid line cs fs`: the statements `fs` are cut from pieces of the scanned text `cs`, one piece
behind another, and each is reported on the line on which its piece starts, where `cs` starts on
`line`. -/
inductive Laid : Nat → List (Char × CharClass) → List Fragment → Prop
  | nil (line : Nat) (cs : List (Char × CharClass)) : Laid line cs []
  | cons {line : Nat} {front own back : List (Char × CharClass)} {f : Fragment}
      {fs : List Fragment} : f.IsCutFrom own → f.line = line + breaksIn front →
        Laid (line + breaksIn (front ++ own)) back fs →
        Laid line (front ++ (own ++ back)) (f :: fs)

section Laid

variable {line : Nat} {cs : List (Char × CharClass)} {fs : List Fragment}

theorem Laid.append_left {front : List (Char × CharClass)}
    (h : Laid (line + breaksIn front) cs fs) : Laid line (front ++ cs) fs := by
  cases h with
  | nil => exact .nil _ _
  | @cons _ front' own back f fs hcut hline hback =>
    rw [← List.append_assoc]
    refine .cons hcut ?_ ?_
    · rw [hline, breaksIn_append, Nat.add_assoc]
    · rwa [List.append_assoc, breaksIn_append, ← Nat.add_assoc]

theorem Laid.append_right (h : Laid line cs fs) (back : List (Char × CharClass)) :
    Laid line (cs ++ back) fs := by
  induction h with
  | nil => exact .nil _ _
  | cons hcut hline _ ih =>
    rw [List.append_assoc, List.append_assoc]
    exact .cons hcut hline ih

/-- A statement of a text stands on the line of one of its characters that are no white space. -/
theorem Laid.exists_of_mem (h : Laid line cs fs) {f : Fragment} (hf : f ∈ fs) :
    ∃ a c b, cs.map Prod.fst = a ++ c :: b ∧ isSpace c = false ∧ f.line = line + newlines a := by
  induction h with
  | nil => exact absurd hf List.not_mem_nil
  | @cons line front own back g fs hcut hline _ ih =>
    rcases List.mem_cons.1 hf with rfl | hf
    · obtain ⟨x, rest, rfl, -, hspace⟩ := hcut.starts
      exact ⟨front.map Prod.fst, x.1, (rest ++ back).map Prod.fst, by simp, hspace, hline⟩
    · obtain ⟨a, c, b, hback, hc, hg⟩ := ih hf
      refine ⟨(front ++ own).map Prod.fst ++ a, c, b, ?_, hc, ?_⟩
      · simp only [List.map_append, hback, List.append_assoc]
      · rw [hg, newlines_append, ← Nat.add_assoc]
        rfl

theorem Laid.length_text_le_of_mem (h : Laid line cs fs) {f : Fragment} (hf : f ∈ fs) :
    f.text.length ≤ cs.length := by
  induction h with
  | nil => exact absurd hf List.not_mem_nil
  | @cons _ front own back g fs hcut _ _ ih =>
    rw [List.length_append, List.length_append]
    rcases List.mem_cons.1 hf with rfl | hf
    · have hle := length_keptOf_le own
      rw [← hcut.text_eq] at hle
      omega
    · have hle := ih hf
      omega

/-- What is laid in a text without comments is laid in any text of which that is kept. -/
theorem Laid.of_keptOf (h : Laid line cs fs) (hno : ∀ x ∈ cs, x.2 ≠ .comment)
    {own : List (Char × CharClass)} (hown : keptOf own = cs.map Prod.fst) : Laid line own fs := by
  induction h generalizing own with
  | nil => exact .nil _ _
  | @cons line front piece back f fs hcut hline _ ih =>
    have hpiece : ∀ x ∈ piece, x.2 ≠ .comment := fun x hx =>
      hno x (List.mem_append_right _ (List.mem_append_left _ hx))
    have hback : ∀ x ∈ back, x.2 ≠ .comment := fun x hx =>
      hno x (List.mem_append_right _ (List.mem_append_right _ hx))
    obtain ⟨x, rest, rfl, -, hspace⟩ := hcut.starts
    rw [List.map_append, List.map_append] at hown
    obtain ⟨front', own', rfl, hfront, hown'⟩ := exists_of_keptOf_eq_append hown
    obtain ⟨piece', back', rfl, hpiece', hback'⟩ := exists_of_keptOf_eq_append hown'
    -- comments that stand in front of the first character of the statement are not part of it
    obtain ⟨us, y, vs, rfl, hus, hkept, hy, hvs⟩ := exists_of_keptOf_eq_cons hpiece'
    have hyspace : isSpace y.1 = false := hy ▸ hspace
    have hstarts : StartsStatement (y :: vs) := by
      refine ⟨y, vs, rfl, fun hcomment => ?_, hyspace⟩
      have hbreak : y.1 = '\n' := by simpa [isKept, hcomment] using hkept
      rw [hbreak] at hyspace
      exact absurd hyspace (by decide)
    have htext : f.text = keptOf (y :: vs) := by
      rw [hcut.text_eq, keptOf_of_forall hpiece, keptOf_cons_of_isKept hkept, hy, hvs]
      rfl
    have hcount : breaksIn (front' ++ us) = breaksIn front := by
      rw [← newlines_keptOf, keptOf_append, hus, List.append_nil, hfront]
      rfl
    have hcount' : breaksIn (y :: vs) = breaksIn (x :: rest) := by
      rw [← newlines_keptOf, ← htext, hcut.text_eq, newlines_keptOf]
    have hsplit : front' ++ ((us ++ y :: vs) ++ back') =
        (front' ++ us) ++ ((y :: vs) ++ back') := by simp
    rw [hsplit]
    refine .cons ⟨hstarts, htext⟩ (by rw [hcount, hline]) ?_
    rw [breaksIn_append, hcount, hcount', ← breaksIn_append]
    exact ih hback hback'

end Laid

/-! ## Statements of a body -/

namespace Pending

variable {p q : Pending} {line : Nat} {past : List (Char × CharClass)} {c : Char} {cls : CharClass}

/-- Whether a statement while it is read is the text of what was passed since its first character,
where `past` was passed since the start of `line`. -/
structure Tracks (p : Pending) (line : Nat) (past : List (Char × CharClass)) : Prop where
  line_eq : p.line = line + breaksIn past
  read : isBlank p.text = false → ∃ front own, past = front ++ own ∧ StartsStatement own ∧
    p.text = keptOf own ∧ p.start = line + breaksIn front

theorem tracks_of_isBlank (hblank : isBlank p.text = true) (hline : p.line = line + breaksIn past) :
    p.Tracks line past :=
  ⟨hline, fun h => absurd hblank (by simp [h])⟩

/-- One more character of the statement, or white space in front of it. -/
theorem Tracks.push (h : p.Tracks line past) (hc : c ≠ '\n') (hcls : cls ≠ .comment)
    (hread : q.read = (p.push c).read) (hstart : q.start = (p.push c).start)
    (hline : q.line = p.line) : q.Tracks line (past ++ [(c, cls)]) := by
  have hkept : keptOf [(c, cls)] = [c] := by simp [keptOf, isKept, hcls]
  refine ⟨?_, fun hq => ?_⟩
  · rw [hline, h.line_eq, breaksIn_append, breaksIn_singleton_of_ne hc, Nat.add_zero]
  · cases hp : isBlank p.read with
    | false =>
      rw [start_push hp] at hstart
      rw [read_push hp] at hread
      obtain ⟨front, own, rfl, ⟨x, rest, rfl, hx⟩, htext, hfront⟩ :=
        h.read (by rw [isBlank_text, hp])
      refine ⟨front, x :: rest ++ [(c, cls)], by simp, ⟨x, rest ++ [(c, cls)], rfl, hx⟩, ?_,
        hstart.trans hfront⟩
      rw [keptOf_append, hkept, ← htext, text, hread, List.reverse_cons, text]
    | true =>
      cases hspace : isSpace c with
      | true =>
        have hblank : isBlank q.read = true := by
          rw [hread, Pending.push]
          simp [hp, hspace, isBlank_cons]
        rw [isBlank_text, hblank] at hq
        exact absurd hq (by decide)
      | false =>
        simp only [Pending.push, hp, hspace, Bool.not_false, Bool.and_self, if_true] at hread hstart
        refine ⟨past, [(c, cls)], rfl, ⟨_, [], rfl, hcls, hspace⟩, ?_, hstart.trans h.line_eq⟩
        rw [hkept, text, hread]
        rfl

theorem Tracks.pushBreak (h : p.Tracks line past) (cls : CharClass) :
    p.pushBreak.Tracks line (past ++ [('\n', cls)]) := by
  have hkept : keptOf [('\n', cls)] = ['\n'] := by simp [keptOf, isKept]
  refine ⟨?_, fun hq => ?_⟩
  · rw [breaksIn_append, ← Nat.add_assoc, ← h.line_eq]
    rfl
  · rw [text_pushBreak, isBlank_append, Bool.and_eq_false_iff] at hq
    obtain ⟨front, own, rfl, ⟨x, rest, rfl, hx⟩, htext, hfront⟩ :=
      h.read (hq.resolve_right (by decide))
    refine ⟨front, x :: rest ++ [('\n', cls)], by simp, ⟨x, rest ++ [('\n', cls)], rfl, hx⟩, ?_,
      hfront⟩
    rw [keptOf_append, hkept, ← htext, text_pushBreak]

theorem Tracks.comment (h : p.Tracks line past) (hc : c ≠ '\n') :
    p.Tracks line (past ++ [(c, .comment)]) := by
  have hkept : keptOf [(c, CharClass.comment)] = [] := by simp [keptOf, isKept, hc]
  refine ⟨?_, fun hp => ?_⟩
  · rw [h.line_eq, breaksIn_append, breaksIn_singleton_of_ne hc, Nat.add_zero]
  · obtain ⟨front, own, rfl, ⟨x, rest, rfl, hx⟩, htext, hfront⟩ := h.read hp
    refine ⟨front, x :: rest ++ [(c, .comment)], by simp, ⟨x, rest ++ [(c, .comment)], rfl, hx⟩, ?_,
      hfront⟩
    rw [keptOf_append, hkept, ← htext, List.append_nil]

/-- The statement that is finished stands in front of those that are laid in the rest. -/
theorem Tracks.laid_finish (h : p.Tracks line past) {cs : List (Char × CharClass)}
    {fs : List Fragment} (hrest : Laid (line + breaksIn past) cs fs) :
    Laid line (past ++ cs) (p.finish ++ fs) := by
  cases hblank : isBlank p.text with
  | true =>
    rw [finish_of_isBlank hblank]
    exact hrest.append_left
  | false =>
    cases hfinish : p.finish with
    | nil => exact hrest.append_left
    | cons f gs =>
      have hf : f ∈ p.finish := by rw [hfinish]; exact List.mem_cons_self
      obtain rfl : gs = [] := (List.cons.inj (hfinish.symm.trans (finish_of_mem hf))).2
      obtain ⟨front, own, rfl, ⟨x, rest, rfl, hcls, hspace⟩, htext, hstart⟩ := h.read hblank
      have hkept : isKept x = true := by simp [isKept, hcls]
      have htrim : trim p.text = trimEnd p.text := by
        rw [trim, trimStart_eq_self]
        rw [htext, keptOf_cons_of_isKept hkept]
        simpa using hspace
      -- the white space at the end of what was read is not part of the statement
      obtain ⟨b, hend, -⟩ := exists_eq_trimEnd_append p.text
      rw [← htrim, htext] at hend
      obtain ⟨own, tail, hown, hkeptOwn, -⟩ := exists_of_keptOf_eq_append hend
      cases own with
      | nil =>
        rw [← htext, eq_comm] at hkeptOwn
        rw [trim_eq_nil_iff.1 hkeptOwn] at hblank
        exact absurd hblank (by decide)
      | cons y own =>
        rw [List.cons_append, List.cons.injEq] at hown
        obtain ⟨rfl, rfl⟩ := hown
        have hcut : f.IsCutFrom (x :: own) := by
          refine ⟨⟨x, own, rfl, hcls, hspace⟩, ?_⟩
          rw [hkeptOwn, ← htext, mem_finish hf]
        have hline : f.line = line + breaksIn front := by rw [← hstart, mem_finish hf]
        have hsplit : front ++ x :: (own ++ tail) ++ cs = front ++ (x :: own ++ (tail ++ cs)) := by
          simp
        rw [hsplit]
        refine .cons hcut hline (Laid.append_left ?_)
        have hbreaks : breaksIn (front ++ x :: (own ++ tail)) =
            breaksIn (front ++ x :: own) + breaksIn tail := by
          rw [← breaksIn_append]
          simp
        rwa [Nat.add_assoc, ← hbreaks]

end Pending

open Pending

/-- **What is behind the part of a statement already read is cut into statements that stand in it
one behind another.** -/
theorem laid_splitIn {p : Pending} {line : Nat} {past : List (Char × CharClass)}
    (h : p.Tracks line past) (cs : List (Char × CharClass)) :
    Laid line (past ++ cs) (splitIn p cs) := by
  induction cs generalizing p line past with
  | nil =>
    have hend := h.laid_finish (.nil _ [])
    rwa [List.append_nil p.finish] at hend
  | cons x cs ih =>
    obtain ⟨c, cls⟩ := x
    have hreads := reads_advance p c cls (cs.map Prod.fst)
    rw [splitIn]
    generalize (p.advance c cls (cs.map Prod.fst)).1 = out at hreads ⊢
    generalize (p.advance c cls (cs.map Prod.fst)).2 = p' at hreads ⊢
    have hsplit : past ++ (c, cls) :: cs = past ++ [(c, cls)] ++ cs := by simp
    cases hreads with
    | endLine hc =>
      subst hc
      have hclear : p.clear.nextLine.Tracks (line + breaksIn past) [('\n', cls)] :=
        tracks_of_isBlank rfl (by rw [← h.line_eq]; rfl)
      exact h.laid_finish (ih hclear)
    | goOn hc =>
      subst hc
      rw [hsplit]
      exact ih (h.pushBreak cls)
    | comment hc hcls =>
      subst hcls
      rw [hsplit]
      exact ih (h.comment hc)
    | push q hc hcls hread hstart hline =>
      rw [hsplit]
      exact ih (h.push hc hcls hread hstart hline)
    | close q hc hcls hread hstart hline =>
      have hne : cls ≠ .comment := by rw [hcls]; decide
      have hq := h.push hc hne hread hstart hline
      have hclear : q.clear.Tracks (line + breaksIn (past ++ [(c, cls)])) [] :=
        tracks_of_isBlank rfl hq.line_eq
      rw [hsplit]
      exact hq.laid_finish (ih hclear)
    | semicolon hc hcls =>
      subst hc
      have hclear : p.clear.Tracks (line + breaksIn past) [(';', cls)] :=
        tracks_of_isBlank rfl (by rw [← h.line_eq]; rfl)
      exact h.laid_finish (ih hclear)

/-- **The statements of a body stand in it one behind another**, each on the line it is reported
on. -/
theorem laid_split (body : List Char) (line : Nat) :
    Laid line (classify .code body) (split body line) := by
  have hempty : (Pending.empty line).Tracks line [] := tracks_of_isBlank rfl rfl
  rw [split, splitFrom_eq_splitIn]
  exact laid_splitIn hempty _

/-! ## Lengths -/

/-- **A statement is no longer than the text it was cut from.** -/
theorem length_text_le_of_mem_split {body : List Char} {line : Nat} {f : Fragment}
    (h : f ∈ split body line) : f.text.length ≤ body.length := by
  have hlength : (classify .code body).length = body.length := by
    rw [← List.length_map Prod.fst, map_fst_classify]
  rw [← hlength]
  exact (laid_split body line).length_text_le_of_mem h

/-- The statements of a body in braces are shorter than the body, braces included. -/
theorem length_text_lt_of_mem_splitBody {body : List Char} {line : Nat} {g : Fragment}
    (hclose : (closing? '{' '}' (trimStart body)).isSome) (h : g ∈ splitBody body line) :
    g.text.length < body.length := by
  obtain ⟨⟨inner, rest⟩, hinner⟩ := Option.isSome_iff_exists.1 hclose
  have hle := length_trimStart_le body
  have hparts := eq_of_closing? (by decide) hinner
  simp only [splitBody, hinner] at h
  have hlen := length_text_le_of_mem_split h
  rw [hparts] at hle
  simp only [List.length_append, List.length_cons] at hle
  omega

theorem length_text_le_of_mem_splitBody {body : List Char} {line : Nat} {g : Fragment}
    (h : g ∈ splitBody body line) : g.text.length ≤ body.length := by
  cases hclose : closing? '{' '}' (trimStart body) with
  | some parts => exact Nat.le_of_lt (length_text_lt_of_mem_splitBody (by simp [hclose]) h)
  | none =>
    simp only [splitBody, hclose] at h
    exact Nat.le_trans (length_text_le_of_mem_split h) (length_trimStart_le body)

/-! ## Bodies of blocks and loops -/

/-- The statements of the body of a block or a loop are those of a part of it. -/
theorem exists_splitBody_eq {body : List Char} (hno : Uncommented .code body) (line : Nat) :
    ∃ a inner b, body = a ++ (inner ++ b) ∧ Uncommented .code inner ∧
      splitBody body line = split inner (line + newlines a) := by
  have hstep (next : Option Char) : Mode.step .code '{' next = (.code, .code) := by simp [Mode.step]
  have htrim : body = body.takeWhile isSpace ++ trimStart body :=
    List.takeWhile_append_dropWhile.symm
  have htake : body.take (body.length - (trimStart body).length) = body.takeWhile isSpace := by
    have hlen := congrArg List.length htrim
    rw [List.length_append] at hlen
    rw [show body.length - (trimStart body).length = (body.takeWhile isSpace).length by omega]
    exact List.prefix_iff_eq_take.1 (List.takeWhile_prefix _) |>.symm
  simp only [splitBody, htake]
  cases hclose : closing? '{' '}' (trimStart body) with
  | none => exact ⟨body.takeWhile isSpace, trimStart body, [], by rw [List.append_nil]; exact htrim,
      hno.trimStart, rfl⟩
  | some group =>
    obtain ⟨inner, rest⟩ := group
    have hgroup := eq_of_closing? (by decide) hclose
    refine ⟨body.takeWhile isSpace ++ ['{'], inner, '}' :: rest, ?_,
      (Uncommented.of_closing? (by decide) hstep hclose hno.trimStart).1, ?_⟩
    · rw [List.append_assoc, List.singleton_append, ← List.cons_append, ← hgroup]
      exact htrim
    · rw [newlines_append, show newlines ['{'] = 0 from rfl, Nat.add_zero]

end Fragment

end SnippetRunner
