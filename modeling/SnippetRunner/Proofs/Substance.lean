import Mathlib.Data.List.Flatten
import Mathlib.Logic.Function.Iterate
import SnippetRunner.Proofs.Provenance

/-!
# What splitting loses

Every character of a body that is code or part of a literal, that is no white space and no semicolon
outside of all brackets, counts as its substance (`substance`). Splitting cuts a body into pieces
(`pieces`), and the substance of the body is that of its pieces, one behind another
(`solid_piecesIn`).

The statements are the texts of the pieces without those that start like an import, a package
declaration or an annotation (`map_text_splitIn`). So nothing is lost but such pieces, and all of
such a piece is lost: `@A int a = 1` is no statement. What has to be left of a piece is what stands
behind the declaration it starts with (`undeclared`). All of that is left of a body exactly if
nothing stands behind these declarations (`owed_sublist_iff`).
-/

namespace SnippetRunner

open Text Scan

namespace Text

/-- The characters of a text that are no white space. -/
def solid (cs : List Char) : List Char := cs.filter fun c => !isSpace c

variable {a b : List Char}

@[simp] theorem solid_append (a b : List Char) : solid (a ++ b) = solid a ++ solid b :=
  List.filter_append a b

theorem solid_eq_nil_iff : solid a = [] ↔ isBlank a = true := by
  simp [solid, isBlank]

theorem solid_trim (cs : List Char) : solid (trim cs) = solid cs := by
  obtain ⟨s, b, hcs, hs, hb⟩ := exists_eq_append_trim cs
  conv_rhs => rw [hcs]
  rw [solid_append, solid_append, solid_eq_nil_iff.2 hs, solid_eq_nil_iff.2 hb, List.nil_append,
    List.append_nil]

end Text

namespace Scan

/-- A character with a space in its place if it belongs to a comment. Line breaks stay. -/
def spacedChar : Char × CharClass → Char × CharClass
  | (c, .comment) => (if c = '\n' then '\n' else ' ', .code)
  | x => x

/-- The text of classified characters with a space for every character of a comment. -/
def spacedOut (xs : List (Char × CharClass)) : List Char := xs.map fun x => (spacedChar x).1

end Scan

namespace Fragment

/-! ## Declarations in front of a statement -/

/-- A place in front of, inside of or behind a part of a name such as `java.util.List`. -/
inductive NamePlace
  | before
  | inside
  | behind
  deriving DecidableEq

/-- What follows a qualified name. With `star` the name may end with a star for all its members. -/
def afterName (star : Bool) : NamePlace → List Char → List Char
  | _, [] => []
  | place, c :: cs =>
    if isSpace c then afterName star (if place = .inside then .behind else place) cs
    else if c = '.' ∧ place ≠ .before then afterName star .before cs
    else if isIdentPart c ∧ place ≠ .behind then afterName star .inside cs
    else if c = '*' ∧ star ∧ place = .before then cs
    else c :: cs

/-- What follows the name of an import. -/
def afterImport (cs : List Char) : List Char :=
  match afterLead? "static ".toList (trimStart cs) with
  | some rest => afterName true .before rest
  | none => afterName true .before cs

/-- What follows the annotation that a text starts with; the text if there is none. -/
def afterAnnotation (cs : List Char) : List Char :=
  match afterLead? ['@'] (trimStart cs) with
  | none => cs
  | some rest =>
    match closing? '(' ')' (afterName false .before rest) with
    | some (_, rest) => rest
    | none => afterName false .before rest

/-- What follows the import, the package declaration or the annotations that a text starts with. -/
def undeclared (cs : List Char) : List Char :=
  match afterLead? "import ".toList (trimStart cs) with
  | some rest => afterImport rest
  | none =>
    match afterLead? "package ".toList (trimStart cs) with
    | some rest => afterName false .before rest
    | none => afterAnnotation^[cs.count '@'] cs

theorem afterName_suffix (star : Bool) (place : NamePlace) (cs : List Char) :
    afterName star place cs <:+ cs := by
  induction cs generalizing place with
  | nil => exact List.suffix_rfl
  | cons c cs ih =>
    have hrest (place : NamePlace) : afterName star place cs <:+ c :: cs :=
      (ih place).trans (List.suffix_cons c cs)
    rw [afterName]
    split
    · exact hrest _
    split
    · exact hrest _
    split
    · exact hrest _
    split
    · exact List.suffix_cons c cs
    · exact List.suffix_rfl

/-- What follows the lead of a text, white space in front of it aside, ends the text. -/
theorem suffix_of_afterLead?_trimStart {lead cs rest : List Char}
    (h : afterLead? lead (trimStart cs) = some rest) : rest <:+ cs :=
  (List.suffix_append lead rest).trans
    ((eq_append_of_afterLead? h) ▸ List.dropWhile_suffix isSpace)

theorem afterImport_suffix (cs : List Char) : afterImport cs <:+ cs := by
  unfold afterImport
  split
  · next rest hlead => exact (afterName_suffix _ _ _).trans (suffix_of_afterLead?_trimStart hlead)
  · exact afterName_suffix _ _ _

theorem afterAnnotation_suffix (cs : List Char) : afterAnnotation cs <:+ cs := by
  unfold afterAnnotation
  split
  · exact List.suffix_rfl
  · next rest hlead =>
    have hname := (afterName_suffix false .before rest).trans (suffix_of_afterLead?_trimStart hlead)
    split
    · next inner rest' hgroup =>
      refine List.IsSuffix.trans ?_ hname
      rw [eq_of_closing? (by decide) hgroup]
      exact (List.suffix_cons ')' rest').trans (List.suffix_append ('(' :: inner) _)
    · exact hname

/-- What follows a declaration ends the text. -/
theorem undeclared_suffix (cs : List Char) : undeclared cs <:+ cs := by
  unfold undeclared
  split
  · next rest hlead =>
    exact (afterImport_suffix rest).trans (suffix_of_afterLead?_trimStart hlead)
  · split
    · next rest hlead =>
      exact (afterName_suffix _ _ _).trans (suffix_of_afterLead?_trimStart hlead)
    · generalize cs.count '@' = n
      induction n with
      | zero => exact List.suffix_rfl
      | succ n ih =>
        rw [Function.iterate_succ_apply']
        exact (afterAnnotation_suffix _).trans ih

/-! ## Pieces of a body -/

/-- The open parentheses and brackets behind a character. -/
def parensAfter (c : Char) (cls : CharClass) (parens : Nat) : Nat :=
  if cls = .code ∧ (c = '(' ∨ c = '[') then parens + 1
  else if cls = .code ∧ (c = ')' ∨ c = ']') then parens - 1
  else parens

/-- The characters of code and of literals that are no white space, without the semicolons that
stand outside of all brackets. The given brackets are open in front of the text. -/
def substance (parens braces : Nat) : List (Char × CharClass) → List Char
  | [] => []
  | (c, cls) :: rest =>
    let behind := substance (parensAfter c cls parens) (Pending.bracesAfter c cls braces) rest
    let ends := (c, cls) = (';', .code) ∧ parens = 0 ∧ braces = 0
    if cls = .comment ∨ isSpace c ∨ ends then behind else c :: behind

/-- What one character does to the piece `own` that belongs to the statement being read: the pieces
that are finished by it, and the piece behind it. -/
def Pending.cut (p : Pending) (own : List (Char × CharClass)) (x : Char × CharClass)
    (rest : List Char) : List (List (Char × CharClass)) × List (Char × CharClass) :=
  if x.1 = '\n' then
    if p.isTop && !goesOn p.text rest then ([own], []) else ([], own ++ [x])
  else if x = ('}', .code) then
    let p' := { p.push '}' with braces := p.braces - 1 }
    if p'.isTop && !isInitializer p'.text then ([own ++ [x]], []) else ([], own ++ [x])
  else if x = (';', .code) ∧ p.isTop then ([own], [])
  else ([], own ++ [x])

/-- The pieces of classified characters, behind the piece `own` that is being read. -/
def piecesIn (p : Pending) (own : List (Char × CharClass)) :
    List (Char × CharClass) → List (List (Char × CharClass))
  | [] => [own]
  | x :: rest =>
    (p.cut own x (rest.map Prod.fst)).1 ++
      piecesIn (p.advance x.1 x.2 (rest.map Prod.fst)).2 (p.cut own x (rest.map Prod.fst)).2 rest

/-- The pieces that a body is cut into, with the comments in them and without what ends them, unless
that is a brace. -/
def pieces (body : List Char) (line : Nat) : List (List (Char × CharClass)) :=
  piecesIn (.empty line) [] (classify .code body)

/-- The text of a piece. -/
def textOf (own : List (Char × CharClass)) : List Char := trim (keptOf own)

/-- What of a piece has to be left: all of it, or what stands behind the declaration it starts
with. -/
def owedOf (own : List (Char × CharClass)) : List Char :=
  if isSkipped (textOf own) then solid (undeclared (spacedOut own)) else solid (keptOf own)

/-- What of a body has to be left. -/
def owed (body : List Char) (line : Nat) : List Char := (pieces body line).flatMap owedOf

/-- Whether nothing stands behind the declaration that a piece starts with. -/
def IsDeclaration (own : List (Char × CharClass)) : Prop :=
  isBlank (undeclared (spacedOut own)) = true

namespace Pending

variable {p q : Pending} {own : List (Char × CharClass)} {c : Char} {cls : CharClass}

/-- The statement being read is the text of a piece, but for white space in front of it. -/
def Reading (p : Pending) (own : List (Char × CharClass)) : Prop :=
  ∃ s, isBlank s = true ∧ keptOf own = s ++ p.text

theorem reading_nil (h : p.read = []) : p.Reading [] := ⟨[], rfl, by simp [text, h, keptOf]⟩

theorem Reading.textOf_eq (h : p.Reading own) : textOf own = trim p.text := by
  obtain ⟨s, hs, hown⟩ := h
  rw [textOf, hown, trim_append_of_isBlank_left hs]

theorem Reading.push (h : p.Reading own) (hcls : cls ≠ .comment)
    (hread : q.read = (p.push c).read) : q.Reading (own ++ [(c, cls)]) := by
  obtain ⟨s, hs, hown⟩ := h
  have hkept : keptOf [(c, cls)] = [c] := by simp [keptOf, isKept, hcls]
  rw [Reading, keptOf_append, hown, hkept, show q.text = (p.push c).text by rw [text, hread, text]]
  unfold Pending.push
  split
  · next hblank =>
    rw [Bool.and_eq_true, ← isBlank_text] at hblank
    exact ⟨s ++ p.text, by rw [isBlank_append, hs, hblank.1]; rfl, rfl⟩
  · exact ⟨s, hs, by simp [text]⟩

theorem Reading.pushBreak (h : p.Reading own) (cls : CharClass) :
    p.pushBreak.Reading (own ++ [('\n', cls)]) := by
  obtain ⟨s, hs, hown⟩ := h
  have hkept : keptOf [('\n', cls)] = ['\n'] := by simp [keptOf, isKept]
  exact ⟨s, hs, by rw [keptOf_append, hown, hkept, text_pushBreak, List.append_assoc]⟩

theorem Reading.comment (h : p.Reading own) (hc : c ≠ '\n') :
    p.Reading (own ++ [(c, .comment)]) := by
  obtain ⟨s, hs, hown⟩ := h
  have hkept : keptOf [(c, CharClass.comment)] = [] := by simp [keptOf, isKept, hc]
  exact ⟨s, hs, by rw [keptOf_append, hown, hkept, List.append_nil]⟩

/-- A statement is finished exactly if the text of its piece is one. -/
theorem Reading.map_finish (h : p.Reading own) :
    p.finish.map Fragment.text =
      [textOf own].filter fun t => !t.isEmpty && !isSkipped t := by
  rw [h.textOf_eq, finish]
  cases hempty : (trim p.text).isEmpty <;> cases hskip : isSkipped (trim p.text) <;>
    simp [hempty, hskip]

/-- What one character does to the statement being read, it does to the piece. -/
theorem Reading.advance (h : p.Reading own) (c : Char) (cls : CharClass) (rest : List Char) :
    (p.advance c cls rest).1.map Fragment.text =
        ((p.cut own (c, cls) rest).1.map textOf).filter (fun t => !t.isEmpty && !isSkipped t) ∧
      (p.advance c cls rest).2.Reading (p.cut own (c, cls) rest).2 := by
  unfold Pending.advance Pending.cut
  by_cases hc : c = '\n'
  · subst hc
    rw [if_pos rfl, if_pos rfl]
    split
    · exact ⟨h.map_finish, reading_nil rfl⟩
    · exact ⟨rfl, h.pushBreak cls⟩
  rw [if_neg hc, if_neg hc]
  cases cls with
  | comment => exact ⟨by simp, by simpa using h.comment hc⟩
  | literal => exact ⟨by simp, by simpa using h.push (q := p.push c) (by decide) rfl⟩
  | code =>
    have hpush (q : Pending) (hq : q.read = (p.push c).read) :
        q.Reading (own ++ [(c, .code)]) := h.push (by decide) hq
    by_cases hbrace : c = '}'
    · subst hbrace
      simp only [Char.reduceEq, or_self, if_false, if_true]
      split
      · exact ⟨(hpush _ rfl).map_finish, reading_nil rfl⟩
      · exact ⟨rfl, hpush _ rfl⟩
    by_cases hsemicolon : c = ';' ∧ p.isTop = true
    · obtain ⟨rfl, htop⟩ := hsemicolon
      simp only [Char.reduceEq, or_self, if_false, htop, and_self, if_true, Prod.mk.injEq]
      exact ⟨h.map_finish, reading_nil rfl⟩
    · simp only [Prod.mk.injEq, hbrace, hsemicolon, and_true, if_false]
      split_ifs
      all_goals exact ⟨rfl, hpush _ rfl⟩

/-- The brackets that are open behind a character. -/
theorem brackets_advance (p : Pending) (c : Char) (cls : CharClass) (rest : List Char) :
    (p.advance c cls rest).2.parens = parensAfter c cls p.parens ∧
      (p.advance c cls rest).2.braces = bracesAfter c cls p.braces := by
  have hpush : (p.push c).parens = p.parens ∧ (p.push c).braces = p.braces := by
    unfold Pending.push
    split <;> exact ⟨rfl, rfl⟩
  unfold Pending.advance parensAfter bracesAfter
  by_cases hc : c = '\n'
  · subst hc
    simp only [if_true, Char.reduceEq, or_self, and_false, if_false]
    split <;> exact ⟨rfl, rfl⟩
  rw [if_neg hc]
  cases cls with
  | comment => simp
  | literal => simpa using hpush
  | code =>
    dsimp only
    split_ifs <;> simp_all [clear]

/-- The characters of a piece are those read and the one more, unless that ends the piece and does
not belong to it. -/
theorem solid_cut (p : Pending) (own : List (Char × CharClass)) (x : Char × CharClass)
    (rest : List Char) :
    (p.cut own x rest).1.flatMap (fun own => solid (keptOf own)) ++
        solid (keptOf (p.cut own x rest).2) =
      solid (keptOf own) ++
        if x = (';', .code) ∧ p.isTop = true then [] else solid (keptOf [x]) := by
  have hnil : solid (keptOf []) = [] := rfl
  unfold cut
  split
  · next hbreak =>
    have hsolid : solid (keptOf [x]) = [] := by
      obtain ⟨c, cls⟩ := x
      rw [show c = '\n' from hbreak]
      cases cls <;> decide
    have hother : ¬ (x = (';', .code) ∧ p.isTop = true) := by
      rintro ⟨rfl, -⟩
      exact absurd hbreak (by decide)
    rw [if_neg hother]
    split <;> simp [hnil, hsolid]
  split
  · next hbrace =>
    have hother : ¬ (x = (';', .code) ∧ p.isTop = true) := by
      rintro ⟨rfl, -⟩
      exact absurd hbrace (by decide)
    rw [if_neg hother]
    dsimp only
    split <;> simp [hnil]
  split
  · simp [hnil]
  · simp

end Pending

open Pending

theorem substance_cons (parens braces : Nat) (x : Char × CharClass)
    (rest : List (Char × CharClass)) :
    substance parens braces (x :: rest) =
      (if x = (';', .code) ∧ parens = 0 ∧ braces = 0 then [] else solid (keptOf [x])) ++
        substance (parensAfter x.1 x.2 parens) (bracesAfter x.1 x.2 braces) rest := by
  obtain ⟨c, cls⟩ := x
  rw [substance]
  dsimp only
  by_cases hend : (c, cls) = (';', CharClass.code) ∧ parens = 0 ∧ braces = 0
  · rw [if_pos (.inr (.inr hend)), if_pos hend]
    rfl
  · rw [if_neg hend]
    by_cases hdrop : cls = .comment ∨ isSpace c = true
    · have hnil : solid (keptOf [(c, cls)]) = [] := by
        obtain rfl | hspace := hdrop
        · by_cases hbreak : c = '\n'
          · subst hbreak
            decide
          · simp [keptOf, isKept, hbreak, solid]
        · cases hkept : isKept (c, cls) <;> simp [keptOf, hkept, solid, hspace]
      rw [if_pos (hdrop.imp_right .inl), hnil]
      rfl
    · rw [not_or] at hdrop
      have hone : solid (keptOf [(c, cls)]) = [c] := by
        simp [keptOf, isKept, hdrop.1, solid, hdrop.2]
      rw [if_neg (by tauto), hone]
      rfl

theorem solid_piecesIn (p : Pending) (own cs : List (Char × CharClass)) :
    (piecesIn p own cs).flatMap (fun own => solid (keptOf own)) =
      solid (keptOf own) ++ substance p.parens p.braces cs := by
  induction cs generalizing p own with
  | nil => simp [piecesIn, substance]
  | cons x cs ih =>
    obtain ⟨hparens, hbraces⟩ := p.brackets_advance x.1 x.2 (cs.map Prod.fst)
    have htop : p.isTop = true ↔ p.parens = 0 ∧ p.braces = 0 := by simp [isTop]
    rw [piecesIn, List.flatMap_append, ih, ← List.append_assoc, solid_cut, hparens, hbraces,
      substance_cons, ← List.append_assoc]
    simp only [htop]

theorem map_text_splitIn {p : Pending} {own : List (Char × CharClass)} (h : p.Reading own)
    (cs : List (Char × CharClass)) :
    (splitIn p cs).map Fragment.text =
      ((piecesIn p own cs).map textOf).filter fun t => !t.isEmpty && !isSkipped t := by
  induction cs generalizing p own with
  | nil => exact h.map_finish
  | cons x cs ih =>
    obtain ⟨hout, hnext⟩ := h.advance x.1 x.2 (cs.map Prod.fst)
    rw [splitIn, piecesIn, List.map_append, List.map_append, List.filter_append, hout, ih hnext]

/-! ## What is left of a body -/

section FlatMap

variable {α β : Type} {f g : α → List β}

/-- If the parts of a list are sublists of the parts of the same list, they are the same parts. -/
theorem eq_of_flatMap_eq (h : ∀ x, (f x).Sublist (g x)) {xs : List α}
    (heq : xs.flatMap f = xs.flatMap g) (x : α) (hx : x ∈ xs) : f x = g x := by
  induction xs with
  | nil => exact absurd hx List.not_mem_nil
  | cons y xs ih =>
    have hrest : (xs.flatMap f).Sublist (xs.flatMap g) := .flatMap_right xs fun z _ => h z
    rw [List.flatMap_cons, List.flatMap_cons] at heq
    have hlength := congrArg List.length heq
    rw [List.length_append, List.length_append] at hlength
    have hhead : (f y).length = (g y).length := by
      have hle := (h y).length_le
      have hle' := hrest.length_le
      omega
    obtain ⟨hy, hys⟩ := List.append_inj heq hhead
    obtain rfl | hx := List.mem_cons.1 hx
    · exact hy
    · exact ih hys hx

end FlatMap

theorem solid_spacedOut (own : List (Char × CharClass)) :
    solid (spacedOut own) = solid (keptOf own) := by
  induction own with
  | nil => rfl
  | cons x own ih =>
    have hsplit : x :: own = [x] ++ own := rfl
    rw [hsplit, keptOf_append, solid_append, ← ih, spacedOut, List.map_append, solid_append]
    congr 1
    obtain ⟨c, cls⟩ := x
    cases cls with
    | comment =>
      by_cases hbreak : c = '\n'
      · subst hbreak
        decide
      · simp [keptOf, isKept, hbreak, spacedChar, solid, isSpace]
    | code | literal => simp [keptOf, isKept, spacedChar]

/-- What has to be left of a piece is part of it. -/
theorem owedOf_sublist (own : List (Char × CharClass)) :
    (owedOf own).Sublist (solid (keptOf own)) := by
  unfold owedOf
  split
  · rw [← solid_spacedOut]
    exact (undeclared_suffix _).sublist.filter _
  · exact List.Sublist.refl _

/-- What is left of a piece: nothing if it starts like a declaration. -/
def leftOf (own : List (Char × CharClass)) : List Char :=
  if isSkipped (textOf own) then [] else solid (keptOf own)

/-- The statements of a body are what is left of its pieces. -/
theorem flatMap_leftOf_pieces (body : List Char) (line : Nat) :
    (pieces body line).flatMap leftOf = (split body line).flatMap fun f => solid f.text := by
  have htexts : (split body line).flatMap (fun f => solid f.text) =
      ((split body line).map Fragment.text).flatMap solid := by
    rw [List.flatMap_map]
  have hreading : (Pending.empty line).Reading [] := reading_nil rfl
  rw [htexts, split, splitFrom_eq_splitIn, map_text_splitIn hreading, pieces]
  induction piecesIn (Pending.empty line) [] (classify .code body) with
  | nil => rfl
  | cons own owns ih =>
    have hsolid : solid (textOf own) = solid (keptOf own) := solid_trim _
    rw [List.flatMap_cons, ih, List.map_cons, List.filter_cons, leftOf]
    cases hskip : isSkipped (textOf own) with
    | true => simp
    | false =>
      cases hempty : (textOf own).isEmpty with
      | true =>
        have hnil : solid (keptOf own) = [] := by
          rw [← hsolid, List.isEmpty_iff.1 hempty]
          rfl
        simp [hnil]
      | false => simp [hsolid]

theorem leftOf_sublist (own : List (Char × CharClass)) : (leftOf own).Sublist (owedOf own) := by
  unfold leftOf owedOf
  split
  · exact List.nil_sublist _
  · exact List.Sublist.refl _

theorem leftOf_eq_iff (own : List (Char × CharClass)) :
    leftOf own = owedOf own ↔ (isSkipped (textOf own) = true → IsDeclaration own) := by
  unfold leftOf owedOf IsDeclaration
  split
  · next hskip => simp [hskip, eq_comm (a := []), solid_eq_nil_iff]
  · next hskip => simp [hskip]

/-- **Splitting loses nothing exactly if nothing stands behind the declarations that pieces start
with.** The substance of a body is that of its pieces; the statements are the texts of the pieces
that do not start like a declaration; and what has to be left of the body, which is part of its
substance, stands in the statements in its order if and only if each of the other pieces is a
declaration and no more. In that case nothing else is left. -/
theorem owed_sublist_iff (body : List Char) (line : Nat) :
    (pieces body line).flatMap (fun own => solid (keptOf own)) =
        substance 0 0 (classify .code body) ∧
      (split body line).map Fragment.text =
        ((pieces body line).map textOf).filter (fun t => !t.isEmpty && !isSkipped t) ∧
      (owed body line).Sublist (substance 0 0 (classify .code body)) ∧
      ((owed body line).Sublist ((split body line).flatMap fun f => solid f.text) ↔
        ∀ own ∈ pieces body line, isSkipped (textOf own) = true → IsDeclaration own) ∧
      ((∀ own ∈ pieces body line, isSkipped (textOf own) = true → IsDeclaration own) →
        (split body line).flatMap (fun f => solid f.text) = owed body line) := by
  have hreading : (Pending.empty line).Reading [] := reading_nil rfl
  have hsubstance : (pieces body line).flatMap (fun own => solid (keptOf own)) =
      substance 0 0 (classify .code body) := solid_piecesIn _ _ _
  have hleft
      (h : ∀ own ∈ pieces body line, isSkipped (textOf own) = true → IsDeclaration own) :
      (split body line).flatMap (fun f => solid f.text) = owed body line := by
    rw [← flatMap_leftOf_pieces, owed]
    exact congrArg List.flatten
      (List.map_congr_left fun own hown => (leftOf_eq_iff own).2 (h own hown))
  refine ⟨hsubstance, ?_, ?_, ⟨fun h own hown => ?_, fun h => ?_⟩, hleft⟩
  · rw [split, splitFrom_eq_splitIn]
    exact map_text_splitIn hreading _
  · rw [← hsubstance, owed]
    exact .flatMap_right _ fun own _ => owedOf_sublist own
  · -- what is left is part of what has to be left, so the two are the same piece by piece
    rw [← flatMap_leftOf_pieces, owed] at h
    have hpart : ((pieces body line).flatMap leftOf).Sublist ((pieces body line).flatMap owedOf) :=
      .flatMap_right _ fun own _ => leftOf_sublist own
    have heq := hpart.eq_of_length_le h.length_le
    exact (leftOf_eq_iff own).1 (eq_of_flatMap_eq leftOf_sublist heq own hown)
  · simp only [hleft h, List.Sublist.refl]

/-- A statement is lost behind an annotation. -/
example : split "@A(\"x\") int a = 1;".toList 1 = [] ∧
    owed "@A(\"x\") int a = 1;".toList 1 = "inta=1".toList := by
  decide +kernel

end Fragment

end SnippetRunner
