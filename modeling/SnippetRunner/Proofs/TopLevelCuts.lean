import SnippetRunner.Proofs.CodePieces
import SnippetRunner.Proofs.MaskedPlaces

/-!
# Cuts outside of brackets

A text is cut at the separators that its masked text shows outside of all brackets, and its pieces
are the trimmed segments between these positions (`splitTopLevel_cuts`). A piece that is cut again
is its own only piece.

* `Uncut` is a scanned text without a cut, for a given depth of open brackets in front of it. A cut
  passes over such a text (`segments_append_of_uncut`), and every text is uncut up to its first cut
  (`uncut_or_exists_cut`).
* `CutInto` takes a scanned text apart at all of its cuts. The segments, the positions of the cuts
  and the text they leave are read off it by induction (`CutInto.segments_eq`,
  `CutInto.mem_cutPositions_iff`, `CutInto.segmentsAt_eq`).
* A scan of a piece alone differs from the scan of the whole text in the class of a slash at the end
  of the piece, if at all (`Mode.step_fst_eq`), and a slash cuts nothing. So a piece is uncut by
  itself (`CutInto.uncut_of_mem`).
-/

namespace SnippetRunner.Scan

open Text

/-- A character that can separate: no white space, no bracket and no slash. -/
structure IsSeparator (sep : Char) : Prop where
  isSpace_eq : isSpace sep = false
  isOpening_eq : isOpening sep = false
  isClosing_eq : isClosing sep = false
  ne_slash : sep ≠ '/'

variable {sep : Char} {depth n : Nat} {cs : List Char} {x : Char × CharClass}
variable {xs ys zs : List (Char × CharClass)}

theorem IsSeparator.ne_space (h : IsSeparator sep) : sep ≠ ' ' := by
  rintro rfl
  exact absurd h.isSpace_eq (by decide)

theorem IsSeparator.ne_newline (h : IsSeparator sep) : sep ≠ '\n' := by
  rintro rfl
  exact absurd h.isSpace_eq (by decide)

/-! ## The depth of brackets -/

/-- The number of open brackets behind a character. A closing bracket without an opening one leaves
it at zero. -/
def depthStep (depth : Nat) (c : Char) : Nat :=
  if isOpening c then depth + 1 else if isClosing c then depth - 1 else depth

/-- The number of brackets that are open at the end of a text. -/
def bracketDepth (cs : List Char) : Nat := cs.foldl depthStep 0

/-- The number of open brackets behind a character of which only code counts. -/
def levelStep (depth : Nat) (x : Char × CharClass) : Nat :=
  if x.2 = .code then depthStep depth x.1 else depth

theorem not_isBracket_of_forall {c : Char} (h : ∀ d ∈ ['(', '[', '{', ')', ']', '}'], c ≠ d) :
    isOpening c = false ∧ isClosing c = false := by
  simp only [List.forall_mem_cons] at h
  simp [isOpening, isClosing, h]

theorem depthStep_of_isSpace {c : Char} (hc : isSpace c = true) (depth : Nat) :
    depthStep depth c = depth := by
  have hspace : ['(', '[', '{', ')', ']', '}'].all (fun d => !isSpace d) = true := by decide
  obtain ⟨hopen, hclose⟩ : isOpening c = false ∧ isClosing c = false := by
    refine not_isBracket_of_forall fun d hd => ?_
    rintro rfl
    have hnot := List.all_eq_true.1 hspace c hd
    rw [hc] at hnot
    exact absurd hnot (by decide)
  simp [depthStep, hopen, hclose]

theorem foldl_depthStep_of_isBlank {u : List Char} (hu : isBlank u = true) (depth : Nat) :
    u.foldl depthStep depth = depth := by
  induction u with
  | nil => rfl
  | cons c u ih =>
    rw [isBlank_cons, Bool.and_eq_true] at hu
    rw [List.foldl_cons, depthStep_of_isSpace hu.1, ih hu.2]

theorem IsSeparator.depthStep_eq (h : IsSeparator sep) (depth : Nat) :
    depthStep depth sep = depth := by
  simp [depthStep, h.isOpening_eq, h.isClosing_eq]

theorem foldl_depthStep_maskedChar (x : Char × CharClass) (depth : Nat) :
    (maskedChar x).foldl depthStep depth = levelStep depth x := by
  obtain ⟨c, cls⟩ := x
  by_cases hcls : cls = .code
  · subst hcls
    rw [maskedChar_code]
    rfl
  · have hblank : isBlank (maskedChar (c, cls)) = true := by
      have hall := isBlank_blanked [c]
      rw [maskedChar_eq_of_ne_code (.inl hcls)]
      rwa [blanked_cons, show blanked [] = [] from rfl, List.append_nil] at hall
    rw [foldl_depthStep_of_isBlank hblank, levelStep, if_neg hcls]

/-- The brackets that count are those that are shown. -/
theorem foldl_depthStep_flatMap_maskedChar (xs : List (Char × CharClass)) (depth : Nat) :
    (xs.flatMap maskedChar).foldl depthStep depth = xs.foldl levelStep depth := by
  induction xs generalizing depth with
  | nil => rfl
  | cons x xs ih =>
    rw [List.flatMap_cons, List.foldl_append, foldl_depthStep_maskedChar, ih, List.foldl_cons]

/-! ## Texts without a cut -/

/-- Whether no separator stands in code outside of brackets, if `depth` brackets are open in front
of the text. -/
def Uncut (sep : Char) (depth : Nat) (xs : List (Char × CharClass)) : Prop :=
  ∀ front back, xs = front ++ (sep, .code) :: back → front.foldl levelStep depth ≠ 0

theorem uncut_nil : Uncut sep depth [] := fun front back h => by simp at h

theorem uncut_cons_iff :
    Uncut sep depth (x :: xs) ↔
      ¬ (x = (sep, .code) ∧ depth = 0) ∧ Uncut sep (levelStep depth x) xs := by
  constructor
  · refine fun h => ⟨?_, fun front back hxs => ?_⟩
    · rintro ⟨rfl, rfl⟩
      exact h [] xs rfl rfl
    · exact h (x :: front) back (by rw [hxs]; rfl)
  · rintro ⟨hx, hxs⟩ (_ | ⟨y, front⟩) back h
    · obtain ⟨rfl, rfl⟩ := List.cons.inj h
      exact fun hdepth => hx ⟨rfl, hdepth⟩
    · obtain ⟨rfl, hrest⟩ := List.cons.inj h
      exact hxs front back hrest

/-- A text without separators. -/
theorem uncut_of_forall (hno : ∀ x ∈ xs, x.2 = .code → x.1 ≠ sep) (depth : Nat) :
    Uncut sep depth xs := by
  rintro front back rfl
  exact absurd rfl (hno (sep, .code) (by simp) rfl)

theorem uncut_append_iff :
    Uncut sep depth (xs ++ ys) ↔ Uncut sep depth xs ∧ Uncut sep (xs.foldl levelStep depth) ys := by
  induction xs generalizing depth with
  | nil => exact (and_iff_right uncut_nil).symm
  | cons x xs ih =>
    rw [List.cons_append, uncut_cons_iff, uncut_cons_iff, ih, and_assoc, List.foldl_cons]

/-- Parts of a text with more text in front of the first part. -/
def consText (cs : List Char) (parts : List (List Char)) : List (List Char) :=
  cs.foldr consPart parts

theorem consText_cons (cs part : List Char) (parts : List (List Char)) :
    consText cs (part :: parts) = (cs ++ part) :: parts := by
  induction cs with
  | nil => rfl
  | cons c cs ih => rw [consText, List.foldr_cons, ← consText, ih, consPart, List.cons_append]

theorem segments_ne_nil (sep : Char) (depth : Nat) (xs : List (Char × CharClass)) :
    segments sep depth xs ≠ [] := by
  have hcons (c : Char) (parts : List (List Char)) : consPart c parts ≠ [] := by
    cases parts <;> exact List.cons_ne_nil _ _
  cases xs with
  | nil => exact List.cons_ne_nil _ _
  | cons x xs =>
    rw [segments]
    split_ifs
    · exact hcons _ _
    · exact hcons _ _
    · exact List.cons_ne_nil _ _
    · exact hcons _ _

theorem segments_separator (hsep : IsSeparator sep) (xs : List (Char × CharClass)) :
    segments sep 0 ((sep, .code) :: xs) = [] :: segments sep 0 xs := by
  rw [segments, if_neg (by simp [hsep.isOpening_eq]), if_neg (by simp [hsep.isClosing_eq]),
    if_pos ⟨rfl, rfl, rfl⟩]

theorem segments_cons_of_not_cut (hx : ¬ (x = (sep, .code) ∧ depth = 0))
    (xs : List (Char × CharClass)) :
    segments sep depth (x :: xs) = consPart x.1 (segments sep (levelStep depth x) xs) := by
  obtain ⟨c, cls⟩ := x
  rw [Prod.mk.injEq] at hx
  rw [segments, levelStep]
  by_cases hcls : cls = .code
  · subst hcls
    have hstep : ¬ (c = sep ∧ depth = 0) := fun h => hx ⟨⟨h.1, rfl⟩, h.2⟩
    simp only [true_and, if_true, depthStep, if_neg hstep]
    split_ifs <;> rfl
  · simp [hcls]

/-- **A cut passes over a text without one.** -/
theorem segments_append_of_uncut (h : Uncut sep depth xs) (ys : List (Char × CharClass)) :
    segments sep depth (xs ++ ys) =
      consText (xs.map Prod.fst) (segments sep (xs.foldl levelStep depth) ys) := by
  induction xs generalizing depth with
  | nil => rfl
  | cons x xs ih =>
    rw [uncut_cons_iff] at h
    rw [List.cons_append, segments_cons_of_not_cut h.1, ih h.2]
    rfl

theorem segments_of_uncut (h : Uncut sep depth xs) : segments sep depth xs = [xs.map Prod.fst] := by
  have hall := segments_append_of_uncut h []
  rw [List.append_nil, segments, consText_cons, List.append_nil] at hall
  exact hall

theorem splitTopLevel_of_uncut (h : Uncut sep 0 (classify .code cs)) (hblank : isBlank cs = false) :
    splitTopLevel sep cs = [trim cs] := by
  have hne : (trim cs).isEmpty = false := by rw [isEmpty_trim, hblank]
  rw [splitTopLevel, segments_of_uncut h, map_fst_classify, List.map_singleton, dropEmptyLast,
    if_neg (by simp [hne])]

/-- Every text is without a cut, or up to its first one. -/
theorem uncut_or_exists_cut (sep : Char) (depth : Nat) (zs : List (Char × CharClass)) :
    Uncut sep depth zs ∨ ∃ xs ys, zs = xs ++ (sep, .code) :: ys ∧ Uncut sep depth xs ∧
      xs.foldl levelStep depth = 0 := by
  induction zs generalizing depth with
  | nil => exact .inl uncut_nil
  | cons z zs ih =>
    by_cases hz : z = (sep, .code) ∧ depth = 0
    · obtain ⟨rfl, rfl⟩ := hz
      exact .inr ⟨[], zs, rfl, uncut_nil, rfl⟩
    · obtain hzs | ⟨xs, ys, rfl, hxs, hlevel⟩ := ih (levelStep depth z)
      · exact .inl (uncut_cons_iff.2 ⟨hz, hzs⟩)
      · exact .inr ⟨z :: xs, ys, rfl, uncut_cons_iff.2 ⟨hz, hxs⟩, hlevel⟩

/-! ## All cuts of a text -/

/-- `CutInto sep zs parts`: the text is taken apart at each separator in code outside of
brackets. -/
inductive CutInto (sep : Char) : List (Char × CharClass) → List (List (Char × CharClass)) → Prop
  | whole {xs : List (Char × CharClass)} (h : Uncut sep 0 xs) : CutInto sep xs [xs]
  | cut {xs ys part : List (Char × CharClass)} {parts : List (List (Char × CharClass))}
      (h : Uncut sep 0 xs) (hlevel : xs.foldl levelStep 0 = 0)
      (hrest : CutInto sep ys (part :: parts)) :
      CutInto sep (xs ++ (sep, .code) :: ys) (xs :: part :: parts)

theorem exists_cutInto (sep : Char) (zs : List (Char × CharClass)) :
    ∃ part parts, CutInto sep zs (part :: parts) := by
  obtain h | ⟨xs, ys, rfl, h, hlevel⟩ := uncut_or_exists_cut sep 0 zs
  · exact ⟨zs, [], .whole h⟩
  · obtain ⟨part, parts, hrest⟩ := exists_cutInto sep ys
    exact ⟨xs, part :: parts, .cut h hlevel hrest⟩
  termination_by zs.length

/-- The positions of the cuts between parts that start at the given position. -/
def cutPositions (sep : Char) (start : Nat) : List (List (Char × CharClass)) → List Nat
  | part :: next :: parts =>
    (start + byteSize (part.map Prod.fst)) ::
      cutPositions sep (start + byteSize (part.map Prod.fst) + sep.utf8Size) (next :: parts)
  | _ => []

/-- The segments of a text from the given position on, between separators at the given
positions. -/
def segmentsAt (sep : Char) (cs : List Char) (start : Nat) : List Nat → List (List Char)
  | [] => [slice start (byteSize cs) cs]
  | n :: cuts => slice start n cs :: segmentsAt sep cs (n + sep.utf8Size) cuts

namespace CutInto

variable {part : List (Char × CharClass)} {parts : List (List (Char × CharClass))}

theorem segments_eq (hsep : IsSeparator sep) (h : CutInto sep zs parts) :
    segments sep 0 zs = parts.map fun part => part.map Prod.fst := by
  induction h with
  | whole h => exact segments_of_uncut h
  | cut h hlevel _ ih =>
    rw [segments_append_of_uncut h, hlevel, segments_separator hsep, ih,
      consText_cons, List.append_nil]
    rfl

theorem intercalate_eq (h : CutInto sep zs parts) :
    [sep].intercalate (parts.map fun part => part.map Prod.fst) = zs.map Prod.fst := by
  induction h with
  | whole h => exact List.intercalate_singleton
  | cut h hlevel _ ih =>
    rw [List.map_cons, List.map_cons, List.intercalate_cons_cons, ← List.map_cons, ih]
    simp

/-- A part is uncut, and stands at the start of the text or behind a separator. -/
theorem exists_of_mem (h : CutInto sep zs parts) (hpart : part ∈ parts) :
    Uncut sep 0 part ∧ ∃ front back, zs = front ++ (part ++ back) ∧
      (front = [] ∨ ∃ before, front = before ++ [(sep, .code)]) := by
  induction h with
  | @whole xs h =>
    obtain rfl := List.mem_singleton.1 hpart
    exact ⟨h, [], [], by simp, .inl rfl⟩
  | @cut xs ys _ _ h hlevel _ ih =>
    obtain rfl | hlater := List.mem_cons.1 hpart
    · exact ⟨h, [], (sep, .code) :: ys, rfl, .inl rfl⟩
    · obtain ⟨huncut, front, back, rfl, hfront⟩ := ih hlater
      refine ⟨huncut, xs ++ (sep, .code) :: front, back, by simp, .inr ?_⟩
      obtain rfl | ⟨before, rfl⟩ := hfront
      · exact ⟨xs, rfl⟩
      · exact ⟨xs ++ (sep, .code) :: before, by simp⟩

/-- **The text is cut exactly where a separator stands in code outside of brackets.** -/
theorem mem_cutPositions_iff (hsep : IsSeparator sep) (h : CutInto sep zs parts) (start : Nat) :
    n ∈ cutPositions sep start parts ↔ ∃ front back, zs = front ++ (sep, .code) :: back ∧
      start + byteSize (front.map Prod.fst) = n ∧ front.foldl levelStep 0 = 0 := by
  induction h generalizing start with
  | whole h =>
    refine iff_of_false List.not_mem_nil ?_
    rintro ⟨front, back, hxs, -, hlevel⟩
    exact h front back hxs hlevel
  | @cut xs ys _ _ h hlevel _ ih =>
    have hpast (front : List (Char × CharClass)) :
        (xs ++ (sep, .code) :: front).foldl levelStep 0 = front.foldl levelStep 0 := by
      rw [List.foldl_append, hlevel, List.foldl_cons, levelStep, if_pos rfl, hsep.depthStep_eq]
    have hsize (front : List (Char × CharClass)) :
        start + byteSize ((xs ++ (sep, .code) :: front).map Prod.fst) =
          start + byteSize (xs.map Prod.fst) + sep.utf8Size + byteSize (front.map Prod.fst) := by
      simp only [List.map_append, byteSize_append, List.map_cons, byteSize_cons]
      omega
    rw [cutPositions, List.mem_cons, ih]
    constructor
    · rintro (rfl | ⟨front, back, rfl, rfl, hfront⟩)
      · exact ⟨xs, ys, rfl, rfl, hlevel⟩
      · exact ⟨xs ++ (sep, .code) :: front, back, by simp, hsize front, (hpast front).trans hfront⟩
    · rintro ⟨front, back, hzs, rfl, hfront⟩
      obtain ⟨between, rfl, hback⟩ | ⟨between, rfl, hback⟩ := List.append_eq_append_iff.1 hzs
      · cases between with
        | nil => exact .inl (by rw [List.append_nil])
        | cons y between =>
          obtain ⟨rfl, rfl⟩ := List.cons.inj hback
          exact .inr ⟨between, back, rfl, (hsize between).symm, (hpast between).symm.trans hfront⟩
      · cases between with
        | nil => exact .inl (by rw [List.append_nil])
        | cons y between =>
          obtain ⟨rfl, -⟩ := List.cons.inj hback
          exact absurd hfront (h front between rfl)

theorem pairwise_cutPositions (h : CutInto sep zs parts) (start : Nat) :
    (cutPositions sep start parts).Pairwise (· < ·) ∧
      ∀ n ∈ cutPositions sep start parts, start ≤ n := by
  induction h generalizing start with
  | whole h => exact ⟨.nil, nofun⟩
  | @cut xs ys _ _ h hlevel _ ih =>
    obtain ⟨hsorted, hle⟩ := ih (start + byteSize (xs.map Prod.fst) + sep.utf8Size)
    have hpos := sep.utf8Size_pos
    rw [cutPositions]
    constructor
    · refine List.pairwise_cons.2 ⟨fun n hn => ?_, hsorted⟩
      have := hle n hn
      omega
    · refine List.forall_mem_cons.2 ⟨Nat.le_add_right _ _, fun n hn => ?_⟩
      have := hle n hn
      omega

/-- The parts are the segments between the positions of the cuts. -/
theorem segmentsAt_eq (h : CutInto sep zs parts) (pre : List Char) :
    segmentsAt sep (pre ++ zs.map Prod.fst) (byteSize pre) (cutPositions sep (byteSize pre) parts) =
      parts.map fun part => part.map Prod.fst := by
  induction h generalizing pre with
  | @whole xs h =>
    have hslice := slice_append pre (xs.map Prod.fst) []
    rw [List.append_nil] at hslice
    rw [cutPositions, segmentsAt, hslice]
    · rfl
    · exact nofun
  | @cut xs ys _ _ h hlevel _ ih =>
    have hrest := ih (pre ++ (xs.map Prod.fst ++ [sep]))
    have hslice := slice_append pre (xs.map Prod.fst) (sep :: ys.map Prod.fst)
    have hsize : byteSize (pre ++ (xs.map Prod.fst ++ [sep])) =
        byteSize pre + byteSize (xs.map Prod.fst) + sep.utf8Size := by
      simp only [byteSize_append, byteSize_cons, byteSize_nil]
      omega
    rw [hsize] at hrest
    rw [byteSize_append] at hslice
    have htext : pre ++ (xs ++ (sep, .code) :: ys).map Prod.fst =
        pre ++ (xs.map Prod.fst ++ [sep]) ++ ys.map Prod.fst := by simp
    rw [cutPositions, segmentsAt, List.map_cons, ← hrest, ← htext]
    congr 1
    rwa [List.map_append, List.map_cons]

end CutInto

/-- The segments of a text with the separator between them are the text. -/
theorem intercalate_segments (hsep : IsSeparator sep) (zs : List (Char × CharClass)) :
    [sep].intercalate (segments sep 0 zs) = zs.map Prod.fst := by
  obtain ⟨part, parts, h⟩ := exists_cutInto sep zs
  rw [h.segments_eq hsep, h.intercalate_eq]

/-! ## Cutting a piece again -/

/-- What follows a character matters for its class only if it is a slash. -/
theorem Mode.step_fst_eq {c : Char} (hc : c ≠ '/') (mode : Mode) (next next' : Option Char) :
    (mode.step c next).1 = (mode.step c next').1 := by
  cases mode with
  | code => simp only [step, hc, false_and, if_false]
  | blockComment =>
    simp only [step]
    split_ifs <;> rfl
  | quoted | lineComment | lineOpening | blockOpening | blockClosing => rfl

/-- A part of a text without a cut has none when it is scanned alone. -/
theorem Uncut.classify_of_classifyFrom (hsep : IsSeparator sep) {mode : Mode} {next : Option Char}
    (h : Uncut sep depth (classifyFrom mode next cs)) : Uncut sep depth (classify mode cs) := by
  rw [classify_eq_classifyFrom]
  rcases List.eq_nil_or_concat cs with rfl | ⟨front, c, rfl⟩
  · exact uncut_nil
  · -- only the last character has another one behind it
    rw [List.concat_eq_append, classifyFrom_append, uncut_append_iff] at h ⊢
    refine ⟨h.1, ?_⟩
    have hlast := (uncut_cons_iff.1 h.2).1
    refine uncut_cons_iff.2 ⟨?_, uncut_nil⟩
    rintro ⟨hx, hlevel⟩
    obtain ⟨rfl, hcode⟩ := Prod.mk.inj hx
    refine hlast ⟨Prod.ext rfl ?_, hlevel⟩
    rw [← hcode]
    exact Mode.step_fst_eq hsep.ne_slash _ _ _

theorem length_classifyFrom (mode : Mode) (next : Option Char) (cs : List Char) :
    (classifyFrom mode next cs).length = cs.length := by
  induction cs generalizing mode with
  | nil => rfl
  | cons c cs ih => rw [classifyFrom, List.length_cons, ih, List.length_cons]

/-- White space at the ends of a text without a cut can be dropped. -/
theorem uncut_classify_trim (hsep : IsSeparator sep) {u v : List Char}
    (h : classify .code (u ++ v) = xs ++ ys) (hu : xs.map Prod.fst = u) (hxs : Uncut sep 0 xs) :
    Uncut sep 0 (classify .code (trim u)) := by
  obtain ⟨s, b, hparts, hs, hb⟩ := exists_eq_append_trim u
  -- the labels of the trimmed text among those of the text
  have hscan : xs ++ ys = s.map (·, .code) ++ classifyFrom .code (b ++ v).head? (trim u) ++
      classifyFrom (modeAfter .code (b ++ v).head? (trim u)) none (b ++ v) := by
    have htext : u ++ v = s ++ (trim u ++ (b ++ v)) := by
      conv_lhs => rw [hparts]
      simp
    rw [← h, htext, classify_append_of_isBlank hs, classify_eq_classifyFrom, classifyFrom_append,
      Option.or_none, List.append_assoc]
  have hlength : (s.map (·, CharClass.code) ++ classifyFrom .code (b ++ v).head? (trim u)).length ≤
      xs.length := by
    have hsize := congrArg List.length hparts
    have hlabels := congrArg List.length hu
    simp only [List.length_append, List.length_map, length_classifyFrom] at hsize hlabels ⊢
    omega
  obtain ⟨rest, rfl⟩ := List.prefix_of_prefix_length_le ⟨_, hscan.symm⟩ ⟨ys, rfl⟩ hlength
  rw [uncut_append_iff, uncut_append_iff] at hxs
  have hlevel : (s.map (·, CharClass.code)).foldl levelStep 0 = 0 := by
    rw [← foldl_depthStep_flatMap_maskedChar, flatMap_maskedChar_code,
      foldl_depthStep_of_isBlank hs]
  rw [hlevel] at hxs
  exact Uncut.classify_of_classifyFrom hsep hxs.1.2

/-- A part of a text is uncut when it is scanned alone, without the white space at its ends. -/
theorem CutInto.uncut_of_mem {part : List (Char × CharClass)}
    {parts : List (List (Char × CharClass))} (hsep : IsSeparator sep)
    (h : CutInto sep (classify .code cs) parts) (hpart : part ∈ parts) :
    Uncut sep 0 (classify .code (trim (part.map Prod.fst))) := by
  obtain ⟨huncut, front, back, hscan, hfront⟩ := h.exists_of_mem hpart
  -- the scanner is in code at the start of the text and behind a separator
  have hanew : classify .code ((part ++ back).map Prod.fst) = part ++ back := by
    obtain rfl | ⟨before, rfl⟩ := hfront
    · have htext := map_fst_of_classify_eq hscan
      rw [List.map_nil, List.nil_append] at htext
      rwa [← htext]
    · rw [List.append_assoc] at hscan
      exact (classify_of_code hsep.ne_newline hscan).2
  rw [List.map_append] at hanew
  exact uncut_classify_trim hsep hanew rfl huncut

/-! ## The pieces of a text -/

/-- A list of texts without the last one, if that is empty. -/
def withoutEmptyLast (parts : List (List Char)) : List (List Char) :=
  if parts.getLast? = some [] then parts.dropLast else parts

theorem dropEmptyLast_eq (parts : List (List Char)) :
    dropEmptyLast parts = withoutEmptyLast parts := by
  induction parts with
  | nil => rfl
  | cons part parts ih =>
    cases parts with
    | nil => cases part <;> rfl
    | cons next parts =>
      have hcons : dropEmptyLast (part :: next :: parts) = part :: dropEmptyLast (next :: parts) :=
        rfl
      rw [hcons, ih, withoutEmptyLast, withoutEmptyLast, List.getLast?_cons_cons]
      split_ifs <;> rfl

theorem mem_of_mem_withoutEmptyLast {part : List Char} {parts : List (List Char)}
    (h : part ∈ withoutEmptyLast parts) : part ∈ parts := by
  rw [withoutEmptyLast] at h
  split_ifs at h
  · exact (List.dropLast_sublist parts).mem h
  · exact h

/-- A separator stands at the given position, outside of all brackets. -/
def IsCutAt (sep : Char) (n : Nat) (cs : List Char) : Prop :=
  ∃ front back, cs = front ++ sep :: back ∧ byteSize front = n ∧ bracketDepth front = 0

theorem isCutAt_masked_iff (hsep : IsSeparator sep) :
    IsCutAt sep n (masked cs) ↔ ∃ front back, classify .code cs = front ++ (sep, .code) :: back ∧
      byteSize (front.map Prod.fst) = n ∧ front.foldl levelStep 0 = 0 := by
  constructor
  · rintro ⟨front, back, hmask, rfl, hdepth⟩
    obtain ⟨ys, cls, zs, hscan, rfl, -, hcls⟩ := exists_of_flatMap_maskedChar hsep.ne_space hmask
    obtain rfl : cls = .code := hcls.resolve_right hsep.ne_newline
    refine ⟨ys, zs, hscan, (byteSize_flatMap_maskedChar ys).symm, ?_⟩
    rwa [bracketDepth, foldl_depthStep_flatMap_maskedChar] at hdepth
  · rintro ⟨ys, zs, hscan, rfl, hlevel⟩
    refine ⟨ys.flatMap maskedChar, zs.flatMap maskedChar, ?_, byteSize_flatMap_maskedChar ys, ?_⟩
    · rw [masked, hscan, List.flatMap_append, List.flatMap_cons, maskedChar_code,
        List.singleton_append]
    · rwa [bracketDepth, foldl_depthStep_flatMap_maskedChar]

/-- The positions, in order, of all separators that the masked text shows outside of brackets. The
text is put together again from the segments between them. -/
structure AreCuts (sep : Char) (cs : List Char) (cuts : List Nat) : Prop where
  sorted : cuts.Pairwise (· < ·)
  mem_iff (n : Nat) : n ∈ cuts ↔ IsCutAt sep n (masked cs)
  intercalate_eq : [sep].intercalate (segmentsAt sep cs 0 cuts) = cs

theorem CutInto.areCuts {parts : List (List (Char × CharClass))} (hsep : IsSeparator sep)
    (h : CutInto sep (classify .code cs) parts) :
    AreCuts sep cs (cutPositions sep 0 parts) ∧
      segmentsAt sep cs 0 (cutPositions sep 0 parts) = parts.map fun part => part.map Prod.fst := by
  have hsegments := h.segmentsAt_eq []
  rw [map_fst_classify, List.nil_append, byteSize_nil] at hsegments
  refine ⟨⟨(h.pairwise_cutPositions 0).1, fun n => ?_, ?_⟩, hsegments⟩
  · rw [h.mem_cutPositions_iff hsep, isCutAt_masked_iff hsep]
    simp only [Nat.zero_add]
  · rw [hsegments, h.intercalate_eq, map_fst_classify]

/-- A text has no pieces only if it is blank. -/
theorem splitTopLevel_eq_nil_iff (hsep : IsSeparator sep) :
    splitTopLevel sep cs = [] ↔ isBlank cs = true := by
  obtain h | ⟨xs, ys, hscan, h, hlevel⟩ := uncut_or_exists_cut sep 0 (classify .code cs)
  · cases hblank : isBlank cs with
    | false => simp [splitTopLevel_of_uncut h hblank]
    | true =>
      rw [splitTopLevel, segments_of_uncut h, map_fst_classify, List.map_singleton,
        trim_eq_nil_iff.2 hblank]
      simp [dropEmptyLast]
  · -- there is a piece in front of the first separator
    have hcs := map_fst_of_classify_eq hscan
    refine iff_of_false ?_ fun hblank => ?_
    · obtain ⟨part, parts, hys⟩ := List.exists_cons_of_ne_nil (segments_ne_nil sep 0 ys)
      rw [splitTopLevel, hscan, segments_append_of_uncut h, hlevel,
        segments_separator hsep, consText_cons, hys]
      exact List.cons_ne_nil _ _
    · rw [hcs, isBlank_append, List.map_cons, isBlank_cons, hsep.isSpace_eq] at hblank
      simp at hblank

/-- **A text is cut exactly at the separators that its masked text shows outside of brackets.** Its
pieces are the trimmed segments between them without an empty last one, and a piece that is cut
again is its own only piece. A quote mark separates nothing, since none is ever shown. -/
theorem splitTopLevel_cuts (hsep : IsSeparator sep) (cs : List Char) :
    (∃ cuts, AreCuts sep cs cuts ∧
      splitTopLevel sep cs = withoutEmptyLast ((segmentsAt sep cs 0 cuts).map trim)) ∧
    (splitTopLevel sep cs = [] ↔ isBlank cs = true) ∧
    ∀ piece ∈ splitTopLevel sep cs, piece ≠ [] → splitTopLevel sep piece = [piece] := by
  obtain ⟨part, parts, h⟩ := exists_cutInto sep (classify .code cs)
  obtain ⟨hcuts, hsegments⟩ := h.areCuts hsep
  have hsplit : splitTopLevel sep cs = withoutEmptyLast
      ((segmentsAt sep cs 0 (cutPositions sep 0 (part :: parts))).map trim) := by
    rw [splitTopLevel, dropEmptyLast_eq, h.segments_eq hsep, hsegments]
  refine ⟨⟨_, hcuts, hsplit⟩, splitTopLevel_eq_nil_iff hsep, fun piece hpiece hne => ?_⟩
  rw [hsplit, hsegments] at hpiece
  obtain ⟨text, htext, rfl⟩ := List.mem_map.1 (mem_of_mem_withoutEmptyLast hpiece)
  obtain ⟨labels, hlabels, rfl⟩ := List.mem_map.1 htext
  have hblank : isBlank (trim (labels.map Prod.fst)) = false := by
    rw [← isEmpty_trim, trim_trim]
    simpa using hne
  rw [splitTopLevel_of_uncut (h.uncut_of_mem hsep hlabels) hblank, trim_trim]

/-- A closing bracket without an opening one, a separator in a literal and one in brackets. -/
theorem splitTopLevel_strayBracket :
    IsSeparator ';' ∧
      (∃ cuts, AreCuts ';' "a) ;f(b; ';');;c;".toList cuts ∧
        splitTopLevel ';' "a) ;f(b; ';');;c;".toList =
          withoutEmptyLast ((segmentsAt ';' "a) ;f(b; ';');;c;".toList 0 cuts).map trim)) ∧
      splitTopLevel ';' "a) ;f(b; ';');;c;".toList =
        ["a)".toList, "f(b; ';')".toList, [], "c".toList] ∧
      splitTopLevel ';' "f(b; ';')".toList = ["f(b; ';')".toList] := by
  have hsep : IsSeparator ';' := ⟨rfl, rfl, rfl, by decide⟩
  obtain ⟨hcuts, -, hagain⟩ := splitTopLevel_cuts hsep "a) ;f(b; ';');;c;".toList
  have hpieces : splitTopLevel ';' "a) ;f(b; ';');;c;".toList =
      ["a)".toList, "f(b; ';')".toList, [], "c".toList] := by decide +kernel
  exact ⟨hsep, hcuts, hpieces, hagain _ (by rw [hpieces]; simp) (by decide)⟩

end SnippetRunner.Scan
