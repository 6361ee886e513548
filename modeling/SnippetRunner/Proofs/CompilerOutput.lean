import Mathlib.Data.List.DropRight
import SnippetRunner.Proofs.Occurrences
import SnippetRunner.Proofs.Spelling

/-!
# What compilers write

A compiler reports on a program (`Report`), and counts its reports in the end (`IsCount`). This is
what the layouts of its output have in common:

* only the trimmed lines matter to the reading (`read_joined`);
* a number is read as it was written (`leadingNumber?_digitsOf`), and a count is known by its first
  two words (`isSummary_iff`).
-/

namespace SnippetRunner

open Text
open Decimal (digitsOf)

namespace Text

/-! ## Runs of characters -/

theorem drop_length_takeWhile (p : Char → Bool) (cs : List Char) :
    cs.drop (cs.takeWhile p).length = cs.dropWhile p := by
  have hback := congrArg (List.drop (cs.takeWhile p).length)
    (List.takeWhile_append_dropWhile (p := p) (l := cs))
  rwa [List.drop_left, eq_comm] at hback

/-- What follows a run starts with a character that is not of its kind. -/
theorem eq_false_of_mem_head?_dropWhile {p : Char → Bool} {cs : List Char} {c : Char}
    (h : c ∈ (cs.dropWhile p).head?) : p c = false := by
  have hhead := List.head?_dropWhile_not p cs
  rw [h] at hhead
  simpa using hhead

/-- White space in front of a text is what the text starts with. -/
theorem isSpace_of_mem_head?_append {gap : List Char} (hne : gap ≠ []) (hgap : isBlank gap = true)
    (rest : List Char) : ∀ c ∈ (gap ++ rest).head?, isSpace c = true := by
  obtain ⟨c, cs, rfl⟩ := List.exists_cons_of_ne_nil hne
  rintro _ ⟨⟩
  exact List.all_eq_true.1 hgap c List.mem_cons_self

/-! ## The words of a text -/

theorem words_of_isBlank {s : List Char} (hs : isBlank s = true) : words s = [] := by
  unfold words
  rw [List.filter_eq_nil_iff]
  induction s with
  | nil => simp [splitAtEach]
  | cons c s ih =>
    rw [isBlank_cons, Bool.and_eq_true] at hs
    rw [splitAtEach, if_pos hs.1, List.forall_mem_cons]
    exact ⟨by simp, ih hs.2⟩

theorem words_append_cons {c : Char} (hc : isSpace c = true) (x y : List Char) :
    words (x ++ c :: y) = words x ++ words y := by
  rw [words, words, words, splitAtEach_append isSpace hc, List.filter_append]

theorem words_append_of_isBlank {s : List Char} (hs : isBlank s = true) (x : List Char) :
    words (s ++ x) = words x := by
  induction s with
  | nil => rfl
  | cons c s ih =>
    rw [isBlank_cons, Bool.and_eq_true] at hs
    have hcut := words_append_cons hs.1 [] (s ++ x)
    rwa [words_of_isBlank (s := []) rfl, List.nil_append, List.nil_append, ih hs.2] at hcut

theorem words_of_isUnspaced {w : List Char} (hw : IsUnspaced w) : words w = [w] := by
  rw [words, splitAtEach_of_forall hw.isSpace_eq]
  simpa using hw.ne_nil

/-- A word ends at white space or at the end of the text. -/
theorem words_append {w rest : List Char} (hw : IsUnspaced w)
    (hrest : ∀ c ∈ rest.head?, isSpace c = true) : words (w ++ rest) = w :: words rest := by
  cases rest with
  | nil => rw [List.append_nil, words_of_isUnspaced hw, words_of_isBlank rfl]
  | cons c rest =>
    have hc : isSpace c = true := hrest c rfl
    have htail := words_append_cons hc [] rest
    rw [words_of_isBlank (s := []) rfl, List.nil_append, List.nil_append] at htail
    rw [words_append_cons hc, words_of_isUnspaced hw, htail, List.singleton_append]

/-- A text that is not blank is white space, a word and the rest behind it. -/
theorem exists_word_of_not_isBlank {cs : List Char} (h : isBlank cs = false) :
    ∃ s w rest, cs = s ++ (w ++ rest) ∧ isBlank s = true ∧ IsUnspaced w ∧
      ∀ c ∈ rest.head?, isSpace c = true := by
  obtain ⟨s, c, x, rfl, hs, hc⟩ := exists_of_not_isBlank h
  have hlead : (c :: x).takeWhile (fun d => !isSpace d) ≠ [] := by simp [hc]
  refine ⟨s, (c :: x).takeWhile (fun d => !isSpace d), (c :: x).dropWhile (fun d => !isSpace d),
    by rw [List.takeWhile_append_dropWhile], hs, ⟨hlead, fun d hd => ?_⟩, fun d hd => ?_⟩
  · simpa using List.mem_takeWhile_imp hd
  · simpa using eq_false_of_mem_head?_dropWhile hd

theorem words_eq_cons_iff {cs w : List Char} {ws : List (List Char)} :
    words cs = w :: ws ↔ ∃ s rest, cs = s ++ (w ++ rest) ∧ isBlank s = true ∧ IsUnspaced w ∧
      (∀ c ∈ rest.head?, isSpace c = true) ∧ words rest = ws := by
  constructor
  · intro h
    have hblank : isBlank cs = false := by
      by_contra hne
      rw [words_of_isBlank (by simpa using hne)] at h
      cases h
    obtain ⟨s, w', rest, rfl, hs, hw, hrest⟩ := exists_word_of_not_isBlank hblank
    rw [words_append_of_isBlank hs, words_append hw hrest] at h
    obtain ⟨rfl, rfl⟩ := List.cons.inj h
    exact ⟨s, rest, rfl, hs, hw, hrest, rfl⟩
  · rintro ⟨s, rest, rfl, hs, hw, hrest, rfl⟩
    rw [words_append_of_isBlank hs, words_append hw hrest]

theorem words_append_of_isBlank_right {b : List Char} (hb : isBlank b = true) (x : List Char) :
    words (x ++ b) = words x := by
  cases b with
  | nil => rw [List.append_nil]
  | cons c b =>
    rw [isBlank_cons, Bool.and_eq_true] at hb
    rw [words_append_cons hb.1, words_of_isBlank hb.2, List.append_nil]

theorem words_trim (cs : List Char) : words (trim cs) = words cs := by
  obtain ⟨s, b, hcs, hs, hb⟩ := exists_eq_append_trim cs
  have hall := words_append_of_isBlank hs (trim cs ++ b)
  rw [← hcs, words_append_of_isBlank_right hb] at hall
  exact hall.symm

/-- The first word of a text, and nothing if it has none. -/
def leadingWord (cs : List Char) : List Char := (words cs).headD []

theorem leadingWord_trim (cs : List Char) : leadingWord (trim cs) = leadingWord cs := by
  rw [leadingWord, words_trim, leadingWord]

theorem leadingWord_append {s w rest : List Char} (hs : isBlank s = true) (hw : IsUnspaced w)
    (hrest : ∀ c ∈ rest.head?, isSpace c = true) : leadingWord (s ++ (w ++ rest)) = w := by
  rw [leadingWord, words_append_of_isBlank hs, words_append hw hrest]
  rfl

/-- A word at the end of a text goes on in the text behind it, up to white space. -/
theorem leadingWord_append_of_isUnspaced {s w : List Char} (hs : isBlank s = true)
    (hw : IsUnspaced w) (rest : List Char) :
    leadingWord (s ++ w ++ rest) = w ++ rest.takeWhile (fun c => !isSpace c) := by
  have hgoes : IsUnspaced (w ++ rest.takeWhile (fun c => !isSpace c)) := by
    refine ⟨by simp [hw.ne_nil], fun c hc => ?_⟩
    obtain hc | hc := List.mem_append.1 hc
    · exact hw.isSpace_eq c hc
    · simpa using List.mem_takeWhile_imp hc
  have hsplit : s ++ w ++ rest = s ++ (w ++ rest.takeWhile (fun c => !isSpace c) ++
      rest.dropWhile (fun c => !isSpace c)) := by
    simp only [List.append_assoc, List.takeWhile_append_dropWhile]
  rw [hsplit]
  exact leadingWord_append hs hgoes fun c hc => by
    simpa using eq_false_of_mem_head?_dropWhile hc

end Text

namespace Messages

/-! ## Numbers -/

/-- Digits that spell a number. -/
def IsNumeral (cs : List Char) : Prop := cs ≠ [] ∧ ∀ c ∈ cs, c.isDigit = true

theorem isSpace_of_isDigit {c : Char} (h : c.isDigit = true) : isSpace c = false := by
  by_contra hspace
  have hnot := isIdentPart_of_isSpace (by simpa using hspace)
  rw [isIdentPart_of_isDigit h] at hnot
  exact Bool.false_ne_true hnot.symm

theorem IsNumeral.isUnspaced {cs : List Char} (h : IsNumeral cs) : IsUnspaced cs :=
  ⟨h.1, fun c hc => isSpace_of_isDigit (h.2 c hc)⟩

theorem IsNumeral.takeWhile_append {cs rest : List Char} (h : IsNumeral cs)
    (hrest : ∀ c ∈ rest.head?, c.isDigit = false) : (cs ++ rest).takeWhile Char.isDigit = cs := by
  rw [List.takeWhile_append_of_pos h.2]
  cases rest with
  | nil => simp
  | cons c rest => simp [hrest c rfl]

/-- The number at the start of a text is the one that all its leading digits spell. -/
theorem leadingNumber?_eq_some_iff {cs rest : List Char} {n : Nat} :
    leadingNumber? cs = some (n, rest) ↔
      ∃ numeral, cs = numeral ++ rest ∧ IsNumeral numeral ∧ (∀ c ∈ rest.head?, c.isDigit = false) ∧
        Decimal.digitsValue 10 numeral = n ∧ n < UInt64.size := by
  unfold leadingNumber?
  constructor
  · intro h
    dsimp only at h
    split at h
    · cases h
    · next hnumber =>
      obtain ⟨rfl, rfl⟩ := Prod.mk.inj (Option.some.inj h)
      rw [Bool.or_eq_true, not_or] at hnumber
      rw [drop_length_takeWhile]
      exact ⟨cs.takeWhile Char.isDigit, List.takeWhile_append_dropWhile.symm,
        ⟨by simpa using hnumber.1, fun c hc => List.mem_takeWhile_imp hc⟩,
        fun c hc => eq_false_of_mem_head?_dropWhile hc, rfl, by simpa using hnumber.2⟩
  · rintro ⟨numeral, rfl, hnumeral, hrest, rfl, hlt⟩
    have hempty : numeral.isEmpty = false := by simpa using hnumeral.1
    rw [hnumeral.takeWhile_append hrest]
    simp [hempty, hlt]

theorem isNumeral_digitsOf (n : Nat) : IsNumeral (digitsOf n) :=
  ⟨Nat.toDigits_ne_nil, fun _ hc => Nat.isDigit_of_mem_toDigits (by decide) (by decide) hc⟩

theorem not_mem_digitsOf {c : Char} (hc : c.isDigit = false) (n : Nat) : c ∉ digitsOf n :=
  fun hmem => Bool.false_ne_true (hc.symm.trans ((isNumeral_digitsOf n).2 c hmem))

/-- A number is read as it was written. -/
theorem leadingNumber?_digitsOf (n : UInt64) {rest : List Char}
    (hrest : ∀ c ∈ rest.head?, c.isDigit = false) :
    leadingNumber? (digitsOf n.toNat ++ rest) = some (n.toNat, rest) :=
  leadingNumber?_eq_some_iff.2 ⟨_, rfl, isNumeral_digitsOf _, hrest,
    Decimal.digitsValue_toDigits (by decide) (by decide) _, n.toNat_lt_size⟩

/-! ## Counts -/

/-- What a compiler counts. -/
def countNouns : List (List Char) :=
  ["error", "errors", "warning", "warnings", "problem", "problems"].map String.toList

/-- A line that counts, such as `3 errors` or `2 problems (1 error, 1 warning)`: a number and what
is counted, with commas or not, and anything behind it. -/
def IsCount (line : List Char) : Prop :=
  ∃ s numeral gap noun commas rest, line = s ++ (numeral ++ (gap ++ (noun ++ commas ++ rest))) ∧
    isBlank s = true ∧ IsNumeral numeral ∧ (gap ≠ [] ∧ isBlank gap = true) ∧ noun ∈ countNouns ∧
    (∀ c ∈ commas, c = ',') ∧ ∀ c ∈ rest.head?, isSpace c = true

/-- Dropping commas leaves a word without commas iff the word and commas stood there. -/
theorem rdropWhile_comma_iff {noun word : List Char} (hword : word.getLast? ≠ some ',') :
    noun.rdropWhile (· = ',') = word ↔ ∃ commas, noun = word ++ commas ∧ ∀ c ∈ commas, c = ',' := by
  constructor
  · rintro rfl
    refine ⟨noun.rtakeWhile (· = ','), ?_, fun c hc => ?_⟩
    · exact List.rdropWhile_append_rtakeWhile.symm
    · simpa using List.mem_rtakeWhile_imp hc
  · rintro ⟨commas, rfl, hcommas⟩
    induction commas using List.reverseRecOn with
    | nil =>
      rw [List.append_nil, List.rdropWhile_eq_self_iff]
      intro hne
      rw [List.getLast?_eq_some_getLast hne] at hword
      simpa using hword
    | append_singleton commas c ih =>
      rw [← List.append_assoc,
        List.rdropWhile_concat_pos _ _ _ (by simpa using hcommas c (by simp))]
      exact ih fun d hd => hcommas d (List.mem_append_left _ hd)

theorem isUnspaced_of_mem_countNouns {noun commas : List Char} (hnoun : noun ∈ countNouns)
    (hcommas : ∀ c ∈ commas, c = ',') : IsUnspaced (noun ++ commas) := by
  have hall : ∀ noun ∈ countNouns, IsUnspaced noun := by decide
  refine ⟨by simp [(hall noun hnoun).ne_nil], fun c hc => ?_⟩
  obtain hc | hc := List.mem_append.1 hc
  · exact (hall noun hnoun).isSpace_eq c hc
  · rw [hcommas c hc]
    decide

theorem getLast?_of_mem_countNouns {noun : List Char} (h : noun ∈ countNouns) :
    noun.getLast? ≠ some ',' := by
  revert noun
  decide

/-- **Counts are known by their first two words.** -/
theorem isSummary_iff {line : List Char} : isSummary line = true ↔ IsCount line := by
  unfold isSummary
  constructor
  · intro h
    split at h
    · next count noun ws hwords =>
      rw [Bool.and_eq_true, List.all_eq_true, List.any_eq_true] at h
      obtain ⟨hdigits, word, hword, hnoun⟩ := h
      obtain ⟨s, tail, rfl, hs, hcount, htail, hbehind⟩ := words_eq_cons_iff.1 hwords
      obtain ⟨gap, rest, rfl, hgap, hunspaced, hrest, -⟩ := words_eq_cons_iff.1 hbehind
      have hmem : word.toList ∈ countNouns := List.mem_map_of_mem hword
      obtain ⟨commas, rfl, hcommas⟩ :=
        (rdropWhile_comma_iff (getLast?_of_mem_countNouns hmem)).1 (of_decide_eq_true hnoun)
      refine ⟨s, count, gap, word.toList, commas, rest, rfl, hs, ⟨hcount.ne_nil, hdigits⟩,
        ⟨?_, hgap⟩,
        hmem, hcommas, hrest⟩
      -- without a gap the two words would be one
      rintro rfl
      obtain ⟨c, cs, hc⟩ := List.exists_cons_of_ne_nil hunspaced.ne_nil
      rw [hc] at htail hunspaced
      exact hunspaced.not_mem (htail c rfl) List.mem_cons_self
    · cases h
  · rintro ⟨s, numeral, gap, noun, commas, rest, rfl, hs, hnumeral, hgap, hnoun, hcommas, hrest⟩
    have hfirst := isSpace_of_mem_head?_append hgap.1 hgap.2 (noun ++ commas ++ rest)
    have hwords : words (s ++ (numeral ++ (gap ++ (noun ++ commas ++ rest)))) =
        numeral :: (noun ++ commas) :: words rest := by
      rw [words_append_of_isBlank hs, words_append hnumeral.isUnspaced hfirst,
        words_append_of_isBlank hgap.2,
        words_append (isUnspaced_of_mem_countNouns hnoun hcommas) hrest]
    obtain ⟨word, hword, rfl⟩ := List.mem_map.1 hnoun
    have hdrop : (word.toList ++ commas).rdropWhile (· = ',') = word.toList :=
      (rdropWhile_comma_iff (getLast?_of_mem_countNouns hnoun)).2 ⟨commas, rfl, hcommas⟩
    rw [hwords]
    dsimp only
    rw [Bool.and_eq_true, List.all_eq_true, List.any_eq_true]
    exact ⟨hnumeral.2, word, hword, decide_eq_true hdrop⟩

instance (line : List Char) : Decidable (IsCount line) := decidable_of_iff _ isSummary_iff

theorem isSummary_trim (line : List Char) : isSummary (trim line) = isSummary line := by
  rw [isSummary, words_trim, isSummary]

/-- A count is no report. -/
theorem IsCount.ofLine?_eq_none (p : Program) {line : List Char} (h : IsCount line) :
    ofLine? p (trim line) = none := by
  have hsummary : isSummary (trim line) = true := by
    rw [isSummary_trim, isSummary_iff]
    exact h
  rw [ofLine?, hsummary, Bool.or_true, if_pos rfl]

/-- A count starts with a number. -/
theorem IsCount.leadingWord_eq {line : List Char} (h : IsCount line) :
    ∀ c ∈ leadingWord line, c.isDigit = true := by
  obtain ⟨s, numeral, gap, noun, commas, rest, rfl, hs, hnumeral, hgap, -, -, -⟩ := h
  rw [leadingWord_append hs hnumeral.isUnspaced (isSpace_of_mem_head?_append hgap.1 hgap.2 _)]
  exact hnumeral.2

/-! ## Lines and blocks -/

/-- Whether a line opens a block, behind its number or without one. -/
def opensBlock (line : List Char) : Bool := isHeader (dropOrdinal (trim line))

theorem dropOrdinal_cases (line : List Char) :
    dropOrdinal line = line ∨
      ∃ numeral, IsNumeral numeral ∧ line = numeral ++ ('.' :: ' ' :: dropOrdinal line) := by
  unfold dropOrdinal
  dsimp only
  split
  · exact .inl rfl
  · next hdigits =>
    cases hlead : afterLead? ". ".toList (line.drop (line.takeWhile Char.isDigit).length) with
    | none => exact .inl rfl
    | some rest =>
      refine .inr ⟨line.takeWhile Char.isDigit,
        ⟨by simpa using hdigits, fun c hc => List.mem_takeWhile_imp hc⟩, ?_⟩
      have hdrop : line.drop (line.takeWhile Char.isDigit).length = '.' :: ' ' :: rest :=
        eq_append_of_afterLead? hlead
      rw [Option.getD_some, ← hdrop, drop_length_takeWhile, List.takeWhile_append_dropWhile]

/-- The words that a line which opens a block may start with, behind digits. -/
def openingWords : List (List Char) := [['.'], "ERROR".toList, "WARNING".toList]

theorem leadingWord_of_isHeader {line : List Char} (h : isHeader line = true) :
    leadingWord line ∈ ["ERROR".toList, "WARNING".toList] := by
  have hword (word rest : List Char) (hw : IsUnspaced word) :
      leadingWord (word ++ (' ' :: rest)) = word :=
    leadingWord_append (s := []) rfl hw (by rintro _ ⟨⟩; decide)
  rw [isHeader, Bool.and_eq_true, Bool.or_eq_true, List.isPrefixOf_iff_prefix,
    List.isPrefixOf_iff_prefix] at h
  obtain ⟨⟨rest, rfl⟩ | ⟨rest, rfl⟩, -⟩ := h
  · have herror := hword "ERROR".toList ('i' :: 'n' :: ' ' :: rest) (by decide)
    exact List.mem_cons.2 (.inl herror)
  · have hwarning := hword "WARNING".toList ('i' :: 'n' :: ' ' :: rest) (by decide)
    exact List.mem_cons_of_mem _ (List.mem_singleton.2 hwarning)

theorem leadingWord_of_opensBlock {line : List Char} (h : opensBlock line = true) :
    (leadingWord line).dropWhile Char.isDigit ∈ openingWords := by
  rw [opensBlock] at h
  rw [← leadingWord_trim]
  obtain heq | ⟨numeral, hnumeral, hline⟩ := dropOrdinal_cases (trim line)
  · rw [heq] at h
    have hmem := leadingWord_of_isHeader h
    rw [List.mem_cons, List.mem_singleton] at hmem
    obtain hword | hword := hmem <;> rw [hword] <;> decide
  · have hunspaced : IsUnspaced (numeral ++ ['.']) := by
      refine ⟨by simp, fun c hc => ?_⟩
      obtain hc | hc := List.mem_append.1 hc
      · exact hnumeral.isUnspaced.isSpace_eq c hc
      · rw [List.mem_singleton.1 hc]
        decide
    have hword : leadingWord (trim line) = numeral ++ ['.'] := by
      rw [hline, ← List.singleton_append, ← List.append_assoc]
      exact leadingWord_append (s := []) rfl hunspaced (by rintro _ ⟨⟩; decide)
    rw [hword, List.dropWhile_append_of_pos hnumeral.2]
    decide

theorem IsCount.opensBlock_eq {line : List Char} (h : IsCount line) : opensBlock line = false := by
  by_contra hopens
  have hword := leadingWord_of_opensBlock (by simpa using hopens)
  rw [List.dropWhile_eq_nil_iff.2 h.leadingWord_eq] at hword
  exact absurd hword (by decide)

theorem IsCount.trim_ne_rule {line : List Char} (h : IsCount line) : trim line ≠ rule := by
  intro hrule
  have hword := h.leadingWord_eq '-' (by rw [← leadingWord_trim, hrule]; decide)
  exact absurd hword (by decide)

theorem header?_eq_none_iff {ls : List (List Char)} :
    header? ls = none ↔ ∀ l ∈ ls, opensBlock l = false := by
  simp [header?, opensBlock]

theorem isSome_header?_iff {ls : List (List Char)} :
    (header? ls).isSome = true ↔ ∃ l ∈ ls, opensBlock l = true := by
  simp [header?, opensBlock]

theorem blocks_append_rule {block : List (List Char)} (h : ∀ l ∈ block, trim l ≠ rule)
    {line : List Char} (hline : trim line = rule) (rest : List (List Char)) :
    blocks (block ++ line :: rest) = block :: blocks rest := by
  induction block with
  | nil => rw [List.nil_append, blocks, if_pos hline]
  | cons l block ih =>
    rw [List.forall_mem_cons] at h
    rw [List.cons_append, blocks, if_neg h.1, ih h.2]

theorem blocks_of_forall {block : List (List Char)} (h : ∀ l ∈ block, trim l ≠ rule) :
    blocks block = [block] := by
  induction block with
  | nil => rfl
  | cons l block ih =>
    rw [List.forall_mem_cons] at h
    rw [blocks, if_neg h.1, ih h.2]

/-- The diagnostics in the lines of an output. -/
def readLines (p : Program) (ls : List (List Char)) : List Diagnostic :=
  if (header? ls).isSome then (blocks ls).filterMap (ofBlock? p)
  else (ls.map trim).filterMap (ofLine? p)

section Trimmed

variable (p : Program) (ls : List (List Char))

theorem header?_map_trim : header? (ls.map trim) = header? ls := by
  simp [header?, Function.comp_def, trim_trim]

theorem blocks_map_trim : blocks (ls.map trim) = (blocks ls).map (List.map trim) := by
  induction ls with
  | nil => rfl
  | cons l ls ih =>
    rw [List.map_cons, blocks, blocks, trim_trim, ih]
    split
    · rfl
    · cases blocks ls <;> rfl

theorem ofBlock?_map_trim : ofBlock? p (ls.map trim) = ofBlock? p ls := by
  have hmap : (ls.map trim).reverse.map trim = ls.reverse.map trim := by
    simp [← List.map_reverse, Function.comp_def, trim_trim]
  rw [ofBlock?, ofBlock?, header?_map_trim, hmap]

theorem readLines_map_trim : readLines p (ls.map trim) = readLines p ls := by
  have hmap : (ls.map trim).map trim = ls.map trim := by simp [Function.comp_def, trim_trim]
  rw [readLines, readLines, header?_map_trim, hmap, blocks_map_trim, List.filterMap_map]
  simp only [Function.comp_def, ofBlock?_map_trim]

end Trimmed

/-- Only the trimmed lines matter, so a carriage return at the end of a line does not. -/
theorem read_joined (p : Program) {ls : List (List Char)} (h : ∀ l ∈ ls, '\n' ∉ l) :
    read p (joined ls) = readLines p ls := by
  have hlines : (lines (joined ls)).map trim = ls.map trim := by
    rw [lines_joined h, List.map_map]
    exact List.map_congr_left fun l _ => trim_dropBreak_append_newline l
  calc read p (joined ls)
      = readLines p (lines (joined ls)) := rfl
    _ = readLines p (ls.map trim) := by rw [← readLines_map_trim, hlines]
    _ = readLines p ls := readLines_map_trim p ls

/-! ## Reports -/

/-- What a compiler has to say about a line of a program, with what it shows of the program. -/
structure Report where
  severity : Severity
  /-- The line of the program. -/
  number : UInt64
  message : List Char
  /-- The file of the program, up to its extension or with it. -/
  path : List Char
  /-- The line of the program as it is shown. -/
  echo : List Char
  /-- The line below it, with a mark. -/
  caret : List Char

/-- The diagnostic that a report is to be read as. -/
def Report.diagnostic (p : Program) (r : Report) : Diagnostic :=
  ⟨r.severity, String.ofList r.message, p.sourceLine? r.number.toNat⟩

end Messages

end SnippetRunner
