import SnippetRunner.Proofs.Texts
import SnippetRunner.Toolchain.Messages

/-!
# Occurrences of a word

A search for a word finds its first occurrence (`breakOn?`), and a text contains the word iff it is
a part of the text (`contains_iff_isInfix`). A word without white space stands inside one line:

* it is on one side of every character that it does not have (`isInfix_append_cons_iff`), so white
  space at the ends of a text makes no difference to it (`isInfix_trim_iff`);
* it occurs in a text iff it occurs in one of its lines (`isInfix_iff_exists_line`).
-/

namespace SnippetRunner

namespace Text

section Search

variable {c : Char} {word cs before after : List Char}

theorem contains_iff_isInfix : contains word cs = true ↔ word <:+: cs := by
  unfold contains
  induction cs with
  | nil => cases word <;> simp [breakOn?, List.isPrefixOf]
  | cons c cs ih =>
    rw [breakOn?, List.infix_cons_iff, ← List.isPrefixOf_iff_prefix]
    split
    · next hlead => simp [hlead]
    · next hlead => rw [Option.isSome_map, ih]; simp [hlead]

theorem contains_eq_false_iff : contains word cs = false ↔ ¬ word <:+: cs := by
  rw [← contains_iff_isInfix, Bool.not_eq_true]

theorem isPrefix_of_breakOn? (h : breakOn? word cs = some (before, after)) : word <+: after := by
  induction cs generalizing before with
  | nil =>
    rw [breakOn?] at h
    split at h
    · next hlead =>
      obtain ⟨-, rfl⟩ := Prod.mk.inj (Option.some.inj h)
      exact List.isPrefixOf_iff_prefix.1 hlead
    · cases h
  | cons c cs ih =>
    rw [breakOn?] at h
    split at h
    · next hlead =>
      obtain ⟨-, rfl⟩ := Prod.mk.inj (Option.some.inj h)
      exact List.isPrefixOf_iff_prefix.1 hlead
    · obtain ⟨⟨before', after'⟩, hlater, hparts⟩ := Option.map_eq_some_iff.1 h
      obtain ⟨-, rfl⟩ := Prod.mk.inj hparts
      exact ih hlater

/-- A word is found at the same place if the text goes on. -/
theorem breakOn?_append (h : breakOn? word cs = some (before, after)) (Y : List Char) :
    breakOn? word (cs ++ Y) = some (before, after ++ Y) := by
  have hlead {ds : List Char} (h : word.isPrefixOf ds = true) :
      word.isPrefixOf (ds ++ Y) = true := by
    rw [List.isPrefixOf_iff_prefix] at h ⊢
    exact h.trans (List.prefix_append ds Y)
  induction cs generalizing before with
  | nil =>
    rw [breakOn?] at h
    split at h
    · next hword =>
      obtain ⟨rfl, rfl⟩ := Prod.mk.inj (Option.some.inj h)
      obtain rfl := List.prefix_nil.1 (List.isPrefixOf_iff_prefix.1 hword)
      cases Y <;> rfl
    · cases h
  | cons c cs ih =>
    rw [breakOn?] at h
    split at h
    · next hword =>
      obtain ⟨rfl, rfl⟩ := Prod.mk.inj (Option.some.inj h)
      rw [List.cons_append, breakOn?, if_pos (by exact hlead hword)]
    · next hword =>
      obtain ⟨⟨before', after'⟩, hlater, hparts⟩ := Option.map_eq_some_iff.1 h
      obtain ⟨rfl, rfl⟩ := Prod.mk.inj hparts
      -- the word fits into what is left of the text, so the longer text does not start with it
      have hnot : ¬ word.isPrefixOf (c :: (cs ++ Y)) = true := by
        rw [List.isPrefixOf_iff_prefix] at hword ⊢
        intro hlonger
        have hafter := (isPrefix_of_breakOn? hlater).length_le
        have hsize := congrArg List.length (append_of_breakOn? hlater)
        rw [List.length_append] at hsize
        refine hword (List.prefix_of_prefix_length_le hlonger (List.prefix_append (c :: cs) Y) ?_)
        rw [List.length_cons]
        omega
      rw [List.cons_append, breakOn?, if_neg hnot, ih hlater]
      rfl

theorem contains_eq_false_of_breakOn? (hword : word ≠ [])
    (h : breakOn? word cs = some (before, after)) : contains word before = false := by
  unfold contains
  cases hbreak : breakOn? word before with
  | none => rfl
  | some parts =>
    obtain ⟨a, b⟩ := parts
    have hwhole := breakOn?_append hbreak after
    rw [append_of_breakOn? h, h] at hwhole
    obtain ⟨-, hafter⟩ := Prod.mk.inj (Option.some.inj hwhole)
    have hempty : b = [] := List.self_eq_append_left.1 hafter
    have hlead := isPrefix_of_breakOn? hbreak
    rw [hempty] at hlead
    exact absurd (List.prefix_nil.1 hlead) hword

/-- A word whose first character does not come again overlaps no other occurrence of it. -/
theorem breakOn?_of_contains (hc : c ∉ word) {front : List Char}
    (h : contains (c :: word) front = false) (back : List Char) :
    breakOn? (c :: word) (front ++ c :: word ++ back) = some (front, c :: word ++ back) := by
  induction front with
  | nil =>
    have hlead : (c :: word).isPrefixOf (c :: word ++ back) = true := by
      rw [List.isPrefixOf_iff_prefix]
      exact List.prefix_append _ _
    rw [List.nil_append, List.cons_append, breakOn?, ← List.cons_append, if_pos hlead]
  | cons x xs ih =>
    unfold contains at h ih
    rw [breakOn?] at h
    split at h
    · exact absurd h (by simp)
    · next hnot =>
      rw [Option.isSome_map] at h
      have hlead : (c :: word).isPrefixOf (x :: (xs ++ c :: word ++ back)) = false := by
        rw [← Bool.not_eq_true, List.isPrefixOf_iff_prefix]
        intro hpre
        rw [List.isPrefixOf_iff_prefix] at hnot
        -- an occurrence that starts in front of the second one ends behind its first character
        obtain ⟨rest, hrest⟩ := hpre
        have hsame : (c :: word) ++ rest = (x :: xs) ++ ((c :: word) ++ back) := by
          rw [hrest]
          simp
        obtain ⟨m, hm, -⟩ | ⟨m, hm, hmid⟩ := List.append_eq_append_iff.1 hsame
        · exact hnot ⟨m, hm.symm⟩
        · cases m with
          | nil => exact hnot ⟨[], by rw [hm, List.append_nil, List.append_nil]⟩
          | cons y ys =>
            obtain ⟨rfl, -⟩ := List.cons.inj hmid
            obtain ⟨-, rfl⟩ := List.cons.inj hm
            exact hc (by simp)
      rw [List.cons_append, List.cons_append, breakOn?, hlead, if_neg Bool.false_ne_true, ih h]
      rfl

/-- A word does not start where its first character is missing. -/
theorem isInfix_append_of_not_mem {front : List Char} (hc : c ∉ front) :
    c :: word <:+: front ++ cs ↔ c :: word <:+: cs := by
  induction front with
  | nil => rw [List.nil_append]
  | cons d front ih =>
    rw [List.mem_cons, not_or] at hc
    rw [List.cons_append, List.infix_cons_iff, List.cons_prefix_cons, ih hc.2]
    exact or_iff_right fun h => hc.1 h.1

end Search

/-! ## Words without white space -/

section Unspaced

variable {c : Char} {word a b : List Char}

/-- A word is on one side of a character that it does not have. -/
theorem isInfix_append_cons_iff (hc : c ∉ word) :
    word <:+: a ++ c :: b ↔ word <:+: a ∨ word <:+: b := by
  constructor
  · rintro ⟨s, t, h⟩
    obtain ⟨x, ha, -⟩ | ⟨x, hs, hx⟩ := List.append_eq_append_iff.1 h
    · exact .inl ⟨s, x, ha.symm⟩
    · cases x with
      | nil => exact .inl ⟨s, [], by simpa using hs⟩
      | cons d x =>
        obtain ⟨rfl, hb⟩ := List.cons.inj hx
        -- the word ends behind the character, so it has to start behind it
        obtain ⟨y, -, hword⟩ | ⟨y, -, hword⟩ := List.append_eq_append_iff.1 hs
        · exact absurd (by simp [hword]) hc
        · cases y with
          | nil => exact absurd (by rw [List.nil_append] at hword; simp [← hword]) hc
          | cons d y =>
            obtain ⟨-, rfl⟩ := List.cons.inj hword
            exact .inr ⟨y, t, hb.symm⟩
  · rintro (h | h)
    · exact h.trans (List.prefix_append a _).isInfix
    · exact h.trans ((List.suffix_cons c b).trans (List.suffix_append a _)).isInfix

/-- A word with some character and no white space. -/
structure IsUnspaced (word : List Char) : Prop where
  ne_nil : word ≠ []
  isSpace_eq : ∀ c ∈ word, isSpace c = false

theorem all_not_isSpace_iff {cs : List Char} :
    cs.all (fun c => !isSpace c) = true ↔ ∀ c ∈ cs, isSpace c = false := by
  simp

instance (word : List Char) : Decidable (IsUnspaced word) :=
  decidable_of_iff (word ≠ [] ∧ word.all (fun c => !isSpace c) = true)
    ⟨fun h => ⟨h.1, all_not_isSpace_iff.1 h.2⟩,
      fun h => ⟨h.ne_nil, all_not_isSpace_iff.2 h.isSpace_eq⟩⟩

theorem IsUnspaced.not_mem (h : IsUnspaced word) (hc : isSpace c = true) : c ∉ word :=
  fun hmem => Bool.false_ne_true ((h.isSpace_eq c hmem).symm.trans hc)

theorem IsUnspaced.not_isInfix_of_isBlank (h : IsUnspaced word) (ha : isBlank a = true) :
    ¬ word <:+: a := by
  intro hin
  obtain ⟨c, word, rfl⟩ := List.exists_cons_of_ne_nil h.ne_nil
  have hc : isSpace c = true := List.all_eq_true.1 ha c (hin.subset List.mem_cons_self)
  exact h.not_mem hc List.mem_cons_self

theorem IsUnspaced.isInfix_append_left (h : IsUnspaced word) (ha : isBlank a = true) :
    word <:+: a ++ b ↔ word <:+: b := by
  induction a with
  | nil => rw [List.nil_append]
  | cons c a ih =>
    rw [isBlank_cons, Bool.and_eq_true] at ha
    have hside := isInfix_append_cons_iff (a := []) (b := a ++ b) (h.not_mem ha.1)
    rw [List.cons_append, ← List.nil_append (c :: (a ++ b)), hside, ih ha.2]
    exact or_iff_right (h.not_isInfix_of_isBlank rfl)

theorem IsUnspaced.isInfix_append_right (h : IsUnspaced word) (hb : isBlank b = true) :
    word <:+: a ++ b ↔ word <:+: a := by
  cases b with
  | nil => rw [List.append_nil]
  | cons c b =>
    rw [isBlank_cons, Bool.and_eq_true] at hb
    rw [isInfix_append_cons_iff (h.not_mem hb.1)]
    exact or_iff_left (h.not_isInfix_of_isBlank hb.2)

/-- White space at the ends of a text makes no difference to words without white space. -/
theorem IsUnspaced.isInfix_trim_iff (h : IsUnspaced word) (cs : List Char) :
    word <:+: trim cs ↔ word <:+: cs := by
  obtain ⟨s, b, hcs, hs, hb⟩ := exists_eq_append_trim cs
  have hall := h.isInfix_append_left (b := trim cs ++ b) hs
  rw [← hcs, h.isInfix_append_right hb] at hall
  exact hall.symm

/-- A word without white space stands inside one line. -/
theorem IsUnspaced.isInfix_iff_exists_line (h : IsUnspaced word) (cs : List Char) :
    word <:+: cs ↔ ∃ l ∈ lines cs, word <:+: l := by
  induction hn : cs.length using Nat.strongRecOn generalizing cs with
  | _ n ih =>
    by_cases hbreak : '\n' ∈ cs
    · obtain ⟨x, rest, rfl, hx⟩ := List.eq_append_cons_of_mem hbreak
      obtain ⟨s, hs, hblank⟩ := exists_eq_dropBreak_append x
      have hline : word <:+: x ↔ word <:+: dropBreak (x ++ ['\n']) := by
        have hend := h.isInfix_append_right (a := dropBreak (x ++ ['\n'])) hblank
        rwa [← hs] at hend
      rw [isInfix_append_cons_iff (h.not_mem (by decide)), lines_append_newline hx, hline,
        ih rest.length (by rw [← hn]; simp; omega) rest rfl]
      simp
    · cases cs with
      | nil => simp [lines, linesWithBreaks, h.ne_nil]
      | cons c cs =>
        rw [lines_of_newline_not_mem hbreak (List.cons_ne_nil c cs)]
        simp

end Unspaced

end Text

open Text

/-- What stands behind the first occurrence of a word whose first character does not come again. -/
theorem Messages.behind?_eq_some_iff {c : Char} {word line back : List Char} (hc : c ∉ word) :
    behind? (c :: word) line = some back ↔
      ∃ front, line = front ++ c :: word ++ back ∧ contains (c :: word) front = false := by
  unfold behind?
  constructor
  · intro h
    obtain ⟨⟨front, after⟩, hbreak, rfl⟩ := Option.map_eq_some_iff.1 h
    obtain ⟨back, rfl⟩ := isPrefix_of_breakOn? hbreak
    refine ⟨front, ?_, contains_eq_false_of_breakOn? (List.cons_ne_nil c word) hbreak⟩
    dsimp only
    rw [← append_of_breakOn? hbreak, List.drop_left, List.append_assoc]
  · rintro ⟨front, rfl, hfront⟩
    rw [breakOn?_of_contains hc hfront back, Option.map_some]
    dsimp only
    rw [List.drop_left]

theorem Messages.behind?_eq_none_iff {word line : List Char} :
    behind? word line = none ↔ contains word line = false := by
  unfold behind? contains
  rw [Option.map_eq_none_iff, Option.isSome_eq_false_iff, Option.isNone_iff_eq_none]

end SnippetRunner
