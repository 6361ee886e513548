import Mathlib.Data.List.Find
import SnippetRunner.Proofs.LineMap
import SnippetRunner.Proofs.Occurrences
import SnippetRunner.Screen

/-!
# What is screened is what runs

A snippet is screened as it was submitted, and the program made of it is what runs. A fragment
without white space that is in none of the lines around a snippet (`IsInner`) is in the program iff
it is in the snippet (`contains_text_ofSnippet`): it stands inside one line, and every line that is
not blank is kept but for white space at its ends. So the rules come to the same verdict on both,
by the same rule (`screen_text_ofSnippet`).
-/

namespace SnippetRunner

open Text

/-- A word without white space stands inside one line of a program. -/
theorem Text.IsUnspaced.isInfix_textOf_iff {fragment : List Char} (h : IsUnspaced fragment)
    (ls : Program.Lines) : fragment <:+: Program.textOf ls ↔ ∃ l ∈ ls, fragment <:+: l.1 := by
  induction ls with
  | nil => simp [Program.textOf, h.ne_nil]
  | cons l ls ih =>
    rw [Program.textOf_cons, isInfix_append_cons_iff (h.not_mem (by decide)), ih]
    simp

namespace Program

/-- A fragment without white space that occurs in no line around the snippet. -/
structure IsInner (snippet fragment : List Char) : Prop where
  isSpace_eq : ∀ c ∈ fragment, isSpace c = false
  contains_eq : ∀ l ∈ openingLines snippet ++ closingLines snippet, contains fragment l = false

instance (snippet fragment : List Char) : Decidable (IsInner snippet fragment) :=
  decidable_of_iff (fragment.all (fun c => !isSpace c) = true ∧
      ∀ l ∈ openingLines snippet ++ closingLines snippet, contains fragment l = false)
    ⟨fun h => ⟨all_not_isSpace_iff.1 h.1, h.2⟩,
      fun h => ⟨all_not_isSpace_iff.2 h.isSpace_eq, h.contains_eq⟩⟩

variable {snippet fragment : List Char}

/-- The empty fragment occurs in every line. -/
theorem IsInner.isUnspaced (h : IsInner snippet fragment) : IsUnspaced fragment where
  ne_nil := by
    rintro rfl
    have hline : contains [] "public class TempClass \x7b".toList = false :=
      h.contains_eq _ (List.mem_append_left _ List.mem_cons_self)
    exact absurd hline (by decide)
  isSpace_eq := h.isSpace_eq

/-- The lines of the program have an inner fragment from the lines of the snippet. -/
theorem IsInner.exists_line_of_lineOf (h : IsInner snippet fragment) {k : Nat} {text : List Char}
    {origin : Option Nat} (hline : LineOf snippet k text origin) (hin : fragment <:+: text) :
    ∃ l ∈ lines snippet, fragment <:+: l := by
  cases origin with
  | some r =>
    obtain ⟨n, l, -, hl, -, htrim, -⟩ := hline.exists_origin
    refine ⟨l, List.mem_of_getElem? hl, ?_⟩
    rw [← h.isUnspaced.isInfix_trim_iff, ← htrim, h.isUnspaced.isInfix_trim_iff]
    exact hin
  | none =>
    have hshell : text ∉ openingLines snippet ++ closingLines snippet := fun hmem =>
      contains_eq_false_iff.1 (h.contains_eq text hmem) hin
    cases hline with
    | opening hl => exact absurd (List.mem_append_left _ (List.mem_of_getElem? hl)) hshell
    | closing hl => exact absurd (List.mem_append_right _ (List.mem_of_getElem? hl)) hshell
    | emptied => exact absurd hin (h.isUnspaced.not_isInfix_of_isBlank rfl)

/-- **An inner fragment is in the program iff it is in the snippet.** -/
theorem contains_text_ofSnippet (h : IsInner snippet fragment) :
    contains fragment (ofSnippet snippet).text = contains fragment snippet := by
  by_cases hwrapped : IsWrapped snippet
  · rw [Bool.eq_iff_iff, contains_iff_isInfix, contains_iff_isInfix,
      (ofSnippet_of_isWrapped hwrapped).1, h.isUnspaced.isInfix_textOf_iff,
      h.isUnspaced.isInfix_iff_exists_line]
    constructor
    · rintro ⟨⟨text, origin⟩, hmem, hin⟩
      obtain ⟨k, hk⟩ := List.getElem?_of_mem hmem
      exact h.exists_line_of_lineOf (getElem?_wrapped_iff.1 hk) hin
    · rintro ⟨l, hmem, hin⟩
      obtain ⟨n, hl⟩ := List.getElem?_of_mem hmem
      have hblank : isBlank l = false := by
        by_contra hne
        exact h.isUnspaced.not_isInfix_of_isBlank (by simpa using hne) hin
      obtain ⟨text, hline⟩ := exists_lineOf hl hblank
      obtain ⟨m, l', hm, hl', -, htrim, -⟩ := hline.exists_origin
      obtain rfl := Nat.succ.inj hm
      obtain rfl := Option.some.inj (hl.symm.trans hl')
      refine ⟨_, List.mem_of_getElem? (getElem?_wrapped_iff.2 hline), ?_⟩
      rw [← h.isUnspaced.isInfix_trim_iff, htrim, h.isUnspaced.isInfix_trim_iff]
      exact hin
  · rw [(ofSnippet_of_not_isWrapped hwrapped).1]

end Program

open Program

/-- All fragments of a rule are inner fragments. -/
def DenyRule.IsInner (snippet : List Char) (rule : DenyRule) : Prop :=
  ∀ fragment ∈ rule.pattern :: rule.requiresAny, Program.IsInner snippet fragment

instance (snippet : List Char) (rule : DenyRule) : Decidable (rule.IsInner snippet) :=
  inferInstanceAs (Decidable (∀ _ ∈ _, _))

theorem DenyRule.IsInner.matchesText_eq {snippet : List Char} {rule : DenyRule}
    (h : rule.IsInner snippet) :
    rule.matchesText (ofSnippet snippet).text = rule.matchesText snippet := by
  rw [DenyRule.IsInner, List.forall_mem_cons] at h
  have hany : (rule.requiresAny.any fun fragment => contains fragment (ofSnippet snippet).text) =
      rule.requiresAny.any fun fragment => contains fragment snippet := by
    rw [Bool.eq_iff_iff, List.any_eq_true, List.any_eq_true]
    exact exists_congr fun fragment => and_congr_right fun hmem => by
      rw [contains_text_ofSnippet (h.2 fragment hmem)]
  rw [matchesText, matchesText, contains_text_ofSnippet h.1, hany]

/-- The fragments of the standard rules are inner fragments of every snippet. -/
theorem DenyRule.isInner_of_mem_standard {rule : DenyRule} (h : rule ∈ DenyRule.standard)
    (snippet : List Char) : rule.IsInner snippet := by
  have hall : ∀ rule ∈ DenyRule.standard, ∀ fragment ∈ rule.pattern :: rule.requiresAny,
      fragment.all (fun c => !isSpace c) = true ∧
        ∀ l ∈ shellLines, contains fragment l = false := by decide
  intro fragment hfragment
  obtain ⟨hspace, hshell⟩ := hall rule h fragment hfragment
  exact ⟨all_not_isSpace_iff.1 hspace, fun l hl => hshell l (mem_shellLines hl)⟩

/-- **What is screened is what runs.** The standard rules, and any others with inner fragments only,
give the same verdict on a snippet and on the program made of it: both pass, or the same rule is the
first that forbids them. -/
theorem screen_text_ofSnippet (snippet : List Char) :
    screen DenyRule.standard (ofSnippet snippet).text = screen DenyRule.standard snippet ∧
      ∀ rules : List DenyRule, (∀ rule ∈ rules, rule.IsInner snippet) →
        screen rules (ofSnippet snippet).text = screen rules snippet := by
  have hrules {rules : List DenyRule} (h : ∀ rule ∈ rules, rule.IsInner snippet) :
      screen rules (ofSnippet snippet).text = screen rules snippet :=
    List.find?_congr fun rule hrule => (h rule hrule).matchesText_eq
  exact ⟨hrules fun rule hrule => DenyRule.isInner_of_mem_standard hrule snippet, fun _ => hrules⟩

/-- A rule with two fragments that stand on different lines, one of them an import that moves. -/
theorem screen_text_ofSnippet_fragmentsApart :
    let rule : DenyRule := ⟨"java.nio".toList, ["walk".toList, "delete(".toList], "no files"⟩
    let snippet := "int n = 1;\r\n  import java.nio.file.Files;\r\nFiles.delete(path);".toList
    (∀ r ∈ [rule], r.IsInner snippet) ∧ screen [rule] (ofSnippet snippet).text = some rule := by
  intro rule snippet
  have hinner : ∀ r ∈ [rule], r.IsInner snippet := by decide +kernel
  refine ⟨hinner, ((screen_text_ofSnippet snippet).2 [rule] hinner).trans ?_⟩
  decide +kernel

end SnippetRunner
