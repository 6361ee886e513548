import SnippetRunner.Proofs.Slices
import SnippetRunner.Proofs.Spelling

/-!
# Tokens without their layout

What stands around a token has no part in what it is (`lex_respaced`): the spelling of a token is a
text of that one token, and the spellings of the tokens of a text, with single spaces between them,
have the same tokens. So texts whose tokens are spelled alike have the same tokens, whatever white
space and comments they have.

The lexer looks ahead before it takes a token, but it takes the same one if the text ends behind it
(`Cuts.readsAs`).
-/

namespace SnippetRunner

open Text Lexer

/-- The spellings of the tokens of a text. -/
def Lexemes.spellings (tokens : Lexemes) (source : List Char) : List (List Char) :=
  tokens.list.map fun t => t.span.text source

/-- The tokens of a text without their places, if it is made of tokens. -/
def tokens? (cs : List Char) : Option (List Token) :=
  (lex cs).toOption.map fun tokens => tokens.list.map Lexeme.token

namespace Lexer

variable {cs rest : List Char} {ps : List Piece}

theorem tokens?_of_cuts (h : Cuts cs ps []) : tokens? cs = some (tokensOf ps) := by
  rw [tokens?, lex_of_cuts h, ← map_token_place .start ps]
  rfl

/-- **The spelling of every token is a text of that one token.** -/
theorem Cuts.readsAs (h : Cuts cs ps rest) (front : List Char) :
    List.Forall₂ ReadsAs ((place (Position.start.after front) ps).map fun t =>
      t.span.text (front ++ cs)) (tokensOf ps) := by
  induction h generalizing front with
  | nil => exact .nil
  | @blank c u cs rest ps _ _ ih =>
    rw [place, ← Position.after_append, ← List.append_assoc]
    exact ih (front ++ c :: u)
  | @token c u cs rest t ps hstep _ ih =>
    have hlater := ih (front ++ c :: u)
    rw [List.append_assoc] at hlater
    rw [place, ← Position.after_append]
    have halone : step c (u ++ []) = .token t u.length := token_of_isPrefix List.nil_prefix hstep
    rw [List.append_nil] at halone
    exact .cons ⟨c, u, text_ofText front (c :: u) cs, halone⟩ hlater

theorem ReadsAs.tokens?_eq {text : List Char} {t : Token} (h : ReadsAs text t) :
    tokens? text = some [t] := by
  obtain ⟨ps, hcuts, htokens⟩ := exists_cuts_intercalate (.cons h .nil)
  rw [List.intercalate_singleton] at hcuts
  rw [tokens?_of_cuts hcuts, htokens]

/-- A text reads as one token at most. -/
theorem ReadsAs.eq {text : List Char} {t t' : Token} (h : ReadsAs text t) (h' : ReadsAs text t') :
    t = t' := by
  have hsame := h.tokens?_eq.symm.trans h'.tokens?_eq
  exact (List.cons.inj (Option.some.inj hsame)).1

theorem eq_of_forall₂_readsAs {texts : List (List Char)} {ts ts' : List Token}
    (h : List.Forall₂ ReadsAs texts ts) (h' : List.Forall₂ ReadsAs texts ts') : ts = ts' := by
  induction h generalizing ts' with
  | nil =>
    cases h'
    rfl
  | cons hread _ ih =>
    cases h' with
    | cons hread' hlater' => rw [hread.eq hread', ih hlater']

end Lexer

/-- The spellings of the tokens of a text are texts of one token each. -/
theorem readsAs_of_lex {cs : List Char} {tokens : Lexemes} (h : lex cs = .ok tokens) :
    List.Forall₂ ReadsAs (tokens.spellings cs) (tokens.list.map Lexeme.token) := by
  obtain ⟨ps, hcuts, rfl⟩ := exists_cuts_of_lex h
  rw [map_token_place]
  exact hcuts.readsAs []

/-- **Tokens do not depend on the layout of their text.** The spellings of the tokens with single
spaces between them have the same tokens, each spelling has that one token, and every text with
tokens of these spellings has the same tokens. -/
theorem lex_respaced {cs : List Char} {tokens : Lexemes} (h : lex cs = .ok tokens) :
    tokens? ([' '].intercalate (tokens.spellings cs)) = some (tokens.list.map Lexeme.token) ∧
      (∀ t ∈ tokens.list, tokens? (t.span.text cs) = some [t.token]) ∧
      ∀ cs' tokens', lex cs' = .ok tokens' → tokens'.spellings cs' = tokens.spellings cs →
        tokens'.list.map Lexeme.token = tokens.list.map Lexeme.token := by
  have hreads := readsAs_of_lex h
  refine ⟨?_, fun t ht => ?_, fun cs' tokens' h' hspellings => ?_⟩
  · obtain ⟨ps, hcuts, hsame⟩ := exists_cuts_intercalate hreads
    rw [tokens?_of_cuts hcuts, hsame]
  · have hpairs := hreads
    rw [Lexemes.spellings, List.forall₂_map_left_iff, List.forall₂_map_right_iff,
      List.forall₂_same] at hpairs
    exact (hpairs t ht).tokens?_eq
  · have hreads' := readsAs_of_lex h'
    rw [hspellings] at hreads'
    exact eq_of_forall₂_readsAs hreads' hreads

/-- A text with a point behind a digit, a text block and comments. -/
def pointsAndBlock : List Char := "1.x/**/..\"\"\"\n  a\"\"\"//\n+1e+y".toList

/-- Its tokens are read from another layout. -/
theorem lex_respaced_pointsAndBlock :
    ∃ tokens, lex pointsAndBlock = .ok tokens ∧ tokens.list.length = 11 ∧
      tokens? "1 . x . . \"\"\"\n  a\"\"\" + 1 e + y".toList =
        some (tokens.list.map Lexeme.token) := by
  have hsome : (lex pointsAndBlock).toOption.any (fun tokens => decide (tokens.list.length = 11 ∧
      [' '].intercalate (tokens.spellings pointsAndBlock) =
        "1 . x . . \"\"\"\n  a\"\"\" + 1 e + y".toList)) = true := by decide +kernel
  obtain ⟨tokens, hlex, hchecked⟩ := exists_ok_of_any hsome
  obtain ⟨hlength, hspaced⟩ := of_decide_eq_true hchecked
  refine ⟨tokens, hlex, hlength, ?_⟩
  rw [← hspaced]
  exact (lex_respaced hlex).1

end SnippetRunner
