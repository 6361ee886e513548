import Mathlib.Tactic.Common
import SnippetRunner.Token.Lexer

/-!
# Pieces of a text

Reading tokens cuts a text into pieces, each of them the spelling of a token or a stretch without
meaning. `Cuts cs ps rest` says that the steps of the lexer take the pieces `ps` off the text `cs`
and leave `rest`.

* Cuts follow one another (`Cuts.append`), and the pieces spell the text (`Cuts.spell`).
* A text that is cut to its end has as tokens those of its pieces, each where its spelling stands
  (`lex_of_cuts`).
-/

namespace SnippetRunner

open Text

/-- What spells tokens starts with the first of them, at some place. -/
theorem exists_cons_of_map {token : Token} {tokens : List Token} {ts : List Lexeme}
    (h : ts.map Lexeme.token = token :: tokens) :
    ∃ span us, ts = ⟨token, span⟩ :: us ∧ us.map Lexeme.token = tokens := by
  obtain ⟨⟨_, span⟩, us, rfl, rfl, hus⟩ := List.map_eq_cons_iff.1 h
  exact ⟨span, us, rfl, hus⟩

namespace Lexer

/-- A piece of a text: its spelling, and the token if it spells one. -/
structure Piece where
  text : List Char
  token : Option Token

/-- The text that pieces make up. -/
def spell (ps : List Piece) : List Char := ps.flatMap Piece.text

/-- The tokens of pieces. -/
def tokensOf (ps : List Piece) : List Token := ps.filterMap Piece.token

/-- The tokens of pieces that stand at a position. -/
def place (p : Position) : List Piece → List Lexeme
  | [] => []
  | ⟨text, none⟩ :: ps => place (p.after text) ps
  | ⟨text, some t⟩ :: ps => ⟨t, Span.ofText p text⟩ :: place (p.after text) ps

/-- `Cuts cs ps rest`: the lexer takes the pieces `ps` off the text `cs`, and leaves `rest`. -/
inductive Cuts : List Char → List Piece → List Char → Prop
  | nil (cs : List Char) : Cuts cs [] cs
  | blank {c : Char} {u cs rest : List Char} {ps : List Piece} :
      step c (u ++ cs) = .blank u.length → Cuts cs ps rest →
        Cuts (c :: u ++ cs) (⟨c :: u, none⟩ :: ps) rest
  | token {c : Char} {u cs rest : List Char} {t : Token} {ps : List Piece} :
      step c (u ++ cs) = .token t u.length → Cuts cs ps rest →
        Cuts (c :: u ++ cs) (⟨c :: u, some t⟩ :: ps) rest

variable {cs mid rest : List Char} {ps qs : List Piece}

theorem spell_append (ps qs : List Piece) : spell (ps ++ qs) = spell ps ++ spell qs := by
  simp [spell]

theorem tokensOf_append (ps qs : List Piece) :
    tokensOf (ps ++ qs) = tokensOf ps ++ tokensOf qs := by
  simp [tokensOf]

theorem place_append (p : Position) (ps qs : List Piece) :
    place p (ps ++ qs) = place p ps ++ place (p.after (spell ps)) qs := by
  induction ps generalizing p with
  | nil => rfl
  | cons q ps ih =>
    obtain ⟨text, _ | t⟩ := q
    · simp [place, spell, ih]
    · simp [place, spell, ih]

/-- The tokens at their places are the tokens of the pieces. -/
theorem map_token_place (p : Position) (ps : List Piece) :
    (place p ps).map Lexeme.token = tokensOf ps := by
  induction ps generalizing p with
  | nil => rfl
  | cons q ps ih =>
    obtain ⟨text, _ | t⟩ := q
    · simp [place, tokensOf, ih]
    · simp [place, tokensOf, ih]

namespace Cuts

theorem append (h : Cuts cs ps mid) (h' : Cuts mid qs rest) : Cuts cs (ps ++ qs) rest := by
  induction h with
  | nil => exact h'
  | blank hstep _ ih => exact .blank hstep (ih h')
  | token hstep _ ih => exact .token hstep (ih h')

/-- A text that is cut into two lists of pieces is cut between them. -/
theorem exists_mid (h : Cuts cs (ps ++ qs) rest) : ∃ mid, Cuts cs ps mid ∧ Cuts mid qs rest := by
  induction ps generalizing cs with
  | nil => exact ⟨cs, .nil cs, h⟩
  | cons q ps ih =>
    cases h with
    | blank hstep h' =>
      obtain ⟨mid, hps, hqs⟩ := ih h'
      exact ⟨mid, .blank hstep hps, hqs⟩
    | token hstep h' =>
      obtain ⟨mid, hps, hqs⟩ := ih h'
      exact ⟨mid, .token hstep hps, hqs⟩

theorem spell (h : Cuts cs ps rest) : cs = Lexer.spell ps ++ rest := by
  induction h with
  | nil => rfl
  | blank _ _ ih => simp [Lexer.spell, ih]
  | token _ _ ih => simp [Lexer.spell, ih]

/-- **A text that is cut to its end has the tokens of its pieces.** -/
theorem lexFrom (h : Cuts cs ps []) (p : Position) :
    lexFrom p cs = .ok (place p ps, p.after cs) := by
  generalize hrest : ([] : List Char) = rest at h
  induction h generalizing p with
  | nil =>
    subst hrest
    simp [lexFrom_nil, place]
  | blank hstep _ ih =>
    rw [List.cons_append, lexFrom_cons, hstep]
    simp only [List.take_left, List.drop_left]
    rw [ih _ hrest]
    simp [place]
  | token hstep _ ih =>
    rw [List.cons_append, lexFrom_cons, hstep]
    simp only [List.take_left, List.drop_left]
    rw [ih _ hrest]
    simp [place]

end Cuts

/-- Pieces that are cut off the text they spell, one at a time. -/
theorem Cuts.cons_token {c : Char} {u X : List Char} {t : Token} {ps : List Piece}
    (h : step c (u ++ (Lexer.spell ps ++ X)) = .token t u.length)
    (h' : Cuts (Lexer.spell ps ++ X) ps X) :
    Cuts (Lexer.spell (⟨c :: u, some t⟩ :: ps) ++ X) (⟨c :: u, some t⟩ :: ps) X := by
  have hcut := Cuts.token h h'
  simpa [Lexer.spell] using hcut

theorem Cuts.cons_blank {c : Char} {u X : List Char} {ps : List Piece}
    (h : step c (u ++ (Lexer.spell ps ++ X)) = .blank u.length)
    (h' : Cuts (Lexer.spell ps ++ X) ps X) :
    Cuts (Lexer.spell (⟨c :: u, none⟩ :: ps) ++ X) (⟨c :: u, none⟩ :: ps) X := by
  have hcut := Cuts.blank h h'
  simpa [Lexer.spell] using hcut

theorem Cuts.spell_append {X : List Char}
    (h : Cuts (Lexer.spell ps ++ (Lexer.spell qs ++ X)) ps (Lexer.spell qs ++ X))
    (h' : Cuts (Lexer.spell qs ++ X) qs X) : Cuts (Lexer.spell (ps ++ qs) ++ X) (ps ++ qs) X := by
  rw [Lexer.spell_append, List.append_assoc]
  exact h.append h'

namespace Piece

/-- An identifier. -/
def name (s : String) : Piece := ⟨s.toList, some (.ident s)⟩

/-- A reserved word. -/
def keyword (k : Keyword) : Piece := ⟨k.text.toList, some (.keyword k)⟩

/-- A sign. -/
def sign (s : Sign) : Piece := ⟨s.text.toList, some (.sign s)⟩

/-- A white space character. -/
def space (c : Char) : Piece := ⟨[c], none⟩

end Piece

theorem place_cons_sign (p : Position) (s : Sign) (ps : List Piece) :
    place p (.sign s :: ps) =
      ⟨.sign s, Span.ofText p s.text.toList⟩ :: place (p.after s.text.toList) ps := rfl

theorem cuts_spaces (n : Nat) (X : List Char) :
    Cuts (spell (List.replicate n (.space ' ')) ++ X) (List.replicate n (.space ' ')) X := by
  induction n with
  | zero => exact .nil X
  | succ n ih => exact .cons_blank rfl ih

theorem lex_of_cuts (h : Cuts cs ps []) :
    lex cs = .ok ⟨place .start ps, Span.ofText (Position.start.after cs) []⟩ := by
  rw [lex, h.lexFrom]
  rfl

end Lexer

end SnippetRunner
