import SnippetRunner.Proofs.EntryType
import SnippetRunner.Proofs.Hoisting
import SnippetRunner.Proofs.Twins

/-!
# Imports in front of a snippet

Imports that stand in front of everything else (`ImportsLead`) are read twice: as imports of a
program, where they stand in front of its class (`imports_append`), and as members of a class that
the snippet is put into as it is, where they are skipped like fields (`members_of_imports`). Laid
out as lines of a program they move in front, and nothing is left of them behind
(`exists_of_forall_leadsIn`).
-/

namespace SnippetRunner

open Grammar DeclarationParser Program

/-- The name of an import, as it is written. -/
structure ImportName where
  isStatic : Bool
  first : String
  parts : List String
  /-- Whether everything of that name is imported. -/
  isWhole : Bool

/-- The tokens of an import declaration. -/
def ImportName.tokens (i : ImportName) : List Token :=
  .keyword .importKw :: ((if i.isStatic then [.keyword .staticKw] else []) ++
    (nameTokens i.first i.parts ++
      ((if i.isWhole then [.sign .dot, .sign .star] else []) ++ [.sign .semicolon])))

/-! ## An import among imports -/

variable {stop start : Span} {calls : Nat} {ts rest : List Lexeme}

/-- Whether no further part of a name stands in front. -/
def EndsName (ts : List Lexeme) : Prop :=
  ∀ place place' part rest, ts ≠ ⟨.sign .dot, place⟩ :: ⟨.ident part, place'⟩ :: rest

theorem qualifiers_append {parts : List String}
    (h : ts.map Lexeme.token = parts.flatMap fun part => [.sign .dot, .ident part])
    (name : String) :
    ∃ name', ∀ rest, EndsName rest → qualifiers name (ts ++ rest) = (name', rest) := by
  induction parts generalizing ts name with
  | nil =>
    obtain rfl := List.map_eq_nil_iff.1 h
    exact ⟨name, fun rest hrest => qualifiers.eq_2 name rest fun _ _ _ _ => hrest _ _ _ _⟩
  | cons part parts ih =>
    rw [List.flatMap_cons] at h
    obtain ⟨_, us, rfl, hus⟩ := exists_cons_of_map h
    obtain ⟨_, vs, rfl, hvs⟩ := exists_cons_of_map hus
    exact ih hvs _

theorem qualifiedName_append {first : String} {parts : List String}
    (h : ts.map Lexeme.token = nameTokens first parts) :
    ∃ name, ∀ rest, EndsName rest → qualifiedName stop (ts ++ rest) = .ok (name, rest) := by
  obtain ⟨_, us, rfl, hus⟩ := exists_cons_of_map h
  obtain ⟨name, hname⟩ := qualifiers_append hus first
  exact ⟨name, fun rest hrest => congrArg Except.ok (hname rest hrest)⟩

theorem importName_append {i : ImportName} (h : ts.map Lexeme.token = i.tokens.tail) :
    ∃ name, importName stop (ts ++ rest) = .ok (name, rest) := by
  obtain ⟨isStatic, first, parts, isWhole⟩ := i
  obtain ⟨words, us, rfl, hwords, hus⟩ := List.map_eq_append_iff.1 h
  obtain ⟨names, vs, rfl, hnames, hvs⟩ := List.map_eq_append_iff.1 hus
  obtain ⟨_, behindFirst, rfl, -⟩ := exists_cons_of_map hnames
  obtain ⟨name, hname⟩ := qualifiedName_append hnames
  -- a leading `static` leaves no trace in the name
  have hstatic (place : Span) (ts : List Lexeme) :
      importName stop (words ++ ⟨.ident first, place⟩ :: ts) =
        importName stop (⟨.ident first, place⟩ :: ts) := by
    cases isStatic with
    | true =>
      obtain ⟨_, us, rfl, hnil⟩ := exists_cons_of_map hwords
      obtain rfl := List.map_eq_nil_iff.1 hnil
      rfl
    | false =>
      obtain rfl := List.map_eq_nil_iff.1 hwords
      rfl
  rw [List.append_assoc, List.append_assoc, List.cons_append, hstatic, ← List.cons_append]
  cases isWhole with
  | true =>
    obtain ⟨_, star, rfl, hstar⟩ := exists_cons_of_map hvs
    obtain ⟨_, semicolon, rfl, hsemicolon⟩ := exists_cons_of_map hstar
    obtain ⟨_, vs, rfl, hnil⟩ := exists_cons_of_map hsemicolon
    obtain rfl := List.map_eq_nil_iff.1 hnil
    exact ⟨_, bind_eq_ok.2 ⟨_, hname _ (by simp [EndsName]), rfl⟩⟩
  | false =>
    obtain ⟨_, us, rfl, hnil⟩ := exists_cons_of_map hvs
    obtain rfl := List.map_eq_nil_iff.1 hnil
    exact ⟨_, bind_eq_ok.2 ⟨_, hname _ (by simp [EndsName]), rfl⟩⟩

/-- Imports are read up to what is none. -/
theorem imports_append {is : List ImportName}
    (h : ts.map Lexeme.token = is.flatMap ImportName.tokens)
    (hrest : ∀ place ts, rest ≠ ⟨.keyword .importKw, place⟩ :: ts) (hcalls : ts.length < calls) :
    ∃ names, imports stop calls (ts ++ rest) = .ok (names, rest) := by
  induction is generalizing ts calls with
  | nil =>
    obtain rfl := List.map_eq_nil_iff.1 h
    obtain ⟨calls, rfl⟩ := Nat.exists_eq_add_of_lt hcalls
    exact ⟨[], imports.eq_3 _ _ _ fun _ _ => hrest _ _⟩
  | cons i is ih =>
    obtain ⟨calls, rfl⟩ : ∃ k, calls = k + 1 := ⟨calls - 1, by omega⟩
    obtain ⟨xs, ys, rfl, hxs, hys⟩ := List.map_eq_append_iff.1 h
    obtain ⟨_, words, rfl, hwords⟩ := exists_cons_of_map hxs
    obtain ⟨name, hname⟩ :
        ∃ name, importName stop (words ++ (ys ++ rest)) = .ok (name, ys ++ rest) :=
      importName_append hwords
    have hlater : ys.length < calls := by
      simp only [List.length_append, List.length_cons] at hcalls
      omega
    obtain ⟨names, hnames⟩ := ih hys hlater
    rw [List.append_assoc]
    exact ⟨name :: names, bind_eq_ok.2 ⟨_, hname, bind_eq_ok.2 ⟨_, hnames, rfl⟩⟩⟩

/-! ## An import among members -/

/-- Whether a token may stand in an import declaration in front of its semicolon. -/
def inImport : Token → Bool
  | .keyword .importKw | .keyword .staticKw | .sign .dot | .sign .star | .ident _ => true
  | _ => false

theorem exists_inImport (i : ImportName) :
    ∃ words, i.tokens = .keyword .importKw :: (words ++ [.sign .semicolon]) ∧
      ∀ t ∈ .keyword .importKw :: words, inImport t = true := by
  obtain ⟨isStatic, first, parts, isWhole⟩ := i
  refine ⟨(if isStatic then [.keyword .staticKw] else []) ++
    (nameTokens first parts ++ if isWhole then [.sign .dot, .sign .star] else []), ?_, ?_⟩
  · simp [ImportName.tokens]
  · intro t ht
    simp only [List.mem_cons, List.mem_append] at ht
    obtain rfl | ht | ht | ht := ht
    · rfl
    · cases isStatic <;> simp at ht
      subst ht
      rfl
    · obtain rfl | ⟨x, rfl⟩ := eq_of_mem_nameTokens ht <;> rfl
    · cases isWhole <;> simp at ht
      obtain rfl | rfl := ht <;> rfl

/-- An import is skipped like a field. -/
theorem member_of_inImport {mods : List String} {place : Span}
    (h : ∀ t ∈ ts, inImport t.token = true) (hcalls : ts.length < calls) :
    member stop mods start calls (ts ++ ⟨.sign .semicolon, place⟩ :: rest) = .ok (none, rest) := by
  induction ts generalizing calls with
  | nil =>
    obtain ⟨calls, rfl⟩ := Nat.exists_eq_add_of_lt hcalls
    exact rfl
  | cons t ts ih =>
    obtain ⟨calls, rfl⟩ : ∃ k, calls = k + 1 := ⟨calls - 1, by omega⟩
    rw [List.forall_mem_cons] at h
    obtain ⟨ht, hts⟩ := h
    obtain ⟨token, span⟩ := t
    have hnot {u : Token} (hu : inImport u = false) (span' : Span)
        (heq : (⟨token, span⟩ : Lexeme) = ⟨u, span'⟩) : False := by
      rw [(Lexeme.mk.inj heq).1, hu] at ht
      exact Bool.false_ne_true ht
    rw [List.cons_append, member.eq_9]
    · exact ih hts (Nat.lt_of_succ_lt_succ hcalls)
    · intro _ _ _ _ _ hnext
      cases ts with
      | nil => cases hnext
      | cons t ts =>
        rw [List.forall_mem_cons] at hts
        rw [(List.cons.inj hnext).1] at hts
        cases hts.1
    all_goals exact hnot rfl

theorem members_of_import {i : ImportName} {name : String}
    {r : (List MethodDecl × List TypeDecl × Span) × List Lexeme}
    (hts : ts.map Lexeme.token = i.tokens)
    (h : members stop (calls + 1) name (ts ++ rest) = .ok r) :
    members stop calls name rest = .ok r := by
  obtain ⟨words, htokens, hwords⟩ := exists_inImport i
  rw [htokens] at hts
  obtain ⟨place, us, rfl, hus⟩ := exists_cons_of_map hts
  obtain ⟨vs, last, rfl, hvs, hlast⟩ := List.map_eq_append_iff.1 hus
  obtain ⟨place', last, rfl, hnil⟩ := exists_cons_of_map hlast
  obtain rfl := List.map_eq_nil_iff.1 hnil
  have hpart : ∀ t ∈ (⟨.keyword .importKw, place⟩ :: vs : List Lexeme),
      inImport t.token = true := by
    intro t ht
    refine hwords t.token ?_
    rw [← hvs]
    exact List.mem_map_of_mem (f := Lexeme.token) ht
  have hfront : (⟨.keyword .importKw, place⟩ :: (vs ++ [⟨.sign .semicolon, place'⟩])) ++ rest =
      (⟨.keyword .importKw, place⟩ :: vs) ++ ⟨.sign .semicolon, place'⟩ :: rest := by
    simp
  rw [hfront] at h
  have hlength : (⟨.keyword .importKw, place⟩ :: vs).length < callsFor
      ((⟨.keyword .importKw, place⟩ :: vs) ++ ⟨.sign .semicolon, place'⟩ :: rest) := by
    simp only [callsFor, List.length_append, List.length_cons]
    omega
  obtain ⟨⟨mods, ts₁⟩, hmods, h⟩ := bind_eq_ok.1 h
  obtain ⟨rfl, rfl⟩ := Prod.mk.inj (Except.ok.inj hmods)
  obtain ⟨⟨method?, ts₂⟩, hmember, h⟩ := bind_eq_ok.1 h
  obtain ⟨rfl, rfl⟩ :=
    Prod.mk.inj (Except.ok.inj ((member_of_inImport hpart hlength).symm.trans hmember))
  obtain ⟨⟨⟨methods, nested, closing⟩, ts₃⟩, hmembers, h⟩ := bind_eq_ok.1 h
  rw [hmembers, ← pure_eq_ok.1 h]
  rfl

/-- **Imports among the members of a type are skipped.** -/
theorem members_of_imports {is : List ImportName} {name : String}
    {r : (List MethodDecl × List TypeDecl × Span) × List Lexeme}
    (hts : ts.map Lexeme.token = is.flatMap ImportName.tokens)
    (h : members stop calls name (ts ++ rest) = .ok r) :
    ∃ calls', members stop calls' name rest = .ok r := by
  induction is generalizing ts calls with
  | nil =>
    obtain rfl := List.map_eq_nil_iff.1 hts
    exact ⟨calls, h⟩
  | cons i is ih =>
    cases calls with
    | zero => exact absurd h nofun
    | succ calls =>
      obtain ⟨xs, ys, rfl, hxs, hys⟩ := List.map_eq_append_iff.1 hts
      rw [List.append_assoc] at h
      exact ih hys (members_of_import hxs h)

/-! ## Lines in front -/

open Text Lexer Margin

/-- Whether a line may stand in front of or among imports: an import is a whole declaration, and any
other line has no tokens. -/
def LeadsIn (line : List Char) : Prop :=
  ∃ tokens, lex line = .ok tokens ∧
    if isImport line then
      ∃ is : List ImportName, tokens.list.map Lexeme.token = is.flatMap ImportName.tokens
    else tokens.list = []

/-- Whether the imports of a snippet stand in front of everything else. -/
def ImportsLead (snippet : List Char) : Prop :=
  ∃ front back, linesWithBreaks snippet = front ++ back ∧ (∀ line ∈ front, LeadsIn line) ∧
    ∀ line ∈ back, isImport line = false

/-- One line in front: what is an import moves, and of any other line nothing is read. -/
theorem exists_of_leadsIn {line : List Char} (h : LeadsIn line)
    (hline : linesWithBreaks line = [line]) :
    ∃ (ps : List Piece) (is : List ImportName), Cuts line ps [] ∧
      tokensOf ps = is.flatMap ImportName.tokens ∧
      (∀ X, Reads (importText (lines line) ++ X) (is.flatMap ImportName.tokens) X) ∧
      ∀ X, Reads (bodyText [] (lines line) ++ X) [] X := by
  obtain ⟨tokens, hlex, htokens⟩ := h
  obtain ⟨ps, hcuts, rfl⟩ := exists_cuts_of_lex hlex
  have hlines : lines line = [dropBreak line] := by rw [lines, hline, List.map_singleton]
  cases himport : isImport line with
  | true =>
    rw [if_pos himport, map_token_place] at htokens
    obtain ⟨is, his⟩ := htokens
    have himport' : isImport (dropBreak line) = true := by rwa [isImport_dropBreak]
    refine ⟨ps, is, hcuts, his, fun X => ?_, fun X => ?_⟩
    · rw [hlines, importText_cons himport', trim_dropBreak, ← his]
      have hread := reads_trim hcuts X
      rwa [← List.nil_append X, ← List.cons_append, ← List.append_assoc] at hread
    · rw [hlines, bodyText_cons himport']
      exact .of_isBlank (s := ['\n']) rfl (.refl X)
  | false =>
    rw [if_neg (by simp [himport])] at htokens
    have hnone : ∀ l ∈ lines line, isImport l = false := by
      rw [hlines, List.forall_mem_singleton, isImport_dropBreak, himport]
    have hfillers : ∀ q ∈ ps, q.token = none := by
      have hnil := congrArg (List.map Lexeme.token) htokens
      rw [map_token_place] at hnil
      exact List.filterMap_eq_nil_iff.1 hnil
    refine ⟨ps, [], hcuts, ?_, fun X => ?_, fun X => ?_⟩
    · exact List.filterMap_eq_nil_iff.2 hfillers
    · rw [importText_of_forall hnone]
      exact .refl X
    · have hread : Reads (laidOut [] lineStart line ++ X) (reindented [] ps) X :=
        hcuts.laidOut rfl rfl X
      have hreindented : reindented [] ps = [] := by
        refine List.filterMap_eq_nil_iff.2 fun q hq => ?_
        rw [Piece.reindented, hfillers q hq]
        rfl
      rwa [hreindented, laidOut_eq_flatMap, ← bodyText_of_forall hnone] at hread

/-- **Imports in front of a snippet move, and nothing else of the lines in front is read.** -/
theorem exists_of_forall_leadsIn {front : List (List Char)} (h : ∀ line ∈ front, LeadsIn line)
    (hlines : linesWithBreaks front.flatten = front) :
    ∃ (ps : List Piece) (is : List ImportName), Cuts front.flatten ps [] ∧
      tokensOf ps = is.flatMap ImportName.tokens ∧
      (∀ X, Reads (importText (lines front.flatten) ++ X) (is.flatMap ImportName.tokens) X) ∧
      ∀ X, Reads (bodyText [] (lines front.flatten) ++ X) [] X := by
  induction front with
  | nil => exact ⟨[], [], .nil [], rfl, .refl, .refl⟩
  | cons line front ih =>
    rw [List.forall_mem_cons] at h
    have hsplit : linesWithBreaks (line :: front).flatten = [line] ++ front := hlines
    obtain ⟨hone, hfront, -⟩ := linesWithBreaks_flatten hsplit
    rw [List.flatten_singleton] at hone
    obtain ⟨ps, is, hcuts, htokens, himports, hbody⟩ := exists_of_leadsIn h.1 hone
    obtain ⟨qs, js, hcuts', htokens', himports', hbody'⟩ := ih h.2 hfront
    have hparts : lines (line :: front).flatten = lines line ++ lines front.flatten := by
      rw [lines, lines, lines, hsplit, hone, hfront, List.map_append]
    have hcut : Cuts (line ++ front.flatten) ps front.flatten := by
      have hfirst : Cuts [line].flatten ps [] := by rwa [List.flatten_singleton]
      have hextend := Cuts.extend_lines hsplit hfirst
      rwa [List.flatten_singleton] at hextend
    refine ⟨ps ++ qs, is ++ js, hcut.append hcuts', ?_, fun X => ?_, fun X => ?_⟩
    · rw [tokensOf_append, htokens, htokens', List.flatMap_append]
    · rw [hparts, importText_append, List.append_assoc, List.flatMap_append]
      exact (himports _).append (himports' X)
    · rw [hparts, bodyText_append, List.append_assoc]
      exact (hbody _).append (hbody' X)

end SnippetRunner
