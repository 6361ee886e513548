import SnippetRunner.Proofs.Balance
import SnippetRunner.Proofs.Blocks
import SnippetRunner.Proofs.Bracketing
import SnippetRunner.Proofs.Entry
import SnippetRunner.Proofs.EntryType
import SnippetRunner.Proofs.WordSequences
import SnippetRunner.Proofs.Wrapping

/-!
# The body of `main` by braces and by grammar

The body of the first static `main` is found in two ways. The grammar goes through tokens to the one
that closes the body. `Fragment.mainBody?` goes through characters: from the first words `void main`
in code to the next brace, and on to the one that closes it. For a text without text blocks the two
are the same if these words stand in front of the body with no brace in between
(`Fragment.finds_body_of_main`).

* The search for words finds the first place where they stand, each of them whole
  (`Scan.findWords?_eq_some_iff`).
* The body of a method stands between two braces among the tokens of the text, and the braces in it
  are balanced (`bodyInBlock_of_parse`). So the lexer cuts the text into a block and what is around.
* The characters of tokens leave as many braces open as the tokens do
  (`Lexer.Cuts.closeIn_classified`), so the search stops at the end of the block.
-/

namespace SnippetRunner

open Text Lexer Scan Grammar

/-! ## The first place of two words -/

namespace Scan

variable {w v : List Char}

/-- `WordsAt w v cs position`: in the code of the text the two words stand at the position, each of
them whole, with white space and nothing else between them. -/
def WordsAt (w v cs : List Char) (position : Nat) : Prop :=
  ∃ front gap tail, masked cs = front ++ (w ++ (gap ++ (v ++ tail))) ∧ byteSize front = position ∧
    gap ≠ [] ∧ isBlank gap = true ∧
    front.getLast?.any isIdentPart = false ∧ tail.head?.any isIdentPart = false

/-- The first position at which the two words stand. -/
def FirstWordsAt (w v cs : List Char) (position : Nat) : Prop :=
  WordsAt w v cs position ∧ ∀ p < position, ¬ WordsAt w v cs p

theorem IsWord.of_isIdentifier (h : isIdentifier w = true) : IsWord w := by
  obtain ⟨c, u, rfl, -⟩ := exists_cons_of_isIdentifier h
  exact ⟨List.cons_ne_nil c u, all_of_isIdentifier h⟩

theorem wordsStandAt_pair_iff {cs : List Char} {position : Nat} :
    WordsStandAt [w, v] cs position ↔ WordsAt w v cs position := by
  constructor
  · rintro ⟨front, _, htext, hsize, ⟨⟩ | ⟨⟨hleft, -⟩, hgap, hblank, hrest⟩⟩
    rcases hrest with ⟨-, hright⟩ | ⟨-, -, -, ⟨⟩⟩
    exact ⟨front, _, _, htext, hsize, hgap, hblank, hleft, hright⟩
  · rintro ⟨front, gap, tail, htext, hsize, hgap, hblank, hleft, hright⟩
    obtain ⟨hbefore, hbehind⟩ := any_isIdentPart_of_isBlank hgap hblank (front ++ w) (v ++ tail)
    exact ⟨front, _, htext, hsize, .cons ⟨hleft, hbehind⟩ hgap hblank (.last ⟨hbefore, hright⟩)⟩

/-- **The search finds two words where they first stand in code.** -/
theorem findWords?_eq_some_iff (hw : isIdentifier w = true) (hv : isIdentifier v = true)
    {cs : List Char} {position : Nat} :
    findWords? [w, v] cs = some position ↔ FirstWordsAt w v cs position := by
  have hwords : ∀ u ∈ [w, v], IsWord u := by
    simpa using And.intro (IsWord.of_isIdentifier hw) (IsWord.of_isIdentifier hv)
  rw [findWords?_eq_some_iff_isLeast (List.cons_ne_nil _ _) hwords]
  simp only [wordsStandAt_pair_iff]
  refine and_congr_right fun _ => ?_
  constructor
  · intro hleast p hlt hp
    exact absurd (hleast hp) (Nat.not_le.2 hlt)
  · intro hfirst p hp
    exact Nat.le_of_not_lt fun hlt => hfirst p hlt hp

end Scan

/-! ## Where bodies stand among the tokens -/

open Program

/-- Braces that are all closed, none of them before it is opened, leave none open. -/
theorem openBraces?_of_signCount {depth : Nat} {ts : List Lexeme}
    (hclosed : signCount .rbrace ts = signCount .lbrace ts + depth)
    (hle : ∀ front, front <+: ts → signCount .rbrace front ≤ signCount .lbrace front + depth) :
    openBraces? depth (ts.map Lexeme.token) = some 0 := by
  induction ts generalizing depth with
  | nil =>
    obtain rfl : 0 = depth := hclosed.trans (Nat.zero_add depth)
    rfl
  | cons t ts ih =>
    have hlater {depth' : Nat}
        (hdepth : depth + signCount .lbrace [t] = depth' + signCount .rbrace [t]) :
        openBraces? depth' (ts.map Lexeme.token) = some 0 := by
      rw [signCount_cons .rbrace, signCount_cons .lbrace] at hclosed
      refine ih (by omega) fun front hfront => ?_
      have hcons := hle (t :: front) ((List.prefix_cons_inj t).2 hfront)
      rw [signCount_cons .rbrace, signCount_cons .lbrace] at hcons
      omega
    have hone := hle [t] ((List.prefix_cons_inj t).2 List.nil_prefix)
    obtain ⟨token, place⟩ := t
    cases token with
    | sign s =>
      rw [signCount_sign, signCount_sign] at hlater hone
      cases s with
      | lbrace => exact hlater rfl
      | rbrace =>
        cases depth with
        | zero => exact absurd hone (by decide)
        | succ depth => exact hlater rfl
      | _ => exact hlater rfl
    | _ => exact hlater rfl

/-- `InBlock ts b`: among the tokens stands a block, and `b` is the place of what stands between its
braces. The braces there are balanced. -/
def InBlock (ts : List Lexeme) (b : Span) : Prop :=
  ∃ front o mid c back,
    ts = front ++ ⟨.sign .lbrace, o⟩ :: (mid ++ ⟨.sign .rbrace, c⟩ :: back) ∧
    BracesBalanced (mid.map Lexeme.token) ∧ b = between o c

/-- The body of the method, if it has one, stands in a block. -/
def MethodDecl.BodyInBlock (ts : List Lexeme) (m : MethodDecl) : Prop :=
  ∀ b, m.body = some b → InBlock ts b

theorem MethodDecl.SpelledIn.bodyInBlock {ts : List Lexeme} {m : MethodDecl}
    (h : m.SpelledIn ts) : m.BodyInBlock ts := by
  intro b hb
  obtain ⟨front, own, back, rfl, hspelled, -⟩ := h
  obtain ⟨front', o, inner, c, rfl, hbalanced, hplace⟩ := hspelled.exists_block hb
  exact ⟨front ++ front', o, inner, c, back, by simp,
    openBraces?_of_signCount hbalanced.closed hbalanced.start_le, hplace⟩

theorem TypeDecl.Declares.exists_encloses {t : TypeDecl} {m : MethodDecl} (h : t.Declares m) :
    ∃ u, t.Encloses u ∧ m ∈ u.methods := by
  induction h with
  | own hm => exact ⟨_, .refl _, hm⟩
  | nested hu _ ih =>
    obtain ⟨v, hv, hm⟩ := ih
    exact ⟨v, .nested hu hv, hm⟩

/-- **The body of every method of a text stands in a block.** -/
theorem bodyInBlock_of_parse {cs : List Char} {tokens : Lexemes} {unit : CompilationUnit}
    {t : TypeDecl} {m : MethodDecl} (hlex : lex cs = .ok tokens)
    (hparse : CompilationUnit.parse cs = .ok unit) (ht : t ∈ unit.types) (hm : t.Declares m) :
    m.BodyInBlock tokens.list := by
  obtain ⟨u, hu, hm⟩ := hm.exists_encloses
  exact ((spelledIn_of_parse hlex hparse ht hu).methods m hm).bodyInBlock

/-! ## Open braces of tokens and of characters -/

theorem ne_brace_of_not_isBracket {c : Char} (h : isBracket c = false) : c ≠ '{' ∧ c ≠ '}' := by
  constructor <;> rintro rfl <;> exact absurd h (by decide)

/-- The signs other than braces. -/
theorem text_of_not_brace {s : Sign} (ho : s ≠ .lbrace) (hc : s ≠ .rbrace) :
    '{' ∉ s.text.toList ∧ '}' ∉ s.text.toList := by
  cases s <;> first | exact absurd rfl ho | exact absurd rfl hc | decide

namespace Lexer

/-- What has no meaning has no braces in code. -/
theorem ne_brace_of_blank {c : Char} {u Y : List Char} (h : step c (u ++ Y) = .blank u.length) :
    ∀ x ∈ Piece.classified ⟨c :: u, none⟩, x.2 = .code → x.1 ≠ '{' ∧ x.1 ≠ '}' := by
  rintro ⟨d, k⟩ hd rfl
  obtain ⟨e, he, heq⟩ := List.mem_map.1 hd
  obtain ⟨rfl, hcode⟩ := Prod.mk.inj heq
  apply ne_brace_of_not_isBracket
  obtain ⟨hspace, rfl⟩ | ⟨rfl, y, hy, hu⟩ | ⟨rfl, w, rfl, hcount⟩ := blank_of_step h
  · obtain rfl := List.mem_singleton.1 he
    exact isBracket_of_isSpace hspace
  · have hbreak : e = '\n' := by
      by_contra hne
      rcases hu with rfl | ⟨rfl, -⟩ <;> simp [Piece.classOf, hne] at hcode
    rw [hbreak]
    rfl
  · simp [Piece.classOf] at hcode

/-- A token that is no brace has no braces in code. -/
theorem ne_brace_of_token {c : Char} {u Y : List Char} {t : Token}
    (h : step c (u ++ Y) = .token t u.length) (ho : t ≠ .sign .lbrace) (hc : t ≠ .sign .rbrace) :
    ∀ x ∈ Piece.classified ⟨c :: u, some t⟩, x.2 = .code → x.1 ≠ '{' ∧ x.1 ≠ '}' := by
  rintro ⟨d, k⟩ hd rfl
  obtain ⟨e, he, heq⟩ := List.mem_map.1 hd
  obtain ⟨rfl, hcode⟩ := Prod.mk.inj heq
  cases ht : t.isQuoted with
  | true => simp [Piece.classOf, ht] at hcode
  | false =>
    obtain hchars | ⟨s, rfl, htext, -⟩ := spelling_of_not_isQuoted h ht
    · exact ne_brace_of_not_isBracket (isBracket_of_isWordChar (hchars e he))
    · obtain ⟨hopen, hclose⟩ : '{' ∉ s.text.toList ∧ '}' ∉ s.text.toList :=
        text_of_not_brace (fun e => ho (congrArg _ e)) fun e => hc (congrArg _ e)
      rw [← htext] at hopen hclose
      exact ⟨fun e => hopen (e ▸ he), fun e => hclose (e ▸ he)⟩

theorem openBraces?_cons {t : Token} (ho : t ≠ .sign .lbrace) (hc : t ≠ .sign .rbrace) (depth : Nat)
    (ts : List Token) : openBraces? depth (t :: ts) = openBraces? depth ts := by
  cases t with
  | sign s => cases s <;> first | rfl | exact absurd rfl ho | exact absurd rfl hc
  | _ => rfl

/-- **The braces that tokens leave open are those that their characters leave open.** -/
theorem Cuts.closeIn_classified {cs rest : List Char} {ps : List Piece} (h : Cuts cs ps rest)
    {depth depth' : Nat} (hbraces : openBraces? depth (tokensOf ps) = some depth')
    (behind : List (Char × CharClass)) :
    closeIn '{' '}' (depth + 1) (ps.flatMap Piece.classified ++ behind) =
      (closeIn '{' '}' (depth' + 1) behind).map
        fun (before, after) => (Lexer.spell ps ++ before, after) := by
  induction h generalizing depth with
  | nil =>
    obtain rfl : depth = depth' := Option.some.inj hbraces
    simp [Lexer.spell]
  | @blank c u cs rest ps hstep hcuts ih =>
    have hlater := @ih depth hbraces
    rw [List.flatMap_cons, List.append_assoc, closeIn_append (ne_brace_of_blank hstep), hlater,
      Option.map_map]
    simp [Piece.classified, Lexer.spell, Function.comp_def]
  | @token c u cs rest t ps hstep hcuts ih =>
    have htokens : tokensOf (⟨c :: u, some t⟩ :: ps) = t :: tokensOf ps := rfl
    have hbrace {s : Sign} {d : Char} (hs : s.text.toList = [d]) (ht : t = .sign s) :
        (⟨c :: u, some t⟩ :: ps).flatMap Piece.classified ++ behind =
          (d, .code) :: (ps.flatMap Piece.classified ++ behind) ∧
        Lexer.spell (⟨c :: u, some t⟩ :: ps) = d :: Lexer.spell ps := by
      subst ht
      rw [text_of_step_sign hstep, hs]
      exact ⟨rfl, rfl⟩
    rw [htokens] at hbraces
    by_cases ho : t = .sign .lbrace
    · obtain ⟨hclassified, hspell⟩ := hbrace (d := '{') rfl ho
      rw [ho] at hbraces
      rw [hclassified, hspell, closeIn_opener, ih hbraces, Option.map_map]
      rfl
    by_cases hc : t = .sign .rbrace
    · obtain ⟨hclassified, hspell⟩ := hbrace (d := '}') rfl hc
      rw [hc] at hbraces
      cases depth with
      | zero => cases hbraces
      | succ depth =>
        have hlater := @ih depth hbraces
        rw [hclassified, hspell, closeIn_closer (by decide), hlater, Option.map_map]
        rfl
    · rw [openBraces?_cons ho hc] at hbraces
      rw [List.flatMap_cons, List.append_assoc, closeIn_append (ne_brace_of_token hstep ho hc),
        ih hbraces, Option.map_map]
      simp [Piece.classified, Lexer.spell, Function.comp_def]

/-- The block that text starts with is closed behind its tokens. -/
theorem Cuts.closing?_block {cs : List Char} {body back : List Piece}
    (h : Cuts cs (.sign .lbrace :: (body ++ .sign .rbrace :: back)) [])
    (hline : ∀ q ∈ .sign .lbrace :: (body ++ .sign .rbrace :: back), q.token ≠ none → '\n' ∉ q.text)
    (hbraces : BracesBalanced (tokensOf body)) :
    closing? '{' '}' cs = some (Lexer.spell body, Lexer.spell back) := by
  have hclassify := h.classify_eq hline
  have hopen : (Piece.sign .lbrace).classified = [('{', .code)] := rfl
  have hclose : (Piece.sign .rbrace).classified = [('}', .code)] := rfl
  obtain ⟨mid, hopening, hmid⟩ := (List.singleton_append ▸ h : Cuts cs ([_] ++ _) []).exists_mid
  obtain ⟨last, hbody, -⟩ := hmid.exists_mid
  have hinside := hbody.closeIn_classified hbraces
  have hhead : cs.head? = some '{' := by
    rw [hopening.spell]
    rfl
  rw [closing?, if_pos hhead, closeFrom_eq_closeIn, hclassify, List.flatMap_cons, hopen,
    List.flatMap_append, List.flatMap_cons, hclose, List.singleton_append, closeIn_opener, hinside]
  simp [closeIn, map_fst_classified]

end Lexer

/-! ## The body of the first `main` -/

/-- Of two fronts of a text the smaller one is a front of the other. -/
theorem exists_of_byteSize_le {a b c d : List Char} (h : a ++ b = c ++ d)
    (hle : byteSize a ≤ byteSize c) : ∃ x, c = a ++ x ∧ b = x ++ d := by
  obtain ⟨x, rfl, rfl⟩ | ⟨x, rfl, rfl⟩ := List.append_eq_append_iff.1 h
  · exact ⟨x, rfl, rfl⟩
  · cases x with
    | nil => exact ⟨[], by simp, rfl⟩
    | cons y x =>
      have hpos := y.utf8Size_pos
      rw [byteSize_append, byteSize_cons] at hle
      omega

namespace Fragment

/-- The search finds the first block behind the words. -/
theorem mainBody?_of_cuts {cs : List Char} {front inner back : List Piece} {position : Nat}
    (hcuts : Cuts cs (blockPieces front inner back) [])
    (hline : ∀ q ∈ blockPieces front inner back, q.token ≠ none → '\n' ∉ q.text)
    (hbraces : BracesBalanced (tokensOf inner))
    (hwords : FirstWordsAt "void".toList "main".toList cs position)
    (hbefore : position ≤ byteSize (spell front))
    (hbrace : '{' ∉ slice position (byteSize (spell front)) (masked cs)) :
    mainBody? cs = some (byteSize (spell front) + 1, spell inner) := by
  -- the block in the text
  obtain ⟨block, hfront, hback⟩ := hcuts.exists_mid
  have htext : cs = spell front ++ block := hfront.spell
  have hclosing := hback.closing?_block (fun q hq => hline q (List.mem_append_right _ hq)) hbraces
  -- the words and the brace in what is shown of it
  have hmasked : masked cs = front.flatMap Piece.shown ++
      '{' :: (inner ++ .sign .rbrace :: back).flatMap Piece.shown := by
    rw [hcuts.masked_eq hline, blockPieces, List.flatMap_append, List.flatMap_cons]
    rfl
  have hfind := (findWords?_eq_some_iff (by decide) (by decide)).2 hwords
  obtain ⟨⟨before, gap, tail, hwordsText, rfl, -⟩, -⟩ := hwords
  obtain ⟨x, hshown, hcode⟩ := exists_of_byteSize_le (hwordsText.symm.trans hmasked)
    (by rwa [byteSize_flatMap_shown])
  have hsize : byteSize before + byteSize x = byteSize (spell front) := by
    rw [← byteSize_append, ← hshown, byteSize_flatMap_shown]
  rw [hcode] at hwordsText
  rw [← hsize, ← byteSize_append, hwordsText, slice_append] at hbrace
  have hdistance (ys : List Char) : findChar? '{' (x ++ '{' :: ys) = some (byteSize x) := by
    rw [findChar?_append hbrace]
    simp [findChar?]
  rw [mainBody?, hfind]
  simp only [Option.bind_eq_bind, Option.bind_some, hwordsText, cut?_byteSize_append, hdistance,
    hsize]
  rw [htext, cut?_byteSize_append]
  simp only [Option.bind_some, hclosing]
  rfl

/-- **Matching braces finds the body that the grammar finds.** For a text without text blocks whose
first static `main` has a body, if the words `void main` first stand in its code in front of the
body, with no brace in code between them and the one that opens it, then the search finds the place
and the text of the body. The words need not be those of the `main` itself. -/
theorem finds_body_of_main {cs : List Char} {tokens : Lexemes} {unit : CompilationUnit}
    {m : MethodDecl} {body : Span} {position : Nat} (hlex : lex cs = .ok tokens)
    (hblock : ∀ t ∈ tokens.list, ¬ t.IsTextBlock cs)
    (hparse : CompilationUnit.parse cs = .ok unit) (hmain : unit.main? = some m)
    (hbody : m.body = some body)
    (hwords : FirstWordsAt "void".toList "main".toList cs position)
    (hbefore : position < body.start)
    (hbrace : '{' ∉ slice position (body.start - 1) (masked cs)) :
    mainBody? cs = some (body.start, body.text cs) := by
  obtain ⟨t, ht, hm⟩ := TypeDecl.declares_of_firstMain? unit.types hmain
  obtain ⟨xs, o, mid, c, ys, hplace, hbraces, rfl⟩ :=
    bodyInBlock_of_parse hlex hparse ht hm body hbody
  obtain ⟨ps, hcuts, rfl⟩ := exists_cuts_of_lex hlex
  have hline := fun q hq => hcuts.newline_not_mem hblock (q := q) hq
  obtain ⟨front, inner, back, rfl, -, rfl, rfl, rfl⟩ := exists_blockPieces hcuts hplace
  rw [map_token_place] at hbraces
  have htext : cs = spell front ++ '{' :: (spell inner ++ '}' :: spell back) := by
    rw [hcuts.spell]
    simp [blockPieces, spell, Piece.sign, Sign.text]
  have hinner := text_between (spell front) (spell inner) ('}' :: spell back)
  rw [← htext] at hinner
  have hstart : (between (Span.ofText (Position.start.after (spell front)) ['{'])
      (Span.ofText (Position.start.after (spell front ++ '{' :: spell inner)) ['}'])).start =
        byteSize (spell front) + 1 := by
    simp [between, Span.ofText, Position.start, show Char.utf8Size '{' = 1 by decide]
  rw [hstart] at hbefore hbrace ⊢
  rw [hinner]
  exact mainBody?_of_cuts hcuts hline hbraces hwords (Nat.le_of_lt_succ hbefore) hbrace

/-- Braces inside a body, in a string there and in a comment. The words `void main` stand in a
comment in front of the body too. -/
def bracedMain : List Char :=
  "class A \x7b // void main(\n static void main(String[] a) \x7b".toList ++
    " if (b) \x7b f(\"\x7d\"); \x7d /* \x7d */ g(); \x7d \x7d".toList

theorem finds_body_of_bracedMain :
    ∃ tokens unit m body, lex bracedMain = .ok tokens ∧
      CompilationUnit.parse bracedMain = .ok unit ∧ unit.main? = some m ∧ m.body = some body ∧
      FirstWordsAt "void".toList "main".toList bracedMain 32 ∧ 32 < body.start ∧
      mainBody? bracedMain = some (body.start, body.text bracedMain) := by
  have hsome : (lex bracedMain).toOption.any (fun tokens =>
      (CompilationUnit.parse bracedMain).toOption.any fun unit =>
        unit.main?.any fun m => m.body.any fun body => decide
          ((∀ t ∈ tokens.list, ¬ t.IsTextBlock bracedMain) ∧ 32 < body.start ∧
            '{' ∉ slice 32 (body.start - 1) (masked bracedMain))) = true := by
    decide +kernel
  have hfind : findWords? ["void".toList, "main".toList] bracedMain = some 32 := by decide +kernel
  have hwords := (findWords?_eq_some_iff (by decide) (by decide)).1 hfind
  obtain ⟨tokens, hlex, hsome⟩ := exists_ok_of_any hsome
  obtain ⟨unit, hparse, hsome⟩ := exists_ok_of_any hsome
  obtain ⟨m, hmain, hsome⟩ := (Option.any_eq_true _ _).1 hsome
  obtain ⟨body, hbody, hchecked⟩ := (Option.any_eq_true _ _).1 hsome
  obtain ⟨hblock, hbefore, hbrace⟩ := of_decide_eq_true hchecked
  exact ⟨tokens, unit, m, body, hlex, hparse, hmain, hbody, hwords, hbefore,
    finds_body_of_main hlex hblock hparse hmain hbody hwords hbefore hbrace⟩

end Fragment

end SnippetRunner
