import SnippetRunner.Proofs.CodeWords
import SnippetRunner.Proofs.Places
import SnippetRunner.Program

/-!
# The entry type by words and by grammar

A text that is a program as it is has its entry type and its package found by searches for words
(`publicClass?`, `mainType?`, `package?`), while the grammar finds its types and its package. For
texts without text blocks and with numbers apart, the searches find

* the name behind the first words `public class` (`publicClass?_eq`), whatever stands around them,
* the first type with a static `main`, if there is a word `class` (`mainType?_eq`),
* the declared package (`package?_eq`).

So the two views agree iff the name that the words tell is that of the entry type
(`agrees_iff_wordedName?_eq`).
-/

namespace SnippetRunner

open Text Lexer Scan Grammar

/-! ## Pieces up to a token -/

namespace Lexer

variable {ps qs : List Piece}

theorem byteSize_flatMap_shown (ps : List Piece) :
    byteSize (ps.flatMap Piece.shown) = byteSize (spell ps) := by
  induction ps with
  | nil => rfl
  | cons q ps ih => simp [spell, byteSize_shown, ih]

/-- A first token that is code stands behind pieces that are not. -/
theorem exists_of_codeOf_cons {t : Token} {ts : List Token} (h : codeOf ps = t :: ts) :
    ∃ fillers text qs, ps = fillers ++ ⟨text, some t⟩ :: qs ∧ (∀ q ∈ fillers, q.isCode = false) ∧
      codeOf qs = ts := by
  induction ps with
  | nil => exact absurd h nofun
  | cons q ps ih =>
    cases hcode : q.isCode with
    | false =>
      rw [codeOf_filler hcode] at h
      obtain ⟨fillers, text, qs, rfl, hfillers, hqs⟩ := ih h
      exact ⟨q :: fillers, text, qs, rfl, List.forall_mem_cons.2 ⟨hcode, hfillers⟩, hqs⟩
    | true =>
      obtain ⟨text, token⟩ := q
      cases token with
      | none => exact absurd hcode Bool.false_ne_true
      | some t' =>
        rw [codeOf_code hcode] at h
        obtain ⟨rfl, rfl⟩ := List.cons.inj h
        exact ⟨[], text, ps, rfl, nofun, rfl⟩

theorem codeTokens_append {fillers : List Piece} (h : ∀ q ∈ fillers, q.isCode = false)
    (p : Position)
    (ps : List Piece) :
    codeTokens (place p (fillers ++ ps)) = codeTokens (place (p.after (spell fillers)) ps) := by
  induction fillers generalizing p with
  | nil => rfl
  | cons q fillers ih =>
    rw [List.forall_mem_cons] at h
    rw [List.cons_append, codeTokens_filler h.1, ih h.2]
    simp [spell]

theorem isBlank_flatMap_shown {fillers : List Piece} (h : ∀ q ∈ fillers, q.isCode = false) :
    isBlank (fillers.flatMap Piece.shown) = true := by
  induction fillers with
  | nil => rfl
  | cons q fillers ih =>
    rw [List.forall_mem_cons] at h
    rw [List.flatMap_cons, isBlank_append, isSpace_of_mem_shown h.1, ih h.2]
    rfl

end Lexer

/-! ## A declared name in the text -/

/-- White space has no first character of a word. -/
theorem breakOn?_append_of_isBlank {c : Char} (hc : isSpace c = false) (word : List Char)
    {s : List Char} (hs : isBlank s = true) (X : List Char) :
    breakOn? (c :: word) (s ++ c :: word ++ X) = some (s, c :: word ++ X) := by
  induction s with
  | nil =>
    rw [List.nil_append, List.cons_append, breakOn?, if_pos]
    rw [List.isPrefixOf_iff_prefix]
    exact List.prefix_append (c :: word) X
  | cons d s ih =>
    rw [isBlank_cons, Bool.and_eq_true] at hs
    have hne : c ≠ d := by
      rintro rfl
      rw [hc] at hs
      exact Bool.false_ne_true hs.1
    rw [List.cons_append, List.cons_append, breakOn?, if_neg, ih hs.2]
    · rfl
    · simp [List.isPrefixOf, hne]

theorem breakOn?_cons_of_false {word : List Char} {c : Char} {cs : List Char}
    (h : word.isPrefixOf (c :: cs) = false) :
    breakOn? word (c :: cs) =
      (breakOn? word cs).map fun (before, after) => (c :: before, after) := by
  rw [breakOn?, h, if_neg Bool.false_ne_true]

/-- The word `class` is found behind the word `public`, which ends with its first letter. -/
theorem breakOn?_class {s : List Char} (hs : isBlank s = true) (X : List Char) :
    breakOn? "class".toList ("public".toList ++ (s ++ "class".toList ++ X)) =
      some ("public".toList ++ s, "class".toList ++ X) := by
  have hlead : ("class".toList).isPrefixOf ('c' :: (s ++ "class".toList ++ X)) = false := by
    cases s with
    | nil => rfl
    | cons d s =>
      have hne : 'l' ≠ d := by
        rintro rfl
        exact absurd hs (by simp [isBlank_cons, show isSpace 'l' = false by decide])
      simp [List.isPrefixOf, hne]
  have hclass : breakOn? "class".toList (s ++ "class".toList ++ X) =
      some (s, "class".toList ++ X) :=
    breakOn?_append_of_isBlank (c := 'c') (by decide) ['l', 'a', 's', 's'] hs X
  have htext : "public".toList ++ (s ++ "class".toList ++ X) =
      'p' :: 'u' :: 'b' :: 'l' :: 'i' :: 'c' :: (s ++ "class".toList ++ X) := rfl
  rw [htext, breakOn?_cons_of_false rfl, breakOn?_cons_of_false rfl, breakOn?_cons_of_false rfl,
    breakOn?_cons_of_false rfl, breakOn?_cons_of_false rfl, breakOn?_cons_of_false hlead, hclass]
  rfl

/-- The first words `public class` of legible pieces. -/
theorem exists_of_firstRun?_publicClass {ps front rest : List Piece} (h : Legible ps)
    (hfound : firstRun? ["public", "class"] ps = some (front, rest)) :
    ∃ t fillers t' qs, ps = front ++ rest ∧
      rest = ⟨"public".toList, some t⟩ :: (fillers ++ ⟨"class".toList, some t'⟩ :: qs) ∧
      (∀ q ∈ fillers, q.isCode = false) ∧ Piece.isCode ⟨"public".toList, some t⟩ = true ∧
      Piece.isCode ⟨"class".toList, some t'⟩ = true := by
  obtain ⟨rfl, text, t, qs, rfl, hrun⟩ := of_firstRun? hfound
  rw [startsWithRun, Bool.and_eq_true, decide_eq_true_eq] at hrun
  obtain ⟨hpublic, hrun⟩ := hrun
  obtain ⟨rfl, -⟩ := h.of_append.isIdentifier_of_word? hpublic
  cases hcode : codeOf qs with
  | nil =>
    rw [hcode] at hrun
    exact absurd hrun Bool.false_ne_true
  | cons t' ts =>
    rw [hcode, startsWithRun, Bool.and_eq_true, decide_eq_true_eq] at hrun
    obtain ⟨fillers, text', qs, rfl, hfillers, -⟩ := exists_of_codeOf_cons hcode
    have hparts : Legible ((front ++ [⟨"public".toList, some t⟩]) ++
        (fillers ++ ⟨text', some t'⟩ :: qs)) := by
      simpa using h
    have hlater := hparts.of_append
    obtain ⟨rfl, -⟩ := hlater.of_append.isIdentifier_of_word? hrun.1
    exact ⟨t, fillers, t', qs, rfl, rfl, hfillers, isCode_of_word? hpublic, isCode_of_word? hrun.1⟩

namespace Program

/-- The name that stands behind the first words `public class` among the tokens in code, white space
and nothing else in between. -/
def publicName? (snippet : List Char) (code : List Lexeme) : Option (List Char) :=
  match findRun? ["public", "class"] code with
  | some (_ :: c :: _) => identifierAt? c.span.stop snippet
  | _ => none

section Search

variable {snippet : List Char} {tokens : Lexemes} (hlex : lex snippet = .ok tokens)
  (hblock : ∀ t ∈ tokens.list, ¬ t.IsTextBlock snippet) (hapart : NumbersApart tokens.list)

include hlex hblock hapart

/-- **The search for a public class finds the first words `public class`.** -/
theorem publicClass?_eq : publicClass? snippet = publicName? snippet (codeTokens tokens.list) := by
  obtain ⟨ps, hcuts, rfl⟩ := exists_cuts_of_lex hlex
  have hline := fun q hq => hcuts.newline_not_mem hblock (q := q) hq
  have hlegible := hcuts.legible_of_numbersApart hapart
  have hwords : findWords? ["public".toList, "class".toList] snippet =
      (firstRun? ["public", "class"] ps).map fun found => byteSize (spell found.1) :=
    findWords?_of_cuts hcuts hline hapart
      (by decide : ∀ v ∈ ["public", "class"], isIdentifier v.toList = true)
  have hmasked := hcuts.masked_eq hline
  rw [publicClass?, hwords, publicName?, findRun?_codeTokens]
  cases hfound : firstRun? ["public", "class"] ps with
  | none => rfl
  | some found =>
    obtain ⟨front, rest⟩ := found
    obtain ⟨t, fillers, t', qs, rfl, rfl, hfillers, hpublic, hclass⟩ :=
      exists_of_firstRun?_publicClass hlegible hfound
    have hblank := isBlank_flatMap_shown hfillers
    have hsize := byteSize_flatMap_shown fillers
    rw [List.flatMap_append, List.flatMap_cons, List.flatMap_append, List.flatMap_cons,
      shown_of_isCode hpublic, shown_of_isCode hclass] at hmasked
    dsimp only at hmasked
    generalize fillers.flatMap Piece.shown = blanks at hmasked hblank hsize
    rw [hmasked, ← List.append_assoc blanks]
    dsimp only [Option.map_some]
    rw [codeTokens_code hpublic, codeTokens_append hfillers, codeTokens_code hclass]
    simp only [← byteSize_flatMap_shown front, Option.bind_eq_bind, Option.bind_some,
      cut?_byteSize_append, breakOn?_class hblank]
    have hfive : byteSize "class".toList = 5 := by decide
    simp only [Span.ofText, Position.offset_after, Position.start, Nat.zero_add, byteSize_append,
      byteSize_flatMap_shown, hsize, hfive, Nat.add_assoc]

/-- The search for a type with a `main` finds the first one if there is a word `class`. -/
theorem mainType?_eq {unit : CompilationUnit} (hparse : CompilationUnit.parse snippet = .ok unit) :
    mainType? snippet =
      if (findRun? ["class"] (codeTokens tokens.list)).isSome then
        (unit.types.find? fun t => t.methods.any MethodDecl.isMain).map fun t => t.name.toList
      else none := by
  have hwords : (findWords? ["class".toList] snippet).isSome = _ :=
    isSome_findWords? hlex hblock hapart
      (by decide : ∀ v ∈ ["class"], isIdentifier v.toList = true)
  rw [← hwords, mainType?, hparse]
  cases findWords? ["class".toList] snippet with
  | none => rfl
  | some position =>
    rw [if_pos Option.isSome_some]
    exact Option.map_eq_bind.symm

end Search

/-! ## The package -/

/-- The tokens of the further parts of a qualified name. -/
theorem exists_of_qualifiers (name : String) (ts : List Lexeme) :
    ∃ parts : List String,
      ts.map Lexeme.token = (parts.flatMap fun part => [.sign .dot, .ident part]) ++
        (qualifiers name ts).2.map Lexeme.token ∧
      (qualifiers name ts).1.toList =
        name.toList ++ parts.flatMap fun part => '.' :: part.toList := by
  fun_induction qualifiers name ts with
  | case1 name _ part _ rest ih =>
    obtain ⟨parts, htokens, hname⟩ := ih
    exact ⟨part :: parts, by simp [htokens], by simp [hname]⟩
  | case2 name ts _ => exact ⟨[], by simp, by simp⟩

/-- The tokens between the word and the semicolon of a package declaration. -/
def nameTokens (first : String) (parts : List String) : List Token :=
  .ident first :: parts.flatMap fun part => [.sign .dot, .ident part]

/-- The tokens of a package declaration. -/
theorem exists_of_package {stop : Span} {ts rest : List Lexeme} {name : String}
    (h : DeclarationParser.package stop ts = .ok (some name, rest)) :
    ∃ first parts behind, ts.map Lexeme.token =
        .keyword .packageKw :: (nameTokens first parts ++ .sign .semicolon :: behind) ∧
      name.toList = first.toList ++ parts.flatMap fun part => '.' :: part.toList := by
  unfold DeclarationParser.package at h
  split at h
  · next span ts =>
    simp only [qualifiedName, bind_eq_ok, pure_eq_ok] at h
    obtain ⟨⟨name', mid⟩, ⟨⟨⟨first, place⟩, behindFirst⟩, hfirst, hname⟩, ⟨_, mid'⟩, hsign, h⟩ := h
    obtain ⟨hname', rfl⟩ := Prod.mk.inj h
    obtain rfl := Option.some.inj hname'
    obtain ⟨parts, htokens, hspelled⟩ := exists_of_qualifiers first behindFirst
    rw [hname] at htokens hspelled
    refine ⟨first, parts, mid'.map Lexeme.token, ?_, hspelled⟩
    rw [eq_cons_of_ident hfirst, List.map_cons, List.map_cons, htokens,
      eq_cons_of_sign hsign]
    rfl
  · cases congrArg Prod.fst (pure_eq_ok.1 h)

/-- How a token of a name is spelled. -/
def nameText : Token → List Char
  | .sign s => s.text.toList
  | .ident x => x.toList
  | _ => []

theorem eq_of_mem_nameTokens {first : String} {parts : List String} {t : Token}
    (h : t ∈ nameTokens first parts) : t = .sign .dot ∨ ∃ x, t = .ident x := by
  rcases List.mem_cons.1 h with rfl | h
  · exact .inr ⟨first, rfl⟩
  · obtain ⟨part, -, h⟩ := List.mem_flatMap.1 h
    simp only [List.mem_cons, List.not_mem_nil, or_false] at h
    exact h.imp_right fun h => ⟨part, h⟩

theorem flatMap_nameText (first : String) (parts : List String) :
    (nameTokens first parts).flatMap nameText =
      first.toList ++ parts.flatMap fun part => '.' :: part.toList := by
  rw [nameTokens, List.flatMap_cons, List.flatMap_assoc]
  congr 1
  exact List.flatMap_congr fun part _ => by simp [nameText, Sign.text]

/-- The text up to the first semicolon without its white space. -/
def declaredText (cs : List Char) : List Char :=
  (cs.takeWhile (· ≠ ';')).filter fun c => !isSpace c

theorem declaredText_append {xs : List Char} (h : ';' ∉ xs) (ys : List Char) :
    declaredText (xs ++ ys) = xs.filter (fun c => !isSpace c) ++ declaredText ys := by
  have hne : ∀ c ∈ xs, decide (c ≠ ';') = true := by
    intro c hc
    rw [decide_eq_true_eq]
    rintro rfl
    exact h hc
  rw [declaredText, List.takeWhile_append_of_pos hne, List.filter_append, declaredText]

theorem filter_of_isBlank {s : List Char} (h : isBlank s = true) :
    s.filter (fun c => !isSpace c) = [] := by
  refine List.filter_eq_nil_iff.2 fun c hc => ?_
  rw [List.all_eq_true.1 h c hc]
  simp

theorem filter_of_isIdentifier {text : List Char} (h : isIdentifier text = true) :
    ';' ∉ text ∧ text.filter (fun c => !isSpace c) = text := by
  have hall := List.all_eq_true.1 (all_of_isIdentifier h)
  refine ⟨fun hmem => absurd (hall _ hmem) (by decide), ?_⟩
  refine List.filter_eq_self.2 fun c hc => ?_
  rw [isSpace_of_isIdentPart (hall c hc)]
  rfl

/-- The tokens of a name and the semicolon behind them are neither literals nor numbers. -/
theorem plain_of_cons_eq {t : Token} {ts rest behind : List Token}
    (hname : ∀ t ∈ ts, t = .sign .dot ∨ ∃ x, t = .ident x)
    (h : t :: rest = ts ++ .sign .semicolon :: behind) :
    t.isQuoted = false ∧ t.isNumber = false := by
  cases ts with
  | nil =>
    obtain ⟨rfl, -⟩ := List.cons.inj h
    exact ⟨rfl, rfl⟩
  | cons t' ts =>
    obtain ⟨rfl, -⟩ := List.cons.inj h
    obtain rfl | ⟨x, rfl⟩ := hname t List.mem_cons_self <;> exact ⟨rfl, rfl⟩

/-- What is shown up to the semicolon behind a name is the name, white space aside. -/
theorem declaredText_shown {ps : List Piece} (h : Legible ps) {ts behind : List Token}
    (htokens : tokensOf ps = ts ++ .sign .semicolon :: behind)
    (hname : ∀ t ∈ ts, t = .sign .dot ∨ ∃ x, t = .ident x) :
    ';' ∈ ps.flatMap Piece.shown ∧
      declaredText (ps.flatMap Piece.shown) = ts.flatMap nameText := by
  induction h generalizing ts with
  | nil => simp [tokensOf] at htokens
  | @filler q ps hcode _ _ ih =>
    have hblank := isSpace_of_mem_shown hcode
    have hsemicolon : ';' ∉ q.shown := fun hmem =>
      absurd (List.all_eq_true.1 hblank _ hmem) (by decide)
    have hnone : q.token = none := by
      obtain ⟨text, _ | t⟩ := q
      · rfl
      · have hquoted : t.isQuoted = true := by simpa [Piece.isCode] using hcode
        rw [(plain_of_cons_eq hname htokens).1] at hquoted
        exact absurd hquoted Bool.false_ne_true
    have htail : tokensOf ps = ts ++ .sign .semicolon :: behind := by
      rw [← htokens, tokensOf, tokensOf, List.filterMap_cons, hnone]
    obtain ⟨hmem, htext⟩ := ih htail hname
    rw [List.flatMap_cons, declaredText_append hsemicolon, filter_of_isBlank hblank, htext]
    exact ⟨List.mem_append_right _ hmem, rfl⟩
  | @word text t ps hident hword _ _ ih =>
    have hhead : t :: tokensOf ps = ts ++ .sign .semicolon :: behind := htokens
    cases ts with
    | nil =>
      obtain ⟨rfl, -⟩ := List.cons.inj hhead
      cases hword
    | cons t' ts =>
      obtain ⟨rfl, htail⟩ := List.cons.inj hhead
      rw [List.forall_mem_cons] at hname
      obtain ⟨rfl | ⟨x, rfl⟩, hname⟩ := hname
      · cases hword
      obtain ⟨hmem, htext⟩ := ih htail hname
      obtain rfl : x = String.ofList text := Option.some.inj hword
      obtain ⟨hsemicolon, hfilter⟩ := filter_of_isIdentifier hident
      rw [List.flatMap_cons, shown_of_isCode rfl, declaredText_append hsemicolon, hfilter, htext]
      exact ⟨List.mem_append_right _ hmem, by simp [nameText]⟩
  | number _ _ hnumber =>
    rw [(plain_of_cons_eq hname htokens).2] at hnumber
    exact absurd hnumber Bool.false_ne_true
  | @sign s ps _ ih =>
    have hhead : .sign s :: tokensOf ps = ts ++ .sign .semicolon :: behind := htokens
    rw [List.flatMap_cons, shown_of_isCode rfl]
    cases ts with
    | nil =>
      obtain ⟨hsame, -⟩ := List.cons.inj hhead
      obtain rfl := Token.sign.inj hsame
      exact ⟨List.mem_append_left _ (by decide), rfl⟩
    | cons t' ts =>
      obtain ⟨rfl, htail⟩ := List.cons.inj hhead
      rw [List.forall_mem_cons] at hname
      obtain ⟨hdot | ⟨x, hident⟩, hname⟩ := hname
      · obtain rfl := Token.sign.inj hdot
        obtain ⟨hmem, htext⟩ := ih htail hname
        dsimp only [Piece.sign]
        rw [declaredText_append (by decide), htext]
        exact ⟨List.mem_append_right _ hmem, rfl⟩
      · cases hident

/-- The parts of a dotted name are identifiers. -/
theorem all_isIdentifier_of_parts {first : List Char} {parts : List String}
    (hfirst : isIdentifier first = true)
    (hparts : ∀ part ∈ parts, isIdentifier part.toList = true) :
    (splitAtEach (· = '.') (first ++ parts.flatMap fun part => '.' :: part.toList)).all
      isIdentifier = true := by
  have hnone {x : List Char} (hx : isIdentifier x = true) : splitAtEach (· = '.') x = [x] := by
    refine splitAtEach_of_forall fun c hc => ?_
    rw [decide_eq_false_iff_not]
    rintro rfl
    exact absurd (List.all_eq_true.1 (all_of_isIdentifier hx) _ hc) (by decide)
  induction parts generalizing first with
  | nil => simp [hnone hfirst, hfirst]
  | cons part parts ih =>
    rw [List.forall_mem_cons] at hparts
    rw [List.flatMap_cons, List.cons_append, splitAtEach_append _ rfl, List.all_append,
      hnone hfirst,
      ih hparts.1 hparts.2]
    simp [hfirst]

/-- Pieces that are no code are passed over. -/
theorem firstRun?_append {fillers : List Piece} (h : ∀ q ∈ fillers, q.token = none)
    (ws : List String) (ps : List Piece) :
    firstRun? ws (fillers ++ ps) =
      (firstRun? ws ps).map fun (front, rest) => (fillers ++ front, rest) := by
  induction fillers with
  | nil => exact Option.map_id'.symm
  | cons q fillers ih =>
    rw [List.forall_mem_cons] at h
    have hcode : q.isCode = false := by rw [Piece.isCode, h.1]; rfl
    rw [List.cons_append, firstRun?_of_false (by rw [hcode, Bool.false_and]), ih h.2,
      Option.map_map]
    rfl

/-- Nothing is found if the word is not in the code. -/
theorem package?_eq_none {snippet : List Char} {tokens : Lexemes} (hlex : lex snippet = .ok tokens)
    (hblock : ∀ t ∈ tokens.list, ¬ t.IsTextBlock snippet) (hapart : NumbersApart tokens.list)
    (hnone : findRun? ["package"] (codeTokens tokens.list) = none) : package? snippet = none := by
  have hwords : (findWords? ["package".toList] snippet).isSome = _ :=
    isSome_findWords? hlex hblock hapart
      (by decide : ∀ v ∈ ["package"], isIdentifier v.toList = true)
  rw [hnone, Option.isSome_none, Option.isSome_eq_false_iff, Option.isNone_iff_eq_none] at hwords
  rw [package?, hwords]
  rfl

/-- The name between the word and a semicolon is found. -/
theorem package?_of_masked {snippet s X : List Char}
    (hwords : findWords? ["package".toList] snippet = some (byteSize s))
    (hmasked : masked snippet = s ++ "package".toList ++ X) (hmem : ';' ∈ X)
    (hall : (splitAtEach (· = '.') (declaredText X)).all isIdentifier = true) :
    package? snippet = some (declaredText X) := by
  have hsize : byteSize s + 7 = byteSize (s ++ "package".toList) := by
    rw [byteSize_append]
    rfl
  have hcontains : X.contains ';' = true := by simpa using hmem
  rw [declaredText] at hall
  rw [package?, hwords, hmasked]
  simp only [Option.bind_eq_bind, Option.bind_some, hsize, cut?_byteSize_append, hcontains, hall]
  rfl

/-- The package that a text declares is found. -/
theorem package?_eq_some {snippet : List Char} {tokens : Lexemes} {stop : Span} {name : String}
    {rest : List Lexeme} (hlex : lex snippet = .ok tokens)
    (hblock : ∀ t ∈ tokens.list, ¬ t.IsTextBlock snippet) (hapart : NumbersApart tokens.list)
    (hpackage : DeclarationParser.package stop tokens.list = .ok (some name, rest)) :
    package? snippet = some name.toList := by
  obtain ⟨ps, hcuts, rfl⟩ := exists_cuts_of_lex hlex
  have hline := fun q hq => hcuts.newline_not_mem hblock (q := q) hq
  obtain ⟨first, parts, behind, htokens, hname⟩ := exists_of_package hpackage
  rw [map_token_place] at htokens
  obtain ⟨fillers, ⟨text, token⟩, qs, rfl, hfillers, rfl, hqs⟩ :=
    List.filterMap_eq_cons_iff.1 htokens
  have hword := (hcuts.legible_of_numbersApart hapart).of_append
  obtain ⟨rfl, -⟩ := hword.isIdentifier_of_word? (w := "package") rfl
  have hbehind : Legible qs := (List.singleton_append ▸ hword : Legible ([_] ++ qs)).of_append
  have hwords : findWords? ["package".toList] snippet =
      some (byteSize (fillers.flatMap Piece.shown)) := by
    have hsearch : findWords? ["package".toList] snippet = _ :=
      findWords?_of_cuts hcuts hline hapart
        (by decide : ∀ v ∈ ["package"], isIdentifier v.toList = true)
    rw [hsearch, firstRun?_append hfillers, firstRun?, if_pos, byteSize_flatMap_shown]
    · simp
    · rw [codeOf_code rfl]
      rfl
  have hmasked : masked snippet =
      (fillers.flatMap Piece.shown ++ "package".toList) ++ qs.flatMap Piece.shown := by
    rw [hcuts.masked_eq hline, List.flatMap_append, List.flatMap_cons, shown_of_isCode rfl,
      List.append_assoc]
  obtain ⟨hmem, htext⟩ := declaredText_shown hbehind hqs fun t ht => eq_of_mem_nameTokens ht
  rw [flatMap_nameText, ← hname] at htext
  have hident {x : String} (hx : .ident x ∈ nameTokens first parts) :
      isIdentifier x.toList = true :=
    hbehind.isIdentifier_of_mem (x := x) (by
      rw [tokensOf, hqs]
      exact List.mem_append_left _ hx)
  have hall : (splitAtEach (· = '.') name.toList).all isIdentifier = true := by
    rw [hname]
    refine all_isIdentifier_of_parts (hident List.mem_cons_self) fun part hpart => hident ?_
    exact List.mem_cons_of_mem _ (List.mem_flatMap.2 ⟨part, hpart, by simp⟩)
  rw [package?_of_masked hwords hmasked hmem (htext ▸ hall), htext]

/-- **The search for a package finds the declared one**, and nothing in a text that declares none
and has no such word. -/
theorem package?_eq {snippet : List Char} {tokens : Lexemes} {unit : CompilationUnit}
    (hlex : lex snippet = .ok tokens) (hblock : ∀ t ∈ tokens.list, ¬ t.IsTextBlock snippet)
    (hapart : NumbersApart tokens.list) (hparse : CompilationUnit.parse snippet = .ok unit)
    (hnone : unit.package = none → findRun? ["package"] (codeTokens tokens.list) = none) :
    package? snippet = unit.package.map String.toList := by
  have hread : DeclarationParser.whole tokens = .ok unit := by
    rwa [CompilationUnit.parse, hlex] at hparse
  obtain ⟨⟨declared, rest⟩, hpackage, hread⟩ := bind_eq_ok.1 hread
  have hdeclared : unit.package = declared := by
    simp only [bind_eq_ok, pure_eq_ok] at hread
    obtain ⟨_, -, _, -, rfl⟩ := hread
    rfl
  rw [hdeclared] at hnone ⊢
  cases declared with
  | none => exact package?_eq_none hlex hblock hapart (hnone rfl)
  | some name => exact package?_eq_some hlex hblock hapart hpackage

end Program

/-! ## The two views -/

/-- The type that a unit is launched with: the first public class, or else the first type with a
static `main`. -/
def CompilationUnit.launched? (u : CompilationUnit) : Option TypeDecl :=
  (u.types.find? fun t => t.kind = .classKind && t.isPublic).or
    (u.types.find? fun t => t.methods.any MethodDecl.isMain)

namespace Program

/-- The name of the entry type as far as words can tell: the one behind the first words
`public class`, or else, if there is a word `class`, that of the first type with a static `main`. -/
def wordedName? (snippet : List Char) (code : List Lexeme) (unit : CompilationUnit) :
    Option (List Char) :=
  (publicName? snippet code).or
    (if (findRun? ["class"] code).isSome then
      (unit.types.find? fun t => t.methods.any MethodDecl.isMain).map fun t => t.name.toList
    else none)

/-- `p.Agrees unit`: the program is the unit as it is, with the entry type and the package of the
unit. If the unit has no entry type, the program is wrapped into one of its own. -/
def Agrees (p : Program) (unit : CompilationUnit) : Prop :=
  match unit.launched? with
  | some t => p.text = p.snippet ∧ p.origins = none ∧ p.entry = t.name.toList ∧
      p.package = unit.package.map String.toList
  | none => p.entry = defaultEntry ∧ p.origins.isSome = true

/-- **The two views agree iff words tell the name of the entry type.** This is for units without
text blocks and with numbers apart that have no word `package` unless they declare one. -/
theorem agrees_iff_wordedName?_eq {snippet : List Char} {tokens : Lexemes} {unit : CompilationUnit}
    (hlex : lex snippet = .ok tokens) (hblock : ∀ t ∈ tokens.list, ¬ t.IsTextBlock snippet)
    (hapart : NumbersApart tokens.list) (hparse : CompilationUnit.parse snippet = .ok unit)
    (hnone : unit.package = none → findRun? ["package"] (codeTokens tokens.list) = none) :
    (ofSnippet snippet).Agrees unit ↔
      wordedName? snippet (codeTokens tokens.list) unit =
        unit.launched?.map fun t => t.name.toList := by
  have hworded : wordedName? snippet (codeTokens tokens.list) unit =
      (publicClass? snippet).or (mainType? snippet) := by
    rw [wordedName?, publicClass?_eq hlex hblock hapart, mainType?_eq hlex hblock hapart hparse]
  have hpackage := package?_eq hlex hblock hapart hparse hnone
  rw [hworded, ofSnippet, Agrees]
  cases (publicClass? snippet).or (mainType? snippet) with
  | none => cases unit.launched? <;> simp
  | some entry => cases unit.launched? <;> simp [hpackage]

/-- A unit with a package and two classes. The first words `public class` stand in a comment. -/
def packagedClass : List Char :=
  "package a.b; // public class C\nclass H \x7b\x7d public class A \x7b\x7d".toList

/-- The views of a unit with a package. -/
theorem agrees_packagedClass :
    ∃ tokens unit, lex packagedClass = .ok tokens ∧ CompilationUnit.parse packagedClass = .ok unit ∧
      (unit.package = none → findRun? ["package"] (codeTokens tokens.list) = none) ∧
      (ofSnippet packagedClass).Agrees unit := by
  have hsome : (lex packagedClass).toOption.any (fun tokens =>
      (CompilationUnit.parse packagedClass).toOption.any fun unit => decide
        ((∀ t ∈ tokens.list, ¬ t.IsTextBlock packagedClass) ∧ NumbersApart tokens.list ∧
          (unit.package = none → findRun? ["package"] (codeTokens tokens.list) = none) ∧
          wordedName? packagedClass (codeTokens tokens.list) unit =
            unit.launched?.map fun t => t.name.toList)) = true := by
    decide +kernel
  obtain ⟨tokens, hlex, hsome⟩ := exists_ok_of_any hsome
  obtain ⟨unit, hparse, hsome⟩ := exists_ok_of_any hsome
  obtain ⟨hblock, hapart, hnone, hworded⟩ := of_decide_eq_true hsome
  exact ⟨tokens, unit, hlex, hparse, hnone,
    (agrees_iff_wordedName?_eq hlex hblock hapart hparse hnone).2 hworded⟩

end Program

end SnippetRunner
