import SnippetRunner.Proofs.Blocks
import SnippetRunner.Proofs.Entry
import SnippetRunner.Proofs.LeadingImports
import SnippetRunner.Proofs.WrappedStatements

/-!
# Snippets with a `main` of their own

A snippet that declares members of a class, a static `main` among them, is put into a class alone if
the words `static void main` stand in its code, and into the body of another `main` otherwise.

* Its members are read in the program from the same tokens at other places
  (`exists_parse_of_members`), so the program has the same methods.
* The body of a method is found again where its text is laid out anew (`text_of_inBraces`).

So the `main` of the program is that of the snippet (`Program.runs_own_main`). Modifiers in another
order hide it from the search for words.
-/

namespace SnippetRunner

open Text Scan Lexer Margin Grammar

/-! ## Readers -/

namespace DeclarationParser

variable {stop a b c d start : Span} {calls : Nat} {ts : List Lexeme}

/-- Where a text without types is read, it is made of semicolons. -/
theorem token_of_types (h : DeclarationParser.types stop calls ts = .ok []) :
    ∀ t ∈ ts, t.token = .sign .semicolon := by
  fun_induction DeclarationParser.types stop calls ts with
  | case1 => cases h
  | case2 => exact fun _ ht => absurd ht List.not_mem_nil
  | case3 calls place ts ih =>
    rw [List.forall_mem_cons]
    exact ⟨rfl, ih h⟩
  | case4 =>
    simp only [bind_eq_ok, pure_eq_ok] at h
    obtain ⟨_, -, _, -, _, -, h⟩ := h
    cases h

/-- The tokens of a class behind its modifiers, in front of its members. -/
def classTokens (a b c : Span) (name : String) (ts : List Lexeme) : List Lexeme :=
  ⟨.keyword .classKw, a⟩ :: ⟨.ident name, b⟩ :: ⟨.sign .lbrace, c⟩ :: ts

theorem typeDeclaration_classTokens (mods : List String) (name : String) :
    typeDeclaration stop (calls + 1) mods start (classTokens a b c name ts) = do
      let ((methods, nested, closing), rest) ← members stop calls name ts
      return (⟨.classKind, name, mods, methods, nested, start.through closing⟩, rest) := rfl

/-- A text that declares a class has the members of the class. -/
theorem exists_members_of_whole {unit : CompilationUnit} {name : String}
    (h : whole ⟨classTokens a b c name ts, stop⟩ = .ok unit) :
    ∃ calls calls' methods nested closing rest more,
      members stop calls name ts = .ok ((methods, nested, closing), rest) ∧
      DeclarationParser.types stop calls' rest = .ok more ∧
      unit.types = ⟨.classKind, name, [], methods, nested, a.through closing⟩ :: more := by
  obtain ⟨⟨_, _⟩, hpackage, h⟩ := bind_eq_ok.1 h
  obtain ⟨rfl, rfl⟩ := Prod.mk.inj (Except.ok.inj hpackage)
  obtain ⟨⟨_, _⟩, himports, h⟩ := bind_eq_ok.1 h
  obtain ⟨rfl, rfl⟩ := Prod.mk.inj (Except.ok.inj himports)
  obtain ⟨us, htypes, hunit⟩ := bind_eq_ok.1 h
  obtain rfl := pure_eq_ok.1 hunit
  obtain ⟨⟨_, _⟩, hmods, hbehind⟩ := bind_eq_ok.1 htypes
  obtain ⟨rfl, rfl⟩ := Prod.mk.inj (Except.ok.inj hmods)
  obtain ⟨⟨t, rest⟩, hread, hlater⟩ := bind_eq_ok.1 hbehind
  obtain ⟨more, hmore, hlist⟩ := bind_eq_ok.1 hlater
  have hclass := (typeDeclaration_classTokens [] name).symm.trans hread
  obtain ⟨⟨⟨methods, nested, closing⟩, rest'⟩, hmembers, hclass⟩ := bind_eq_ok.1 hclass
  obtain ⟨rfl, rfl⟩ := Prod.mk.inj (pure_eq_ok.1 hclass)
  exact ⟨_, _, methods, nested, closing, rest', more, hmembers, hmore, (pure_eq_ok.1 hlist).symm⟩

/-- The tokens of a public class. -/
def publicTokens (place a b c : Span) (name : String) (ts : List Lexeme) : List Lexeme :=
  ⟨.ident "public", place⟩ :: classTokens a b c name ts

theorem types_publicTokens {place closing : Span} {name : String} {methods : List MethodDecl}
    (hmembers : members stop (2 * ts.length + 7) name ts = .ok ((methods, [], closing), [])) :
    DeclarationParser.types stop (callsFor (publicTokens place a b c name ts))
        (publicTokens place a b c name ts) =
      .ok [⟨.classKind, name, ["public"], methods, [], place.through closing⟩] := by
  have hmods : modifiers stop (callsFor (publicTokens place a b c name ts))
      (publicTokens place a b c name ts) = .ok (["public"], classTokens a b c name ts) := by
    rw [publicTokens, Program.callsFor_cons, modifiers.eq_5, if_pos (by decide)]
    rfl
  have hclass : typeDeclaration stop (callsFor (classTokens a b c name ts)) ["public"] place
      (classTokens a b c name ts) =
        .ok (⟨.classKind, name, ["public"], methods, [], place.through closing⟩, []) :=
    (typeDeclaration_classTokens ["public"] name).trans (bind_eq_ok.2 ⟨_, hmembers, rfl⟩)
  rw [callsFor]
  refine bind_eq_ok.2 ⟨_, hmods, bind_eq_ok.2 ⟨_, hclass, rfl⟩⟩

/-- **A class behind imports is read with the members between its braces.** -/
theorem exists_whole_of_members {is : List ImportName} {imports : List Lexeme}
    {place closing : Span}
    {name : String} {methods : List MethodDecl}
    (himports : imports.map Lexeme.token = is.flatMap ImportName.tokens)
    (hmembers : members stop (2 * ts.length + 7) name ts = .ok ((methods, [], closing), [])) :
    ∃ names, whole ⟨imports ++ publicTokens place a b c name ts, stop⟩ =
      .ok ⟨none, names, [⟨.classKind, name, ["public"], methods, [], place.through closing⟩]⟩ := by
  have htypes : DeclarationParser.types stop (callsFor (publicTokens place a b c name ts))
      (publicTokens place a b c name ts) =
        .ok [⟨.classKind, name, ["public"], methods, [], place.through closing⟩] :=
    types_publicTokens hmembers
  generalize hbehind : publicTokens place a b c name ts = behind at htypes
  have hfirst (place : Span) (ts : List Lexeme) : behind ≠ ⟨.keyword .importKw, place⟩ :: ts := by
    rw [← hbehind]
    simp [publicTokens]
  have hpackage : DeclarationParser.package stop (imports ++ behind) =
      .ok (none, imports ++ behind) := by
    refine package.eq_2 _ _ fun _ _ h => ?_
    have htoken := congrArg (List.map Lexeme.token) h
    rw [List.map_append, himports, ← hbehind] at htoken
    cases is with
    | nil => cases htoken
    | cons => cases htoken
  have hcalls : imports.length < callsFor (imports ++ behind) := by
    rw [callsFor, List.length_append]
    omega
  obtain ⟨names, hnames⟩ : ∃ names, DeclarationParser.imports stop (callsFor (imports ++ behind))
      (imports ++ behind) = .ok (names, behind) := imports_append himports hfirst hcalls
  exact ⟨names, bind_eq_ok.2 ⟨_, hpackage, bind_eq_ok.2 ⟨_, hnames, bind_eq_ok.2 ⟨_, htypes, rfl⟩⟩⟩⟩

end DeclarationParser

/-! ## The same main -/

open DeclarationParser

/-- The pieces in front of a snippet in a class. -/
def classPieces : List Piece :=
  [.keyword .classKw, .space ' ', .name "T", .space ' ', .sign .lbrace]

theorem cuts_classPieces (X : List Char) : Cuts (spell classPieces ++ X) classPieces X := by
  unfold classPieces
  repeat' first | exact .nil _ | refine .cons_token rfl ?_ | refine .cons_blank rfl ?_

/-- A snippet as the members of a class. -/
def inClass (snippet : List Char) : List Char := spell classPieces ++ (snippet ++ ['}'])

/-- Whether the snippet declares members of a class and no types, with a static `main` that has a
body before all others. Places are those in the class. -/
def DeclaresMain (snippet : List Char) (m : MethodDecl) (body : Span) : Prop :=
  ∃ unit t, CompilationUnit.parse (inClass snippet) = .ok unit ∧ unit.types = [t] ∧ t.nested = [] ∧
    unit.main? = some m ∧ m.body = some body

theorem place_classPieces (ps : List Piece) :
    ∃ a b c, place .start (classPieces ++ ps) =
      classTokens a b c "T" (place (Position.start.after (spell classPieces)) ps) :=
  ⟨_, _, _, rfl⟩

/-- Behind a class no brace is left. -/
theorem eq_nil_of_types {stop last : Span} {calls : Nat} {ts rest : List Lexeme}
    (hsuffix : rest <:+ ts ++ [⟨.sign .rbrace, last⟩])
    (h : DeclarationParser.types stop calls rest = .ok []) : rest = [] := by
  by_contra hne
  obtain ⟨used, hused⟩ := hsuffix
  have hlast : rest.getLast? = some ⟨.sign .rbrace, last⟩ := by
    have hboth := congrArg List.getLast? hused
    rw [List.getLast?_concat, List.getLast?_append_of_ne_nil _ hne] at hboth
    exact hboth
  exact absurd (token_of_types h _ (List.mem_of_getLast? hlast)) nofun

/-- A class that ends with the text has the members that are read in front of its end. -/
theorem exists_members_of_parse {front cs : List Char} {fs ps : List Piece} {is : List ImportName}
    {unit : CompilationUnit} {t : TypeDecl}
    (hfront : tokensOf fs = is.flatMap ImportName.tokens) (hspell : spell fs = front)
    (hcuts : Cuts (front ++ cs ++ ['}']) (fs ++ ps) ['}'])
    (hparse : CompilationUnit.parse (inClass (front ++ cs)) = .ok unit)
    (htypes : unit.types = [t]) :
    ∃ stop last calls closing, members stop calls "T"
        (place (Position.start.after (spell classPieces ++ front)) ps ++ [⟨.sign .rbrace, last⟩]) =
      .ok ((t.methods, t.nested, closing), []) := by
  have hclosing : Cuts ['}'] [.sign .rbrace] [] := .token (u := []) rfl (.nil [])
  have hlex := lex_of_cuts ((cuts_classPieces _).append (hcuts.append hclosing))
  obtain ⟨a, b, c, hplace⟩ := place_classPieces (fs ++ (ps ++ [.sign .rbrace]))
  rw [List.append_assoc fs, hplace] at hlex
  rw [CompilationUnit.parse, inClass, hlex] at hparse
  obtain ⟨calls, calls', methods, nested, closing, rest, more, hmembers, hmore, hunit⟩ :=
    exists_members_of_whole hparse
  rw [htypes] at hunit
  obtain ⟨rfl, hnil⟩ := List.cons.inj hunit
  obtain rfl : more = [] := hnil.symm
  rw [place_append, place_append, ← Position.after_append, hspell] at hmembers
  obtain ⟨calls, hmembers⟩ := members_of_imports ((map_token_place _ _).trans hfront) hmembers
  obtain rfl : rest = [] := eq_nil_of_types
    ((takes_typeDeclaration_and_members _).2 hmembers).suffix hmore
  exact ⟨_, _, calls, closing, hmembers⟩

/-- The body of a method stands between the same braces as that of the same method. -/
theorem exists_inBraces_of_sameMethod {zs rest : List Twin} {m m' : MethodDecl} {body : Span}
    (h : SameMethod zs rest m m') (hbody : m.body = some body) :
    ∃ body', m'.body = some body' ∧ InBraces zs rest body body' := by
  have hbodies := h.body
  rw [hbody] at hbodies
  generalize m'.body = b at hbodies
  cases hbodies with
  | some hbraces => exact ⟨_, rfl, hbraces⟩

/-- The methods of a class have a main where those of the same class have one. -/
theorem exists_find?_of_sameMethods {zs : List Twin} {ms ms' : List MethodDecl} {m : MethodDecl}
    (h : SameMethods zs ms ms') (hm : ms.find? MethodDecl.isMain = some m) :
    ∃ m' rest, ms'.find? MethodDecl.isMain = some m' ∧ rest ≠ [] ∧ SameMethod zs rest m m' := by
  induction h with
  | nil => exact absurd hm nofun
  | @cons n n' ms ms' hn _ ih =>
    obtain ⟨rest, hrest, hsame⟩ := hn
    have hmain : n'.isMain = n.isMain := by
      rw [MethodDecl.isMain, MethodDecl.isStatic, hsame.name_eq, hsame.modifiers_eq]
      rfl
    rw [List.find?_cons] at hm ⊢
    rw [hmain]
    cases hn : n.isMain with
    | true =>
      rw [hn] at hm
      obtain rfl := Option.some.inj hm
      exact ⟨n', rest, rfl, hrest, hsame⟩
    | false =>
      rw [hn] at hm
      exact ih hm

/-! ## The program -/

/-- The text in front of the members of a program. -/
def shellText (imports gap : List Char) : List Char := imports ++ (spell Program.shellPieces ++ gap)

theorem place_shellPieces (p : Position) (ps : List Piece) :
    ∃ place a b c, Lexer.place p (Program.shellPieces ++ ps) =
      publicTokens place a b c "TempClass"
        (Lexer.place (p.after (spell Program.shellPieces)) ps) := by
  rw [place_append]
  exact ⟨_, _, _, _, rfl⟩

/-- **The members of a class are read in the program**, from the same tokens at other places. -/
theorem exists_parse_of_members {cs imports gap : List Char} {ps : List Piece}
    {is : List ImportName}
    {p : Position} {stop last closing : Span} {calls : Nat} {methods : List MethodDecl}
    (hcuts : Cuts cs ps []) (hblock : ∀ q ∈ ps, q.token ≠ none → '\n' ∉ q.text)
    (himports : ∀ X, Reads (imports ++ X) (is.flatMap ImportName.tokens) X)
    (hgap : ∀ X, Reads (gap ++ X) [] X)
    (hmembers : members stop calls "T" (place p ps ++ [⟨.sign .rbrace, last⟩]) =
      .ok ((methods, [], closing), [])) :
    ∃ qs zs names methods' span, Cuts (laidOut [] lineStart cs ++ ['}', '\n']) qs [] ∧
      lefts zs = place p ps ++ [⟨.sign .rbrace, last⟩] ∧
      rights zs = place (Position.start.after (shellText imports gap)) qs ∧
      SameMethods zs methods methods' ∧
      CompilationUnit.parse (shellText imports gap ++ (laidOut [] lineStart cs ++ ['}', '\n'])) =
        .ok ⟨none, names, [⟨.classKind, "TempClass", ["public"], methods', [], span⟩]⟩ := by
  -- the pieces of the program
  have hclosing : Reads ['}', '\n'] [.sign .rbrace] [] :=
    .token (u := []) rfl (.of_isBlank (s := ['\n']) rfl (.refl []))
  have hcs : Reads (laidOut [] lineStart cs ++ ['}', '\n']) (reindented [] ps) ['}', '\n'] :=
    hcuts.laidOut rfl rfl _
  obtain ⟨qs, hqs, htokens⟩ := hcs.append hclosing
  rw [reindented_eq_tokensOf _ hblock] at htokens
  generalize laidOut [] lineStart cs ++ ['}', '\n'] = rest at hqs ⊢
  obtain ⟨is', hcutsImports, his⟩ := himports (spell Program.shellPieces ++ (gap ++ rest))
  obtain ⟨fillers, hfillers, hnone⟩ := hgap rest
  have hspell : spell is' = imports := (List.append_cancel_right hcutsImports.spell).symm
  have hspell' : spell fillers = gap := (List.append_cancel_right hfillers.spell).symm
  have hnone' (p : Position) : place p fillers = [] :=
    List.map_eq_nil_iff.1 ((map_token_place p fillers).trans hnone)
  obtain ⟨a, b, c, d, hplace⟩ :=
    place_shellPieces (Position.start.after (spell is')) (fillers ++ qs)
  obtain ⟨stop', hlex⟩ : ∃ stop', lex (imports ++ (spell Program.shellPieces ++ (gap ++ rest))) =
      .ok ⟨place .start (is' ++ (Program.shellPieces ++ (fillers ++ qs))), stop'⟩ :=
    ⟨_, lex_of_cuts (hcutsImports.append
      ((Program.cuts_shellPieces _).append (hfillers.append hqs)))⟩
  rw [place_append, hplace, place_append, hnone', List.nil_append, hspell', hspell,
    ← Position.after_append, ← Position.after_append] at hlex
  -- the same tokens in the class and in the program
  have htwins : (place p ps ++ [(⟨.sign .rbrace, last⟩ : Lexeme)]).map Lexeme.token =
      (place (Position.start.after (shellText imports gap)) qs).map Lexeme.token := by
    rw [map_token_place, htokens, List.map_append, map_token_place]
    rfl
  obtain ⟨zs, hlefts, hrights⟩ := exists_twins htwins
  rw [← hlefts] at hmembers
  have hcalls : zs.length < 2 * (rights zs).length + 7 := by
    rw [rights, List.length_map]
    omega
  obtain ⟨methods', closing', zs', hnil, hsame, hright⟩ :=
    exists_of_members stop' "TempClass" hmembers hcalls
  obtain rfl : zs' = [] := List.map_eq_nil_iff.1 hnil.symm
  obtain ⟨names, hread⟩ : ∃ names, whole ⟨place .start is' ++ publicTokens a b c d "TempClass"
      (rights zs), stop'⟩ = .ok ⟨none, names,
        [⟨.classKind, "TempClass", ["public"], methods', [], a.through closing'⟩]⟩ :=
    exists_whole_of_members ((map_token_place .start is').trans his) hright
  refine ⟨qs, zs, names, methods', a.through closing', hqs, hlefts, hrights, hsame, ?_⟩
  rw [hrights, shellText] at hread
  rw [CompilationUnit.parse, shellText, List.append_assoc, List.append_assoc, hlex]
  exact hread

/-! ## The body of the `main` -/

/-- Behind as many tokens stands the same token of a text. -/
theorem eq_of_append_cons {front front' back back' : List Piece} {x x' : List Char} {t t' : Token}
    (h : front ++ ⟨x, some t⟩ :: back = front' ++ ⟨x', some t'⟩ :: back')
    (hlength : (tokensOf front).length = (tokensOf front').length) :
    front = front' ∧ back = back' := by
  induction front generalizing front' with
  | nil =>
    cases front' with
    | nil => exact ⟨rfl, (List.cons.inj h).2⟩
    | cons q front' =>
      obtain ⟨rfl, -⟩ := List.cons.inj h
      exact absurd hlength.symm (Nat.succ_ne_zero _)
  | cons q front ih =>
    cases front' with
    | nil =>
      obtain ⟨rfl, -⟩ := List.cons.inj h
      exact absurd hlength (Nat.succ_ne_zero _)
    | cons q' front' =>
      obtain ⟨rfl, hrest⟩ := List.cons.inj h
      have hlater : (tokensOf front).length = (tokensOf front').length := by
        have hcons (ps : List Piece) : (tokensOf (q :: ps)).length =
            (tokensOf [q]).length + (tokensOf ps).length := by
          rw [← List.length_append, ← tokensOf_append, List.singleton_append]
        rw [hcons front, hcons front'] at hlength
        exact Nat.add_left_cancel hlength
      obtain ⟨rfl, rfl⟩ := ih hrest hlater
      exact ⟨rfl, rfl⟩

theorem length_tokensOf {p : Position} {ps : List Piece} {ts : List Lexeme} (h : place p ps = ts) :
    (tokensOf ps).length = ts.length := by
  rw [← map_token_place p, h, List.length_map]

theorem spell_blockPieces (front body back : List Piece) :
    spell (blockPieces front body back) =
      spell front ++ '{' :: (spell body ++ '}' :: spell back) := by
  have hcons (s : Sign) (ps : List Piece) : spell (.sign s :: ps) = s.text.toList ++ spell ps := rfl
  rw [blockPieces, spell_append, hcons, spell_append, hcons]
  rfl

/-- **The body of a method is found again where its text is laid out anew.** -/
theorem text_of_inBraces {cs X head head' : List Char} {ps qs : List Piece} {zs rest : List Twin}
    {last body body' : Span} (hcuts : Cuts cs ps [])
    (hblock : ∀ q ∈ ps, q.token ≠ none → '\n' ∉ q.text)
    (hqs : Cuts (laidOut [] lineStart cs ++ X) qs [])
    (hlefts : lefts zs = place (Position.start.after head) ps ++ [⟨.sign .rbrace, last⟩])
    (hrights : rights zs = place (Position.start.after head') qs)
    (hbraces : InBraces zs rest body body') (hrest : rest ≠ []) (Y : List Char) :
    body'.text (head' ++ (laidOut [] lineStart cs ++ X)) =
      written inLine (body.text (head ++ (cs ++ Y))) := by
  obtain ⟨front, ⟨_, o, o'⟩, mid, ⟨_, c, c'⟩, rfl, rfl, rfl, rfl, rfl⟩ := hbraces
  obtain ⟨rest, z, rfl⟩ := List.eq_nil_or_concat rest |>.resolve_left hrest
  -- the braces among the pieces of the two texts
  have hplace : place (Position.start.after head) ps =
      lefts front ++ ⟨.sign .lbrace, o⟩ :: (lefts mid ++ ⟨.sign .rbrace, c⟩ :: lefts rest) := by
    have hboth : place (Position.start.after head) ps ++ [⟨.sign .rbrace, last⟩] =
        (lefts front ++ ⟨.sign .lbrace, o⟩ :: (lefts mid ++ ⟨.sign .rbrace, c⟩ :: lefts rest)) ++
          lefts [z] := by
      rw [← hlefts]
      simp [lefts]
    exact List.append_inj_left' hboth rfl
  have hplace' : place (Position.start.after head') qs =
      rights front ++ ⟨.sign .lbrace, o'⟩ ::
        (rights mid ++ ⟨.sign .rbrace, c'⟩ :: rights (rest.concat z)) := by
    rw [← hrights]
    simp [rights]
  obtain ⟨fs, bs, ks, rfl, hfs, hbs, rfl, rfl⟩ := exists_blockPieces hcuts hplace
  obtain ⟨fs', bs', ks', rfl, hfs', hbs', rfl, rfl⟩ := exists_blockPieces hqs hplace'
  -- the same block in the layout
  obtain ⟨f, b, k, hqs', hf, hb, hspell⟩ := exists_blockPieces_laidOut hcuts hblock hqs
  have hfront : (tokensOf fs').length = (tokensOf f).length := by
    rw [hf, length_tokensOf hfs', length_tokensOf hfs, length_rights]
  have hbody : (tokensOf bs').length = (tokensOf b).length := by
    rw [hb, length_tokensOf hbs', length_tokensOf hbs, length_rights]
  obtain ⟨rfl, hbehind⟩ := eq_of_append_cons hqs' hfront
  obtain ⟨rfl, rfl⟩ := eq_of_append_cons hbehind hbody
  -- the texts between the braces
  have hbetween (head X : List Char) (fs bs ks : List Piece) {cs : List Char}
      (h : cs = spell (blockPieces fs bs ks)) :
      (between (Span.ofText ((Position.start.after head).after (spell fs)) ['{'])
        (Span.ofText ((Position.start.after head).after (spell fs ++ '{' :: spell bs)) ['}'])).text
          (head ++ (cs ++ X)) = spell bs := by
    have hsplit : head ++ (cs ++ X) =
        (head ++ spell fs) ++ '{' :: (spell bs ++ ('}' :: spell ks ++ X)) := by
      rw [h, spell_blockPieces]
      simp
    rw [hsplit, ← Position.after_append, ← Position.after_append, ← List.append_assoc]
    exact text_between _ _ _
  have htext := hcuts.spell
  have htext' := hqs.spell
  rw [List.append_nil] at htext htext'
  rw [hbetween head Y fs bs ks htext, ← hspell,
    ← List.append_nil (laidOut [] lineStart cs ++ X)]
  exact hbetween head' [] fs' bs' _ htext'

/-! ## Programs -/

/-- The first `main` of a type without nested types is one of its methods. -/
theorem TypeDecl.main?_of_nested {t : TypeDecl} (h : t.nested = []) :
    t.main? = t.methods.find? MethodDecl.isMain := by
  obtain ⟨kind, name, mods, methods, nested, span⟩ := t
  obtain rfl : nested = [] := h
  rw [main?, firstMain?, Option.or_none]

/-- The first `main` of a text with one type, which has no types inside, is one of its methods. -/
theorem CompilationUnit.main?_of_nested {unit : CompilationUnit} {t : TypeDecl}
    (htypes : unit.types = [t]) (h : t.nested = []) :
    unit.main? = t.methods.find? MethodDecl.isMain := by
  rw [main?, htypes, TypeDecl.firstMain?, TypeDecl.firstMain?, Option.or_none,
    TypeDecl.main?_of_nested h]

theorem Fragment.one_le_lineAt (text : List Char) (position : Nat) : 1 ≤ lineAt text position := by
  unfold lineAt
  split
  · exact Nat.le_add_left 1 _
  · exact Nat.le_refl 1

namespace Program

/-- Lines in front of which the imports of a snippet stand are read on their own. -/
theorem exists_cuts_of_importsLead {snippet : List Char} {ps : List Piece}
    (hcuts : Cuts snippet ps []) (h : ImportsLead snippet) :
    ∃ (front back : List Char) (fs bs : List Piece) (is : List ImportName),
      snippet = front ++ back ∧ ps = fs ++ bs ∧ Cuts back bs [] ∧ spell fs = front ∧
      tokensOf fs = is.flatMap ImportName.tokens ∧
      (∀ X, Reads (importText (lines snippet) ++ X) (is.flatMap ImportName.tokens) X) ∧
      (∀ X, Reads (bodyText [] (lines front) ++ X) [] X) ∧
      bodyText [] (lines snippet) = bodyText [] (lines front) ++ laidOut [] lineStart back := by
  obtain ⟨front, back, hlines, hfront, hback⟩ := h
  obtain ⟨hfront', hback', -⟩ := linesWithBreaks_flatten hlines
  obtain ⟨fs, is, hfs, htokens, himports, hbody⟩ := exists_of_forall_leadsIn hfront hfront'
  have hsnippet : snippet = front.flatten ++ back.flatten := by
    rw [← List.flatten_append, ← hlines, flatten_linesWithBreaks]
  have hextend := Cuts.extend_lines hlines hfs
  rw [← hsnippet] at hextend
  obtain ⟨bs, rfl, hbs⟩ := hextend.exists_append hcuts (Nat.zero_le _)
  have hparts : lines snippet = lines front.flatten ++ lines back.flatten := by
    rw [lines, lines, lines, hlines, hfront', hback', List.map_append]
  have hnone : ∀ l ∈ lines back.flatten, isImport l = false := by
    rw [lines, hback']
    rintro _ hl
    obtain ⟨line, hline, rfl⟩ := List.mem_map.1 hl
    rw [isImport_dropBreak]
    exact hback line hline
  refine ⟨front.flatten, back.flatten, fs, bs, is, hsnippet, rfl, hbs, ?_, htokens, ?_, hbody, ?_⟩
  · have hspell := hfs.spell
    rw [List.append_nil] at hspell
    exact hspell.symm
  · rw [hparts, importText_append, importText_of_forall hnone, List.append_nil]
    exact himports
  · rw [hparts, bodyText_append, bodyText_of_forall hnone, laidOut_eq_flatMap]

/-- A snippet that is put into a class alone: its lines but the imports, laid out between the braces
of the class. -/
theorem text_ofSnippet_of_hasMain {front back : List Char}
    (horigins : (ofSnippet (front ++ back)).origins.isSome = true)
    (hmain : hasMain (front ++ back) = true)
    (hbody : bodyText [] (lines (front ++ back)) =
      bodyText [] (lines front) ++ laidOut [] lineStart back) :
    (ofSnippet (front ++ back)).text =
      shellText (importText (lines (front ++ back))) (bodyText [] (lines front)) ++
        (laidOut [] lineStart back ++ ['}', '\n']) := by
  rw [(text_ofSnippet_of_origins horigins).1, textOf_wrapped_of_hasMain hmain, hbody, shellText]
  simp only [List.append_assoc]

/-- **With the words `static void main` in its code, a snippet is a program with its own
`main`.** -/
theorem exists_main_of_hasMain {snippet : List Char} {ps : List Piece} {m : MethodDecl}
    {body : Span}
    (hcuts : Cuts snippet ps []) (hlines : ∀ q ∈ ps, q.token ≠ none → '\n' ∉ q.text)
    (hend : endMode .code snippet = .code) (horigins : (ofSnippet snippet).origins.isSome = true)
    (hdeclares : DeclaresMain snippet m body) (hmain : hasMain snippet = true)
    (himports : ImportsLead snippet) :
    ∃ unit m' body', CompilationUnit.parse (ofSnippet snippet).text = .ok unit ∧
      unit.main? = some m' ∧ m'.modifiers = m.modifiers ∧ m'.body = some body' ∧
      body'.text (ofSnippet snippet).text = written inLine (body.text (inClass snippet)) := by
  obtain ⟨unit, t, hparse, htypes, hnested, hfirst, hbody⟩ := hdeclares
  obtain ⟨front, back, fs, bs, is, rfl, rfl, hback, hspell, hfront, himport, hgap, hbodyText⟩ :=
    exists_cuts_of_importsLead hcuts himports
  obtain ⟨stop, last, calls, closing, hmembers⟩ :=
    exists_members_of_parse hfront hspell (hcuts.before_brace hlines hend []) hparse htypes
  rw [hnested] at hmembers
  have hlines' : ∀ q ∈ bs, q.token ≠ none → '\n' ∉ q.text :=
    fun q hq => hlines q (List.mem_append_right fs hq)
  -- the members are read in the program, and the first main is among them
  obtain ⟨qs, zs, names, methods', span, hqs, hlefts, hrights, hsame, hparse'⟩ :=
    exists_parse_of_members hback hlines' himport hgap hmembers
  rw [CompilationUnit.main?_of_nested htypes hnested] at hfirst
  obtain ⟨m', rest, hfind, hrest, hm⟩ := exists_find?_of_sameMethods hsame hfirst
  obtain ⟨body', hbody', hbraces⟩ := exists_inBraces_of_sameMethod hm hbody
  have hmain' : CompilationUnit.main? ⟨none, names,
      [⟨.classKind, "TempClass", ["public"], methods', [], span⟩]⟩ = some m' :=
    (CompilationUnit.main?_of_nested rfl rfl).trans hfind
  -- its body in the two texts
  have hclass : inClass (front ++ back) = (spell classPieces ++ front) ++ (back ++ ['}']) := by
    simp only [inClass, List.append_assoc]
  have htext := text_ofSnippet_of_hasMain horigins hmain hbodyText
  rw [htext, hclass]
  exact ⟨_, m', body', hparse', hmain', hm.modifiers_eq, hbody',
    text_of_inBraces hback hlines' hqs hlefts hrights hbraces hrest _⟩

/-- **A snippet with a `main` of its own is a program with that `main`, if the words
`static void main` stand in its code.** The snippet is made of members of a class, its imports stand
in front, it has no text block and does not end in a comment. Its first `main` is found in the
program with the same modifiers and, line by line, with the same body, and the statements of this
body are run. Without these words the whole snippet becomes the body of another `main`, and its own
is not found. -/
theorem runs_own_main {snippet : List Char} {tokens : Lexemes} {m : MethodDecl} {body : Span}
    (hlex : lex snippet = .ok tokens) (hblock : ∀ t ∈ tokens.list, ¬ t.IsTextBlock snippet)
    (hend : endMode .code snippet = .code) (horigins : (ofSnippet snippet).origins.isSome = true)
    (hdeclares : DeclaresMain snippet m body) :
    (hasMain snippet = true → ImportsLead snippet →
      ∃ unit m' body', CompilationUnit.parse (ofSnippet snippet).text = .ok unit ∧
        unit.main? = some m' ∧ m'.modifiers = m.modifiers ∧ m'.body = some body' ∧
        body'.text (ofSnippet snippet).text = written inLine (body.text (inClass snippet)) ∧
        trimmedLines (body'.text (ofSnippet snippet).text) =
          trimmedLines (body.text (inClass snippet)) ∧
        ∃ k, List.Forall₂ (Fragment.Shifted k) (Fragment.split (body.text (inClass snippet)) 1)
          (ofSnippet snippet).fragments) ∧
      (hasMain snippet = false → (∀ line ∈ lines snippet, isImport line = false) →
        BracesBalanced (tokens.list.map Lexeme.token) →
        ∃ unit m' body', CompilationUnit.parse (ofSnippet snippet).text = .ok unit ∧
          unit.main? = some m' ∧ m'.body = some body' ∧
          body'.text (ofSnippet snippet).text =
            '\n' :: (laidOut bodyIndent lineStart snippet ++ List.replicate 4 ' ')) := by
  obtain ⟨ps, hcuts, rfl⟩ := exists_cuts_of_lex hlex
  have hlines : ∀ q ∈ ps, q.token ≠ none → '\n' ∉ q.text :=
    fun q hq => hcuts.newline_not_mem hblock hq
  constructor
  · intro hmain himports
    obtain ⟨unit, m', body', hparse, hfirst, hmodifiers, hbody, hwritten⟩ :=
      exists_main_of_hasMain hcuts hlines hend horigins hdeclares hmain himports
    obtain ⟨k, hk⟩ := Nat.exists_eq_add_of_le
      (Fragment.one_le_lineAt (ofSnippet snippet).text body'.start)
    refine ⟨unit, m', body', hparse, hfirst, hmodifiers, hbody, hwritten, ?_, k, ?_⟩
    · rw [hwritten, trimmedLines_written (.inr rfl)]
    · rw [fragments_of_main? hparse hfirst, fragmentsOf_of_body hbody, hwritten, hk]
      exact Fragment.split_written _ _ _
  · intro hmain himport hbraces
    obtain ⟨body, htext, hbody, htokens, hspell⟩ :=
      exists_programPieces hcuts hlines himport horigins hmain
    rw [map_token_place, ← htokens] at hbraces
    obtain ⟨unit, m', body', hparse, hfirst, hm, htext', -⟩ :=
      exists_main_of_programPieces htext hbody hbraces
    exact ⟨unit, m', body', hparse, hfirst, hm, htext'.trans hspell⟩

/-- A snippet with an import and a `main` of its own. -/
def importAndMain : List Char := "import a.B;\n\nstatic void main()\x7b\n  f();\n\x7d".toList

/-- The `main` of the snippet, at its place in a class. -/
def mainBehindImport : MethodDecl where
  name := "main"
  modifiers := ["static"]
  params := ⟨39, 39, 3, 18⟩
  body := some ⟨41, 49, 3, 20⟩
  span := ⟨22, 50, 3, 1⟩

/-- The `main` behind an import is run. -/
theorem runs_main_behind_import :
    ∃ unit m' body', CompilationUnit.parse (ofSnippet importAndMain).text = .ok unit ∧
      unit.main? = some m' ∧ m'.modifiers = ["static"] ∧ m'.body = some body' ∧
      body'.text (ofSnippet importAndMain).text = "\n  f();\n".toList ∧
      ∃ k, List.Forall₂ (Fragment.Shifted k) [⟨"f()".toList, 2⟩]
        (ofSnippet importAndMain).fragments := by
  obtain ⟨tokens, hlex, hblock⟩ : ∃ tokens, lex importAndMain = .ok tokens ∧
      ∀ t ∈ tokens.list, ¬ t.IsTextBlock importAndMain := by
    have hsome : (lex importAndMain).toOption.any (fun tokens => decide
        (∀ t ∈ tokens.list, ¬ t.IsTextBlock importAndMain)) = true := by decide +kernel
    simpa using exists_ok_of_any hsome
  have hdeclares : DeclaresMain importAndMain mainBehindImport ⟨41, 49, 3, 20⟩ := by
    have hparse : CompilationUnit.parse (inClass importAndMain) =
        .ok ⟨none, [], [⟨.classKind, "T", [], [mainBehindImport], [], ⟨0, 51, 1, 1⟩⟩]⟩ := by cbv
    exact ⟨_, _, hparse, rfl, rfl, rfl, rfl⟩
  have himports : ImportsLead importAndMain := by
    have himport : LeadsIn "import a.B;\n".toList := by
      refine ⟨_, by cbv, ?_⟩
      rw [if_pos (by decide)]
      exact ⟨[⟨false, "a", ["B"], false⟩], rfl⟩
    have hblank : LeadsIn "\n".toList := by
      refine ⟨_, by cbv, ?_⟩
      rw [if_neg (by decide)]
    refine ⟨["import a.B;\n".toList, "\n".toList], ["static void main()\x7b\n".toList,
      "  f();\n".toList, "\x7d".toList], by decide, ?_, by decide⟩
    simp only [List.forall_mem_cons, List.not_mem_nil, false_imp_iff, implies_true, and_true]
    exact ⟨himport, hblank⟩
  obtain ⟨unit, m', body', hparse, hmain, hmodifiers, hbody, htext, -, k, hk⟩ :=
    (runs_own_main hlex hblock (by decide +kernel) (by decide +kernel) hdeclares).1
      (by decide +kernel) himports
  have hown : (⟨41, 49, 3, 20⟩ : Span).text (inClass importAndMain) = "\n  f();\n".toList := by
    decide +kernel
  rw [hown] at htext hk
  refine ⟨unit, m', body', hparse, hmain, hmodifiers, hbody, htext.trans (by decide +kernel), k, ?_⟩
  have hsplit : Fragment.split "\n  f();\n".toList 1 = [⟨"f()".toList, 2⟩] := by decide +kernel
  rwa [hsplit] at hk

end Program

end SnippetRunner
