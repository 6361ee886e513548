import SnippetRunner.Proofs.CodePieces

/-!
# The class of each character

The scanner gives every character a class without reading tokens, and the lexer reads tokens without
giving classes. They agree (`class_of_lex`): in a text that has tokens, none of them a text block,
the literals of the scanner are the strings and characters among the tokens, and its comments are
what the lexer skips as comments.

* `Lexemes.InLiteral` is the view of the tokens: the span of a string or a character covers the
  place.
* `InComment` is the view of the steps between them: the lexer comes to a comment that covers the
  place. What a comment is says `IsComment`, without the lexer.
-/

namespace SnippetRunner

open Text Lexer Scan

/-! ## Literals and comments -/

/-- Whether the character at a byte offset belongs to a string or a character. -/
def Lexemes.InLiteral (tokens : Lexemes) (offset : Nat) : Prop :=
  ∃ t ∈ tokens.list, t.token.isQuoted = true ∧ t.span.start ≤ offset ∧ offset < t.span.stop

/-- A comment in front of the rest of a text. A line comment ends in front of a line break, a block
comment with the first delimiter that closes it. -/
inductive IsComment : List Char → List Char → Prop
  | line {y rest : List Char} :
      '\n' ∉ y → (∀ d ∈ rest.head?, d = '\n') → IsComment ('/' :: '/' :: y) rest
  | block {w rest : List Char} :
      ¬ ['*', '/'] <:+: w ++ ['*'] → IsComment ('/' :: '*' :: (w ++ ['*', '/'])) rest

/-- Whether the character at a byte offset belongs to a comment that the lexer comes to. -/
def InComment (cs : List Char) (offset : Nat) : Prop :=
  ∃ ps text rest, Cuts cs ps (text ++ rest) ∧ IsComment text rest ∧
    byteSize (spell ps) ≤ offset ∧ offset < byteSize (spell ps) + byteSize text

/-! ## What the lexer skips -/

namespace Lexer

/-- The lexer sees the end of a block comment at the first delimiter that closes it. -/
theorem commentLength?_append_iff {w Y : List Char} :
    commentLength? (w ++ Y) = some w.length ↔
      ∃ v, w = v ++ ['*', '/'] ∧ ¬ ['*', '/'] <:+: v ++ ['*'] := by
  constructor
  · intro h
    induction w with
    | nil => exact absurd (pos_of_commentLength? h) (Nat.lt_irrefl 0)
    | cons c w ih =>
      obtain ⟨rfl, rfl⟩ | ⟨hopen, hrest⟩ := commentLength?_cons h
      · exact ⟨[], rfl, by decide⟩
      · obtain ⟨v, rfl, hv⟩ := ih hrest
        refine ⟨c :: v, rfl, ?_⟩
        rw [List.cons_append, List.infix_cons_iff]
        rintro (hlead | hlater)
        · obtain ⟨rfl, hslash⟩ := List.cons_prefix_cons.1 hlead
          cases v with
          | nil => simp at hslash
          | cons d v => exact hopen ⟨rfl, by simpa [eq_comm] using hslash⟩
        · exact hv hlater
  · rintro ⟨v, rfl, hv⟩
    induction v with
    | nil => rfl
    | cons c v ih =>
      rw [List.cons_append, List.infix_cons_iff, not_or] at hv
      have hopen : ¬(c = '*' ∧ (v ++ ['*', '/'] ++ Y).head? = some '/') := by
        rintro ⟨rfl, hslash⟩
        refine hv.1 (List.cons_prefix_cons.2 ⟨rfl, ?_⟩)
        cases v with
        | nil => simp at hslash
        | cons d v => simpa [eq_comm] using hslash
      rw [List.cons_append, List.cons_append, commentLength?, if_neg hopen, ih hv.2]
      rfl

/-- A comment is cut off in one piece, a line comment with its line break. -/
theorem exists_cuts_of_isComment {text rest : List Char} (h : IsComment text rest) :
    ∃ u tail, Cuts (text ++ rest) [⟨text ++ u, none⟩] tail ∧
      ∀ c ∈ text, Piece.classOf ⟨text ++ u, none⟩ c = .comment := by
  cases h with
  | @line y rest hline hend =>
    have hclass (u : List Char) : ∀ c ∈ '/' :: '/' :: y,
        Piece.classOf ⟨'/' :: '/' :: y ++ u, none⟩ c = .comment := by
      intro c hc
      have hne : c ≠ '\n' := by
        rintro rfl
        simp [hline] at hc
      simp [Piece.classOf, hne]
    cases rest with
    | nil =>
      refine ⟨[], [], ?_, hclass []⟩
      have hslashes : '\n' ∉ '/' :: y := by
        simp only [List.mem_cons, not_or]
        exact ⟨by decide, hline⟩
      have hcount : throughBreak ('/' :: y) = ('/' :: y).length := by
        simpa [throughBreak] using throughBreak_append hslashes []
      have hstep : step '/' ('/' :: y ++ []) = .blank ('/' :: y).length := by
        rw [List.append_nil, step_lineComment, hcount]
      simpa using Cuts.blank hstep (.nil [])
    | cons d rest =>
      obtain rfl := hend d rfl
      refine ⟨['\n'], rest, ?_, hclass ['\n']⟩
      simpa using Cuts.blank (step_lineComment_append hline rest) (.nil rest)
  | @block w rest hclosed =>
    refine ⟨[], rest, ?_, fun c _ => by simp [Piece.classOf]⟩
    have hcount : commentLength? (w ++ ['*', '/'] ++ rest) = some (w ++ ['*', '/']).length :=
      commentLength?_append_iff.2 ⟨w, rfl, hclosed⟩
    have hstep := step_blockComment hcount
    rw [List.append_nil]
    exact Cuts.blank (u := '*' :: (w ++ ['*', '/'])) hstep (.nil rest)

/-- What the lexer cuts off without a token is a comment as far as it belongs to one. -/
theorem exists_isComment_of_step {c d : Char} {u x z Y : List Char}
    (h : step c (u ++ Y) = .blank u.length) (hsplit : c :: u = x ++ d :: z)
    (hclass : Piece.classOf ⟨c :: u, none⟩ d = .comment) :
    ∃ z' rest, c :: u ++ Y = x ++ d :: z' ++ rest ∧ IsComment (x ++ d :: z') rest := by
  obtain ⟨-, rfl⟩ | ⟨rfl, y, hy, rfl | ⟨rfl, rfl⟩⟩ | ⟨rfl, w, rfl, hcount⟩ := blank_of_step h
  · simp [Piece.classOf] at hclass
  · have hne : d ≠ '\n' := by
      rintro rfl
      simp [Piece.classOf] at hclass
    obtain rfl | ⟨z', e, rfl⟩ := List.eq_nil_or_concat z
    · have hlast := congrArg List.getLast? hsplit
      rw [← List.cons_append, ← List.cons_append, List.getLast?_concat,
        List.getLast?_concat] at hlast
      exact absurd (Option.some.inj hlast).symm hne
    · rw [List.concat_eq_append, ← List.cons_append, ← List.cons_append, ← List.cons_append,
        ← List.append_assoc] at hsplit
      obtain ⟨htext, hlast⟩ := List.append_inj' hsplit rfl
      refine ⟨z', '\n' :: Y, ?_, ?_⟩
      · rw [← htext]
        simp
      · rw [← htext]
        exact .line hy (by simp)
  · refine ⟨z, [], ?_, ?_⟩
    · rw [← hsplit]
    · rw [← hsplit]
      exact .line hy (by simp)
  · obtain ⟨v, rfl, hclosed⟩ := commentLength?_append_iff.1 hcount
    refine ⟨z, Y, ?_, ?_⟩
    · rw [← hsplit]
    · rw [← hsplit]
      exact .block hclosed

/-! ## The pieces of a text -/

/-- An element of a list that is made part by part belongs to one of the parts. -/
theorem exists_part_of_flatMap {α β : Type} {f : α → List β} {l : List α} {xs ys : List β} {b : β}
    (h : l.flatMap f = xs ++ b :: ys) :
    ∃ l₁ a l₂ us vs, l = l₁ ++ a :: l₂ ∧ xs = l₁.flatMap f ++ us ∧ f a = us ++ b :: vs := by
  induction l generalizing xs with
  | nil => simp at h
  | cons a l ih =>
    have hparts : (∃ xs', xs = f a ++ xs' ∧ l.flatMap f = xs' ++ b :: ys) ∨
        ∃ vs, f a = xs ++ b :: vs := by
      obtain ⟨xs', hxs, hlater⟩ | ⟨zs, hfirst, hrest⟩ := List.append_eq_append_iff.1 h
      · exact .inl ⟨xs', hxs, hlater⟩
      · cases zs with
        | nil => exact .inl ⟨[], by simpa using hfirst.symm, hrest.symm⟩
        | cons y zs =>
          obtain ⟨rfl, -⟩ := List.cons.inj hrest
          exact .inr ⟨zs, hfirst⟩
    obtain ⟨xs', rfl, hlater⟩ | ⟨vs, hfirst⟩ := hparts
    · obtain ⟨l₁, a', l₂, us, vs, rfl, rfl, hpart⟩ := ih hlater
      exact ⟨a :: l₁, a', l₂, us, vs, rfl, by simp, hpart⟩
    · exact ⟨[], a, l, xs, vs, rfl, rfl, hfirst⟩

/-- A character of a text belongs to one of its pieces. -/
theorem exists_piece_of_classified {ps : List Piece} {xs ys : List (Char × CharClass)} {c : Char}
    {k : CharClass} (h : ps.flatMap Piece.classified = xs ++ (c, k) :: ys) :
    ∃ qs q rs x z, ps = qs ++ q :: rs ∧ xs.map Prod.fst = spell qs ++ x ∧ q.text = x ++ c :: z ∧
      k = q.classOf c := by
  obtain ⟨qs, q, rs, us, vs, rfl, rfl, hpart⟩ := exists_part_of_flatMap h
  obtain ⟨x, w, htext, rfl, hw⟩ := List.map_eq_append_iff.1 hpart
  obtain ⟨d, z, rfl, hd, rfl⟩ := List.map_eq_cons_iff.1 hw
  obtain ⟨rfl, rfl⟩ := Prod.mk.inj hd
  refine ⟨qs, q, rs, x, z, rfl, ?_, htext, rfl⟩
  rw [List.map_append, map_fst_classified, List.map_map]
  exact congrArg _ (List.map_id' x)

/-- No two pieces stand at one place. -/
theorem eq_of_covered {qs qs' rs rs' : List Piece} {q q' : Piece} {offset : Nat}
    (h : qs ++ q :: rs = qs' ++ q' :: rs')
    (hlow : byteSize (spell qs) ≤ offset) (hhigh : offset < byteSize (spell qs) + byteSize q.text)
    (hlow' : byteSize (spell qs') ≤ offset)
    (hhigh' : offset < byteSize (spell qs') + byteSize q'.text) : qs = qs' ∧ q = q' := by
  -- a piece in front of another ends where the other starts or before
  have hbefore (front mid : List Piece) (p : Piece) :
      byteSize (spell front) + byteSize p.text ≤ byteSize (spell (front ++ p :: mid)) := by
    simp only [spell, List.flatMap_append, List.flatMap_cons, byteSize_append]
    omega
  obtain ⟨mid, rfl, hmid⟩ | ⟨mid, rfl, hmid⟩ := List.append_eq_append_iff.1 h
  · cases mid with
    | nil => exact ⟨by simp, (List.cons.inj hmid).1⟩
    | cons p mid =>
      obtain ⟨rfl, -⟩ := List.cons.inj hmid
      have := hbefore qs mid q
      omega
  · cases mid with
    | nil => exact ⟨by simp, (List.cons.inj hmid).1.symm⟩
    | cons p mid =>
      obtain ⟨rfl, -⟩ := List.cons.inj hmid
      have := hbefore qs' mid q'
      omega

/-- A token of a text stands where its piece does. -/
theorem mem_place_iff {ps : List Piece} {p : Position} {t : Lexeme} :
    t ∈ place p ps ↔ ∃ qs q rs, ps = qs ++ q :: rs ∧ q.token = some t.token ∧
      t.span = Span.ofText (p.after (spell qs)) q.text := by
  constructor
  · intro h
    induction ps generalizing p with
    | nil => simp [place] at h
    | cons q ps ih =>
      obtain ⟨text, _ | token⟩ := q
      · obtain ⟨qs, q, rs, rfl, htoken, hspan⟩ := ih h
        exact ⟨⟨text, none⟩ :: qs, q, rs, rfl, htoken, by simpa [spell] using hspan⟩
      · rcases List.mem_cons.1 h with rfl | h
        · exact ⟨[], _, ps, rfl, rfl, rfl⟩
        · obtain ⟨qs, q, rs, rfl, htoken, hspan⟩ := ih h
          exact ⟨⟨text, some token⟩ :: qs, q, rs, rfl, htoken, by simpa [spell] using hspan⟩
  · obtain ⟨token, span⟩ := t
    rintro ⟨qs, ⟨text, _⟩, rs, rfl, rfl, hspan⟩
    obtain rfl : span = Span.ofText (p.after (spell qs)) text := hspan
    rw [place_append]
    exact List.mem_append_right _ List.mem_cons_self

end Lexer

/-! ## Agreement -/

section Agreement

variable {cs x z : List Char} {qs rs : List Piece} {q : Piece} {c : Char}

/-- A character of a piece stands inside the piece. -/
theorem byteSize_of_mem_piece (qs : List Piece) (htext : q.text = x ++ c :: z) :
    byteSize (spell qs) ≤ byteSize (spell qs ++ x) ∧
      byteSize (spell qs ++ x) < byteSize (spell qs) + byteSize q.text := by
  have hpos := c.utf8Size_pos
  rw [htext, byteSize_append, byteSize_append, byteSize_cons]
  omega

/-- The characters of strings and characters are literals. -/
theorem classOf_eq_literal_iff (htext : q.text = x ++ c :: z) (stop : Span) :
    q.classOf c = .literal ↔
      Lexemes.InLiteral ⟨place .start (qs ++ q :: rs), stop⟩ (byteSize (spell qs ++ x)) := by
  obtain ⟨hlow, hhigh⟩ := byteSize_of_mem_piece qs htext
  have hoffset (front : List Char) : (Position.start.after front).offset = byteSize front := by
    rw [Position.offset_after, Position.start, Nat.zero_add]
  constructor
  · intro hclass
    obtain ⟨t, htoken, hquoted⟩ : ∃ t, q.token = some t ∧ t.isQuoted = true := by
      unfold Piece.classOf at hclass
      split at hclass
      · next t htoken => exact ⟨t, htoken, by simpa using hclass⟩
      · split at hclass <;> simp at hclass
    refine ⟨⟨t, _⟩, mem_place_iff.2 ⟨qs, q, rs, rfl, htoken, rfl⟩, hquoted, ?_⟩
    simp only [hoffset]
    exact ⟨hlow, hhigh⟩
  · rintro ⟨t, ht, hquoted, hlow', hhigh'⟩
    obtain ⟨qs', q', rs', hsame, htoken, hplace⟩ := mem_place_iff.1 ht
    rw [hplace, Span.ofText, hoffset] at hlow' hhigh'
    obtain ⟨-, rfl⟩ := eq_of_covered hsame hlow hhigh hlow' hhigh'
    rw [Piece.classOf, htoken]
    exact if_pos hquoted

/-- The characters of a comment that the lexer skips are in a comment. -/
theorem inComment_of_classOf (hcuts : Cuts cs (qs ++ q :: rs) [])
    (htext : q.text = x ++ c :: z) (hclass : q.classOf c = .comment) :
    InComment cs (byteSize (spell qs ++ x)) := by
  obtain ⟨mid, hqs, hq⟩ := hcuts.exists_mid
  cases hq with
  | @blank e u mid' _ _ hstep _ =>
    obtain ⟨z', rest, hmid, hopened⟩ := exists_isComment_of_step hstep htext hclass
    refine ⟨qs, _, rest, hmid ▸ hqs, hopened, (byteSize_of_mem_piece qs htext).1, ?_⟩
    have hpos := c.utf8Size_pos
    rw [byteSize_append, byteSize_append, byteSize_cons]
    omega
  | token =>
    simp only [Piece.classOf] at hclass
    split at hclass <;> simp at hclass

/-- What is in a comment is skipped by the lexer as one. -/
theorem classOf_of_inComment (hcuts : Cuts cs (qs ++ q :: rs) [])
    (htext : q.text = x ++ c :: z) (hin : InComment cs (byteSize (spell qs ++ x))) :
    q.classOf c = .comment := by
  obtain ⟨hlow, hhigh⟩ := byteSize_of_mem_piece qs htext
  obtain ⟨front, text, rest, hfront, hopened, hlow', hhigh'⟩ := hin
  obtain ⟨u, tail, hcomment, hclass⟩ := exists_cuts_of_isComment hopened
  obtain ⟨more, hsame, -⟩ := (hfront.append hcomment).exists_append hcuts (Nat.zero_le _)
  rw [List.append_assoc] at hsame
  have hcovered : byteSize (spell qs ++ x) < byteSize (spell front) + byteSize (text ++ u) := by
    rw [byteSize_append text]
    omega
  obtain ⟨rfl, rfl⟩ := eq_of_covered hsame hlow hhigh hlow' hcovered
  refine hclass c ?_
  -- the character stands in front of the line break that ends the comment
  obtain ⟨y, rfl, -⟩ | ⟨y, rfl, hy⟩ := List.append_eq_append_iff.1 htext
  · rw [byteSize_append, byteSize_append] at hhigh'
    omega
  · cases y with
    | nil => simp at hhigh'
    | cons d y =>
      obtain ⟨rfl, -⟩ := List.cons.inj hy
      simp

end Agreement

/-- **The scanner and the lexer agree on what is code.** In a text with tokens, none of them a text
block, the scanner finds literals exactly where strings and characters stand, comments exactly where
the lexer skips comments, their last line breaks excluded, and code everywhere else. -/
theorem class_of_lex {cs : List Char} {tokens : Lexemes} (hlex : lex cs = .ok tokens)
    (hblock : ∀ t ∈ tokens.list, ¬ t.IsTextBlock cs) {xs ys : List (Char × CharClass)} {c : Char}
    {k : CharClass} (hsplit : classify .code cs = xs ++ (c, k) :: ys) :
    (k = .literal ↔ tokens.InLiteral (byteSize (xs.map Prod.fst))) ∧
      (k = .comment ↔ InComment cs (byteSize (xs.map Prod.fst))) ∧
      (k = .code ↔ ¬ tokens.InLiteral (byteSize (xs.map Prod.fst)) ∧
        ¬ InComment cs (byteSize (xs.map Prod.fst))) := by
  obtain ⟨ps, hcuts, rfl⟩ := exists_cuts_of_lex hlex
  rw [hcuts.classify_eq fun q hq => hcuts.newline_not_mem hblock hq] at hsplit
  obtain ⟨qs, q, rs, x, z, rfl, hfront, htext, rfl⟩ := exists_piece_of_classified hsplit
  rw [hfront]
  have hliteral : q.classOf c = .literal ↔
      Lexemes.InLiteral ⟨place .start (qs ++ q :: rs), Span.ofText (Position.start.after cs) []⟩
        (byteSize (spell qs ++ x)) := classOf_eq_literal_iff htext _
  have hcomment : q.classOf c = .comment ↔ InComment cs (byteSize (spell qs ++ x)) :=
    ⟨inComment_of_classOf hcuts htext, classOf_of_inComment hcuts htext⟩
  refine ⟨hliteral, hcomment, ?_⟩
  rw [← hliteral, ← hcomment]
  cases q.classOf c <;> simp

/-- A quote mark as a character, and another one in a comment that starts like one that is
closed. -/
def twoQuotes : List Char := "\'\"\'/*/\"*/x".toList

/-- The second quote mark opens no literal. -/
theorem class_of_twoQuotes :
    ∃ tokens, lex twoQuotes = .ok tokens ∧ tokens.InLiteral 1 ∧ InComment twoQuotes 6 ∧
      ¬ tokens.InLiteral 9 ∧ ¬ InComment twoQuotes 9 := by
  have hsome : (lex twoQuotes).toOption.any (fun tokens => decide
      (∀ t ∈ tokens.list, ¬ t.IsTextBlock twoQuotes)) = true := by decide +kernel
  obtain ⟨tokens, hlex, hblock⟩ := exists_ok_of_any hsome
  have hblock : ∀ t ∈ tokens.list, ¬ t.IsTextBlock twoQuotes := of_decide_eq_true hblock
  have hfirst : classify .code twoQuotes =
      [('\'', .literal)] ++ ('"', .literal) :: (classify .code twoQuotes).drop 2 := by decide
  have hsecond : classify .code twoQuotes = (classify .code twoQuotes).take 6 ++
      ('"', .comment) :: (classify .code twoQuotes).drop 7 := by decide
  have hlast : classify .code twoQuotes =
      (classify .code twoQuotes).take 9 ++ [('x', .code)] := by decide
  exact ⟨tokens, hlex, (class_of_lex hlex hblock hfirst).1.1 rfl,
    (class_of_lex hlex hblock hsecond).2.1.1 rfl, (class_of_lex hlex hblock hlast).2.2.1 rfl⟩

end SnippetRunner
