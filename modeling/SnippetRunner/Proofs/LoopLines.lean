import SnippetRunner.Proofs.Limits
import SnippetRunner.Proofs.Origins

/-!
# The line of a loop that is stopped

A loop that is not done in time stops the run, and the report points at the line of the snippet on
which the loop starts (`Program.interpret_of_loopLimit`).

* What stops the run is a loop by its first word, and the stop holds its line (`exceeds_shape`).
* A walk of a run over statements is also one over the text they are cut from (`Run.ComesToAt`):
  into the piece of a statement for its parts, and behind it for the next statement.
* The statements of a program are cut from one stretch of its text, whichever way its `main` is
  found (`Program.exists_fragments_eq`), and the stretch comes from the snippet
  (`Program.exists_comesFrom`).
-/

namespace SnippetRunner

open Text Scan Statement

/-! ## Loops -/

namespace Run

variable {f : Fragment} {bodies : List Statement} {limit line : Nat} {m m' : Machine}

/-- A statement that is not done in time is a loop, and stops the run on its own line. -/
theorem exceeds_shape (h : Exceeds (shape f bodies) (.loopLimit limit line) m m') :
    (String.ofList f.keyword = "for" ∨ String.ofList f.keyword = "while") ∧ line = f.line ∧
      limit = m.limits.iterations := by
  unfold shape at h
  split at h
  · next formats _ _ =>
    cases formats <;> cases h
  · dsimp only at h
    split_ifs at h with hfor hwhile
    · split at h
      · unfold forLoop at h
        split at h
        · cases h with
          | counted => exact ⟨.inl hfor, rfl, rfl⟩
        · split at h
          · cases h with
            | forEach => exact ⟨.inl hfor, rfl, rfl⟩
          · cases h
      · cases h
    · split at h
      · unfold whileLoop at h
        split at h
        · cases h
        · cases h with
          | while_ => exact ⟨.inr hwhile, rfl, rfl⟩
      · cases h
    · cases h
    · cases h
    · unfold readSimple at h
      split at h
      · cases h
      · split at h <;> cases h

theorem limits_eq_of_exceeds (h : Exceeds (shape f bodies) (.loopLimit limit line) m m') :
    m'.limits = m.limits := by
  have hstops := (exec_frame_eq_error_iff (s := .loopLimit limit line) trivial (frame_shape f)).2
    (.inl h)
  have hgrows := grows_exec (shape f bodies) m
  rw [hstops] at hgrows
  exact hgrows.limits_eq

end Run

/-! ## Runs over a text -/

namespace Fragment

/-- `InOrder cs fs`: the statements `fs` are cut from pieces of the scanned text `cs`, one piece
behind another. -/
inductive InOrder : List (Char × CharClass) → List Fragment → Prop
  | nil (cs : List (Char × CharClass)) : InOrder cs []
  | cons {front own back : List (Char × CharClass)} {f : Fragment} {fs : List Fragment} :
      f.IsCutFrom own → InOrder back fs → InOrder (front ++ (own ++ back)) (f :: fs)

theorem Laid.inOrder {line : Nat} {cs : List (Char × CharClass)} {fs : List Fragment}
    (h : Laid line cs fs) : InOrder cs fs := by
  induction h with
  | nil => exact .nil _
  | cons hcut _ _ ih => exact .cons hcut ih

end Fragment

namespace Run

open Fragment

variable {line : Nat} {cs : List (Char × CharClass)} {fs : List Fragment} {g : Fragment}
  {m m' : Machine} {before : List Char}

/-- `ComesToAt cs fs m before g m'`: a run of the statements `fs`, which stand in the scanned text
`cs` one behind another, comes from `m` to the statement `g` at `m'`, and `before` is the text in
front of the place of `g`. The parts of a statement stand in its own piece of the text. -/
inductive ComesToAt : List (Char × CharClass) → List Fragment → Machine → List Char → Fragment →
    Machine → Prop
  | here {front own back : List (Char × CharClass)} {f : Fragment} {fs : List Fragment}
      {m : Machine} : m.limits.timeout ≠ 0 → f.IsCutFrom own → InOrder back fs →
        ComesToAt (front ++ (own ++ back)) (f :: fs) m (front.map Prod.fst) f m
  | later {front own back : List (Char × CharClass)} {f g : Fragment} {fs : List Fragment}
      {m m₁ m' : Machine} {before : List Char} : exec (Statement.read f) m = .ok () m₁ →
        f.IsCutFrom own → ComesToAt back fs m₁ before g m' →
        ComesToAt (front ++ (own ++ back)) (f :: fs) m ((front ++ own).map Prod.fst ++ before) g m'
  | inside {front own back : List (Char × CharClass)} {f g : Fragment} {fs : List Fragment}
      {m m₁ m' : Machine} {before : List Char} :
        Enters (shape f ((parts f).map Statement.read)) m m₁ → f.IsCutFrom own → InOrder back fs →
        ComesToAt own (parts f) m₁ before g m' →
        ComesToAt (front ++ (own ++ back)) (f :: fs) m (front.map Prod.fst ++ before) g m'

/-- The statement stands in the text at the place that the run comes to. -/
theorem ComesToAt.exists_isCutFrom (h : ComesToAt cs fs m before g m') :
    ∃ front own back, cs = front ++ (own ++ back) ∧ before = front.map Prod.fst ∧
      g.IsCutFrom own := by
  induction h with
  | @here front own back _ _ _ _ hcut => exact ⟨front, own, back, rfl, rfl, hcut⟩
  | @later front own _ _ _ _ _ _ _ _ _ _ _ ih =>
    obtain ⟨front', own', back', rfl, rfl, hcut⟩ := ih
    exact ⟨front ++ own ++ front', own', back', by simp, by simp, hcut⟩
  | @inside front _ back _ _ _ _ _ _ _ _ _ _ _ ih =>
    obtain ⟨front', own', back', rfl, rfl, hcut⟩ := ih
    exact ⟨front ++ front', own', back' ++ back, by simp, by simp, hcut⟩

/-- **A run over statements is a run over their text**, and each statement it comes to is reported
on the line of its place there. -/
theorem ComesTo.exists_comesToAt (h : ComesTo fs m g m') (hlaid : Laid line cs fs)
    (hno : ∀ f ∈ fs, Uncommented .code f.text) :
    ∃ before, ComesToAt cs fs m before g m' ∧ g.line = line + newlines before := by
  induction h generalizing line cs with
  | here htime =>
    cases hlaid with
    | cons hcut hline hback => exact ⟨_, .here htime hcut hback.inOrder, hline⟩
  | later hok _ ih =>
    cases hlaid with
    | cons hcut hline hback =>
      obtain ⟨before, hcomes, hg⟩ := ih hback fun f hf => hno f (List.mem_cons_of_mem _ hf)
      refine ⟨_, .later hok hcut hcomes, ?_⟩
      rw [hg, newlines_append, ← Nat.add_assoc]
      rfl
  | @inside f _ _ _ _ _ henters _ ih =>
    cases hlaid with
    | cons hcut hline hback =>
      have hparts := laid_parts hcut (hno f List.mem_cons_self)
      obtain ⟨before, hcomes, hg⟩ := ih hparts fun g hg => uncommented_of_mem_parts hg
      refine ⟨_, .inside henters hcut hback.inOrder hcomes, ?_⟩
      rw [hg, hline, newlines_append, ← Nat.add_assoc]
      rfl

end Run

/-! ## Programs -/

namespace Program

open Run Fragment

/-- The body that is found by matching braces stands in the text at its position. -/
theorem exists_of_mainBody? {cs body : List Char} {position : Nat}
    (h : mainBody? cs = some (position, body)) :
    ∃ front back, cs = front ++ (body ++ back) ∧ byteSize front = position := by
  simp only [mainBody?, Option.bind_eq_bind, Option.bind_eq_some_iff] at h
  obtain ⟨_, -, ⟨_, _⟩, -, distance, -, ⟨before, block⟩, hcut, ⟨inner, rest⟩, hclose, hbody⟩ := h
  obtain ⟨rfl, rfl⟩ := Prod.mk.inj (Option.some.inj hbody)
  refine ⟨before ++ ['{'], '}' :: rest, ?_, ?_⟩
  · have hgroup : block = '{' :: inner ++ '}' :: rest := eq_of_closing? (by decide) hclose
    rw [← append_of_cut? hcut, hgroup]
    simp
  · rw [byteSize_append, byteSize_of_cut? hcut]
    rfl

/-- **The statements that the interpreter runs are cut from a stretch of the program**, whether its
`main` is found by the grammar or by matching braces, or the whole text is run. -/
theorem exists_fragments_eq {p : Program} (h : p.fragments ≠ []) :
    ∃ front body back, p.text = front ++ (body ++ back) ∧
      p.fragments = split body (newlines front + 1) := by
  unfold fragments at h ⊢
  dsimp only at h ⊢
  split at h
  · next span _ =>
    have hbody : span.text p.text ≠ [] := by
      intro hnil
      rw [hnil] at h
      exact h rfl
    obtain ⟨front, back, htext, hsize⟩ := exists_of_slice_ne_nil hbody
    exact ⟨front, span.text p.text, back, htext, by rw [← hsize, lineAt_byteSize htext]⟩
  · split at h
    · next position body hmain =>
      obtain ⟨front, back, htext, rfl⟩ := exists_of_mainBody? hmain
      exact ⟨front, body, back, htext, by rw [lineAt_byteSize htext]⟩
    · exact ⟨[], p.text, [], (List.append_nil _).symm, rfl⟩

/-- Whether a run of a program comes to the statement `f` at the machine `m`, where `before` is the
text of the program in front of the place of `f`. -/
def ComesToAt (p : Program) (limits : Limits) (before : List Char) (f : Fragment) (m : Machine) :
    Prop :=
  ∃ front body back inner, p.text = front ++ (body ++ back) ∧
    p.fragments = split body (newlines front + 1) ∧ before = front ++ inner ∧
    Run.ComesToAt (classify .code body) p.fragments (.start limits) inner f m

/-- A statement that a run comes to stands in the program, and is reported on its line. -/
theorem exists_comesToAt {p : Program} {limits : Limits} {f : Fragment} {m : Machine}
    (h : ComesTo p.fragments (.start limits) f m) :
    ∃ before c after, p.ComesToAt limits before f m ∧ p.text = before ++ c :: after ∧
      f.text.head? = some c ∧ f.line = newlines before + 1 := by
  have hne : p.fragments ≠ [] := by
    intro hnil
    rw [hnil] at h
    cases h
  obtain ⟨front, body, back, htext, hfragments⟩ := exists_fragments_eq hne
  have hlaid := laid_split body (newlines front + 1)
  rw [← hfragments] at hlaid
  obtain ⟨inner, hcomes, hline⟩ :=
    h.exists_comesToAt hlaid fun f hf => uncommented_of_mem_fragments hf
  obtain ⟨front', own, back', hclass, rfl, hcut⟩ := hcomes.exists_isCutFrom
  obtain ⟨x, rest, rfl, hcls, -⟩ := hcut.starts
  have hbody := congrArg (List.map Prod.fst) hclass
  rw [map_fst_classify] at hbody
  refine ⟨front ++ front'.map Prod.fst, x.1, rest.map Prod.fst ++ back'.map Prod.fst ++ back,
    ⟨front, body, back, _, htext, hfragments, rfl, hcomes⟩, ?_, ?_, ?_⟩
  · rw [htext, hbody]
    simp
  · rw [hcut.text_eq, keptOf_cons_of_isKept (by simp [isKept, hcls])]
    rfl
  · rw [hline, newlines_append]
    omega

/-- The first character of a loop is one that the lines around a snippet do not have. -/
theorem head?_of_keyword {f : Fragment} {c : Char}
    (h : String.ofList f.keyword = "for" ∨ String.ofList f.keyword = "while")
    (hc : f.text.head? = some c) : c = 'f' ∨ c = 'w' := by
  obtain ⟨rest, htext⟩ := List.head?_eq_some_iff.1 hc
  have hfirst {word : String} (hword : String.ofList f.keyword = word) (d : Char) (ds : List Char)
      (hd : word.toList = d :: ds) : c = d := by
    rw [← hword, String.toList_ofList, Fragment.keyword, htext, List.takeWhile_cons] at hd
    split at hd
    · exact (List.cons.inj hd).1
    · cases hd
  rcases h with h | h
  · exact .inl (hfirst h 'f' ['o', 'r'] (by decide))
  · exact .inr (hfirst h 'w' ['h', 'i', 'l', 'e'] (by decide))

theorem limits_eq_of_execute {p : Program} {limits : Limits} {stop : Stop} {m : Machine}
    (h : p.execute limits = .error stop m) : m.limits = limits := by
  have hrun : execAll p.statements (.start limits) = p.execute limits := rfl
  have hgrows := grows_execAll p.statements (.start limits)
  rw [hrun, h] at hgrows
  exact hgrows.limits_eq

/-- A run that a loop stops has come to the loop. -/
theorem exists_exceeds_of_execute {p : Program} {limits : Limits} {limit line : Nat} {m : Machine}
    (h : p.execute limits = .error (.loopLimit limit line) m) :
    ∃ f m₁, ComesTo p.fragments (.start limits) f m₁ ∧
      Exceeds (shape f ((parts f).map Statement.read)) (.loopLimit limit line) m₁ m ∧
      (String.ofList f.keyword = "for" ∨ String.ofList f.keyword = "while") ∧ line = f.line ∧
      limit = limits.iterations := by
  have hno : ∀ f ∈ p.fragments, Uncommented .code f.text := fun _ => uncommented_of_mem_fragments
  obtain ⟨depth, hdepth⟩ := exists_depth p.fragments
  obtain ⟨f, m₁, hcomes, ⟨hblock, -⟩ | hexceeds⟩ :=
    exists_comesTo_of_execAll_eq_error (s := .loopLimit limit line) trivial hdepth hno h
  · cases hblock
  · obtain ⟨hkeyword, hline, hlimit⟩ := exceeds_shape hexceeds
    rw [← limits_eq_of_exceeds hexceeds, limits_eq_of_execute h] at hlimit
    exact ⟨f, m₁, hcomes, hexceeds, hkeyword, hline, hlimit⟩

theorem outcomeOf_loopLimit {p : Program} {line n : Nat} (h : p.sourceLine? line = some n)
    (limit : Nat) (m : Machine) :
    p.outcomeOf (.error (.loopLimit limit line) m) =
      (Outcome.failed ("Runtime error: " ++ s!"loop at line {n} exceeded {limit} iterations")
        [.error s!"loop at line {n} exceeded {limit} iterations" (some n)]
        .interpreter).withOutput m.console.text := by
  have hmessage : (Stop.loopLimit limit n).message =
      s!"loop at line {n} exceeded {limit} iterations" := rfl
  rw [outcomeOf, Stop.mapLine, h, Option.getD_some, hmessage, Stop.line?]

/-- **The report of a loop points at the loop.** If a run stops because a loop ran its body as often
as it may, then this is a loop that the run comes to, at whatever depth, and its first word starts
in the program at a place that comes from the snippet. The message and the diagnostic have the line
of that place in the snippet. -/
theorem interpret_of_loopLimit {snippet : List Char} {limits : Limits} {limit line : Nat}
    {m : Machine}
    (h : (ofSnippet snippet).execute limits = .error (.loopLimit limit line) m) :
    ∃ f m₁ before after place rest c,
      (ofSnippet snippet).ComesToAt limits before f m₁ ∧
      Exceeds (shape f ((parts f).map Statement.read)) (.loopLimit limit line) m₁ m ∧
      (String.ofList f.keyword = "for" ∨ String.ofList f.keyword = "while") ∧
      f.text.head? = some c ∧ (ofSnippet snippet).text = before ++ c :: after ∧
      snippet = place ++ c :: rest ∧ ComesFrom snippet before after place rest ∧
      (ofSnippet snippet).interpret limits =
        (Outcome.failed ("Runtime error: " ++
            s!"loop at line {newlines place + 1} exceeded {limits.iterations} iterations")
          [.error s!"loop at line {newlines place + 1} exceeded {limits.iterations} iterations"
            (some (newlines place + 1))] .interpreter).withOutput m.console.text := by
  obtain ⟨f, m₁, hcomes, hexceeds, hkeyword, rfl, rfl⟩ := exists_exceeds_of_execute h
  obtain ⟨before, c, after, hat, htext, hhead, hline⟩ := exists_comesToAt hcomes
  obtain ⟨place, rest, hsnippet, hfrom, horigin⟩ :=
    exists_comesFrom (head?_of_keyword hkeyword hhead) htext
  refine ⟨f, m₁, before, after, place, rest, c, hat, hexceeds, hkeyword, hhead, htext, hsnippet,
    hfrom, ?_⟩
  rw [interpret, h, hline]
  exact outcomeOf_loopLimit horigin _ m

/-- A snippet with an import, comments and a header on two lines in front of a loop in a block in a
loop. -/
def nestedLoops : List Char :=
  ("// counts\nimport java.util.List;\nint i = 0;\n/* for\n */ for (int k = 0;\n" ++
    "  k < 2; k++) \x7b\n  \x7b // while\n    while (true)\n      i++;\n  \x7d\n\x7d\n").toList

/-- The inner loop is reported on the line of the snippet on which its `while` stands. -/
theorem interpret_of_nestedLoops : ∃ m place c rest,
    (ofSnippet nestedLoops).execute ⟨3, 100, 9⟩ = .error (.loopLimit 3 11) m ∧
      nestedLoops = place ++ c :: rest ∧ newlines place + 1 = 8 ∧
      ((ofSnippet nestedLoops).interpret ⟨3, 100, 9⟩).diagnostics =
        [.error "loop at line 8 exceeded 3 iterations" (some 8)] := by
  have hstop : ∃ m, (ofSnippet nestedLoops).execute ⟨3, 100, 9⟩ = .error (.loopLimit 3 11) m := by
    have hrun : (match (ofSnippet nestedLoops).execute ⟨3, 100, 9⟩ with
        | .error stop _ => decide (stop = .loopLimit 3 11)
        | .ok _ _ => false) = true := by decide +kernel
    split at hrun
    · next stop m hm => exact ⟨m, by rw [hm, of_decide_eq_true hrun]⟩
    · cases hrun
  obtain ⟨m, hm⟩ := hstop
  have hline : ((ofSnippet nestedLoops).interpret ⟨3, 100, 9⟩).diagnostics =
      [.error "loop at line 8 exceeded 3 iterations" (some 8)] := by
    have hsource : (ofSnippet nestedLoops).sourceLine? 11 = some 8 := by decide +kernel
    rw [interpret, hm, outcomeOf_loopLimit hsource]
    rfl
  obtain ⟨_, _, _, _, place, rest, c, _, _, _, _, _, hsnippet, _, hreport⟩ :=
    interpret_of_loopLimit hm
  refine ⟨m, place, c, rest, hm, hsnippet, ?_, hline⟩
  rw [hreport] at hline
  exact Option.some.inj (congrArg Diagnostic.line (List.cons.inj hline).1)

end Program

end SnippetRunner
