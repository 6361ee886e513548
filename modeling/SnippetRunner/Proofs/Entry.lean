import Mathlib
import SnippetRunner.Program.Interpret
import SnippetRunner.Proofs.Places

/-!
# The `main` that is launched and the `main` that is interpreted

A program is launched at the type with the name of its entry, and interpreted at the first static
`main` of its text, nested types included. The two are the same method iff no static `main` stands
in front of it, in a type in front, at whatever depth, or in its own type
(`Program.runs_launched_main_iff`).
-/

namespace SnippetRunner

/-! ## The first `main` of several types -/

namespace TypeDecl

theorem firstMain?_append (ts us : List TypeDecl) :
    firstMain? (ts ++ us) = (firstMain? ts).or (firstMain? us) := by
  induction ts with
  | nil => rw [List.nil_append, firstMain?, Option.none_or]
  | cons t ts ih => rw [List.cons_append, firstMain?, firstMain?, ih, Option.or_assoc]

mutual

/-- The first `main` of a type is one of its methods, or one of those of its nested types. -/
theorem declares_of_main? {m : MethodDecl} : (t : TypeDecl) → t.main? = some m → t.Declares m
  | ⟨kind, name, mods, methods, nested, span⟩, h => by
    rw [main?, Option.or_eq_some_iff] at h
    rcases h with h | ⟨-, h⟩
    · exact .own (List.mem_of_find?_eq_some h)
    · obtain ⟨u, hu, hm⟩ := declares_of_firstMain? nested h
      exact .nested hu hm

theorem declares_of_firstMain? {m : MethodDecl} :
    (ts : List TypeDecl) → firstMain? ts = some m → ∃ t ∈ ts, t.Declares m
  | [], h => by simp [firstMain?] at h
  | t :: ts, h => by
    rw [firstMain?, Option.or_eq_some_iff] at h
    rcases h with h | ⟨-, h⟩
    · exact ⟨t, List.mem_cons_self, declares_of_main? t h⟩
    · obtain ⟨u, hu, hm⟩ := declares_of_firstMain? ts h
      exact ⟨u, List.mem_cons_of_mem t hu, hm⟩

end

/-- The own methods of a type come first. -/
theorem main?_of_methods {t : TypeDecl} {m : MethodDecl} {earlier later : List MethodDecl}
    (hmethods : t.methods = earlier ++ m :: later) (hm : m.isMain = true) :
    t.main? = (earlier.find? MethodDecl.isMain).or (some m) := by
  obtain ⟨kind, name, mods, methods, nested, span⟩ := t
  dsimp only at hmethods
  subst hmethods
  rw [main?, List.find?_append, List.find?_cons_of_pos hm, Option.or_assoc, Option.some_or]

end TypeDecl

namespace Program

/-! ## The statements of a method -/

/-- The statements that the interpreter finds for the first `main`: those of its body, and if it
has none those between the braces that look like the body of a `main`, or else the whole text. -/
def fragmentsOf (p : Program) (m : MethodDecl) : List Fragment :=
  match m.body with
  | some body => Fragment.split (body.text p.text) (Fragment.lineAt p.text body.start)
  | none =>
    match Fragment.mainBody? p.text with
    | some (position, body) => Fragment.split body (Fragment.lineAt p.text position)
    | none => Fragment.split p.text 1

theorem fragmentsOf_of_body {p : Program} {m : MethodDecl} {body : Span} (h : m.body = some body) :
    p.fragmentsOf m =
      Fragment.split (body.text p.text) (Fragment.lineAt p.text body.start) := by
  rw [fragmentsOf, h]

theorem fragments_of_main? {p : Program} {unit : CompilationUnit} {m : MethodDecl}
    (hparse : CompilationUnit.parse p.text = .ok unit) (hmain : unit.main? = some m) :
    p.fragments = p.fragmentsOf m := by
  cases hbody : m.body with
  | none =>
    cases hfound : Fragment.mainBody? p.text with
    | none => simp [fragments, fragmentsOf, hparse, hmain, hbody, hfound, Except.toOption]
    | some found => simp [fragments, fragmentsOf, hparse, hmain, hbody, hfound, Except.toOption]
  | some body => simp [fragments, fragmentsOf, hparse, hmain, hbody, Except.toOption]

/-! ## The method that is launched -/

/-- `p.Launches unit before earlier m`: among the types of `unit`, behind `before`, stands one with
the name of the entry of `p`, and among its methods, behind `earlier`, the static `main` `m`. -/
def Launches (p : Program) (unit : CompilationUnit) (before : List TypeDecl)
    (earlier : List MethodDecl) (m : MethodDecl) : Prop :=
  ∃ t after later, unit.types = before ++ t :: after ∧ t.name.toList = p.entry ∧
    t.methods = earlier ++ m :: later ∧ m.isMain = true

/-- The first static `main` in front of a method: of the types in front of its own, nested ones
included, and of the methods in front of it in its own type. -/
def mainAhead? (before : List TypeDecl) (earlier : List MethodDecl) : Option MethodDecl :=
  (TypeDecl.firstMain? before).or (earlier.find? MethodDecl.isMain)

section Launches

variable {p : Program} {unit : CompilationUnit} {before : List TypeDecl}
  {earlier : List MethodDecl} {m : MethodDecl}

theorem Launches.main? (h : p.Launches unit before earlier m) :
    unit.main? = (mainAhead? before earlier).or (some m) := by
  obtain ⟨t, after, later, htypes, -, hmethods, hm⟩ := h
  rw [CompilationUnit.main?, htypes, TypeDecl.firstMain?_append, TypeDecl.firstMain?,
    TypeDecl.main?_of_methods hmethods hm, mainAhead?]
  simp only [Option.or_assoc, Option.some_or]

/-- A `main` ahead stands in front of the one that is launched. -/
theorem Launches.startsBefore {other : MethodDecl} {cs : List Char}
    (h : p.Launches unit before earlier m) (hparse : CompilationUnit.parse cs = .ok unit)
    (hother : mainAhead? before earlier = some other) : other.StartsBefore m := by
  obtain ⟨t, after, later, htypes, -, hmethods, -⟩ := h
  obtain ⟨hpairs, hordered⟩ := pairwise_isBefore_of_parse hparse
  rw [mainAhead?, Option.or_eq_some_iff] at hother
  rcases hother with hother | ⟨-, hother⟩
  · obtain ⟨u, hu, hdeclares⟩ := TypeDecl.declares_of_firstMain? before hother
    rw [htypes, List.pairwise_append] at hpairs
    have hbefore : u.IsBefore t := hpairs.2.2 u hu t List.mem_cons_self
    exact hbefore other m hdeclares (.own (by rw [hmethods]; simp))
  · have hmem : t ∈ unit.types := by rw [htypes]; simp
    have horder := hordered t hmem
    rw [hmethods, List.pairwise_append] at horder
    exact horder.2.2 other (List.mem_of_find?_eq_some hother) m List.mem_cons_self

end Launches

/-- **The interpreter runs the `main` that is launched iff no other `main` stands in front of it.**
For a text that is a program as it is, and a `main` with a body in the type of its entry, the
statements that run are those of this body iff those of the first `main` ahead are the same. -/
theorem runs_launched_main_iff {snippet : List Char} {unit : CompilationUnit}
    {before : List TypeDecl} {earlier : List MethodDecl} {m : MethodDecl} {body : Span}
    (hasis : (ofSnippet snippet).origins = none)
    (hparse : CompilationUnit.parse snippet = .ok unit)
    (hlaunches : (ofSnippet snippet).Launches unit before earlier m) (hbody : m.body = some body) :
    (unit.main? = some m ↔ mainAhead? before earlier = none) ∧
      ((ofSnippet snippet).fragments =
          Fragment.split (body.text snippet) (Fragment.lineAt snippet body.start) ↔
        ∀ other, mainAhead? before earlier = some other →
          (ofSnippet snippet).fragmentsOf other =
            Fragment.split (body.text snippet) (Fragment.lineAt snippet body.start)) := by
  have htext : (ofSnippet snippet).text = snippet := by
    unfold ofSnippet at hasis ⊢
    split
    · rfl
    · simp_all
  have hmain := hlaunches.main?
  rw [← htext] at hparse
  cases hahead : mainAhead? before earlier with
  | none =>
    rw [hahead, Option.none_or] at hmain
    have hfragments := (fragments_of_main? hparse hmain).trans (fragmentsOf_of_body hbody)
    rw [htext] at hfragments
    exact ⟨by simp [hmain], by simp [hfragments]⟩
  | some other =>
    rw [hahead, Option.some_or] at hmain
    have hne : other ≠ m := by
      rintro rfl
      exact Nat.lt_irrefl _ (hlaunches.startsBefore hparse hahead)
    rw [fragments_of_main? hparse hmain]
    refine ⟨by simp [hmain, hne], ?_⟩
    constructor
    · intro hsame n hn
      rwa [← Option.some.inj hn]
    · intro hsame
      exact hsame other rfl

/-- Two types with a `main` each. The second one is `public`, and so the entry. -/
def twoMains : List Char :=
  "class A\x7bstatic void main()\x7bf();\x7d\x7d".toList ++
    "public class B\x7bstatic void main()\x7bg();\x7d\x7d".toList

/-- The `main` of the first type. -/
def mainOfA : MethodDecl where
  name := "main"
  modifiers := ["static"]
  params := ⟨25, 25, 1, 26⟩
  body := some ⟨27, 31, 1, 28⟩
  span := ⟨8, 32, 1, 9⟩

/-- The `main` of the second type. -/
def mainOfB : MethodDecl where
  name := "main"
  modifiers := ["static"]
  params := ⟨65, 65, 1, 66⟩
  body := some ⟨67, 71, 1, 68⟩
  span := ⟨48, 72, 1, 49⟩

/-- The first type. -/
def typeA : TypeDecl := ⟨.classKind, "A", [], [mainOfA], [], ⟨0, 33, 1, 1⟩⟩

/-- The second type. -/
def typeB : TypeDecl := ⟨.classKind, "B", ["public"], [mainOfB], [], ⟨33, 73, 1, 34⟩⟩

theorem runs_main_ahead_of_launched :
    (ofSnippet twoMains).origins = none ∧
      CompilationUnit.parse twoMains = .ok ⟨none, [], [typeA, typeB]⟩ ∧
      (ofSnippet twoMains).Launches ⟨none, [], [typeA, typeB]⟩ [typeA] [] mainOfB ∧
      mainOfB.body = some ⟨67, 71, 1, 68⟩ ∧
      CompilationUnit.main? ⟨none, [], [typeA, typeB]⟩ ≠ some mainOfB ∧
      (ofSnippet twoMains).fragments ≠
        Fragment.split ((⟨67, 71, 1, 68⟩ : Span).text twoMains) (Fragment.lineAt twoMains 67) := by
  have hasis : (ofSnippet twoMains).origins = none := by decide
  have hparse : CompilationUnit.parse twoMains = .ok ⟨none, [], [typeA, typeB]⟩ := by cbv
  have hlaunches : (ofSnippet twoMains).Launches ⟨none, [], [typeA, typeB]⟩ [typeA] [] mainOfB :=
    ⟨typeB, [], [], rfl, by decide, rfl, rfl⟩
  have hahead : mainAhead? [typeA] [] = some mainOfA := rfl
  have hiff := runs_launched_main_iff hasis hparse hlaunches rfl
  rw [hahead] at hiff
  refine ⟨hasis, hparse, hlaunches, rfl, fun h => by simpa using hiff.1.1 h, fun h => ?_⟩
  have hsame := hiff.2.1 h mainOfA rfl
  revert hsame
  decide

end Program

end SnippetRunner
