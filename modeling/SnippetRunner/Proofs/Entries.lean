import Mathlib.Data.List.Induction
import Mathlib.Data.List.Pairwise
import Mathlib.Tactic.Common
import SnippetRunner.Value

/-!
# Maps as sequences of puts

A map that is filled by puts is a finite map: the keys of its entries are pairwise unequal, they
stand in the order in which they first came, and each has the value it was given last
(`Value.putAll_emptyMap`). Puts with unequal keys commute up to the order of the entries.

* The equality of values is symmetric and transitive (`Value.same_comm`, `Value.same_trans`). It is
  not reflexive: a value with a NaN in it equals nothing, so that each put under it makes an entry.
* One put replaces a value where it stands or adds an entry behind all others
  (`Value.putEntry_of_exists`, `Value.putEntry_of_forall`), and leaves the keys unequal.
* `Value.creating` are the puts that make an entry, and `Value.entriesOf` are the entries that a
  sequence of puts leaves; one more put leads from one to the next (`Value.putEntry_entriesOf`).
-/

namespace SnippetRunner

namespace Value

/-! ## Equality -/

theorem sameDouble_comm (x y : Float) : sameDouble x y = sameDouble y x := by
  unfold sameDouble
  dsimp only
  rw [BEq.comm (a := x.toBits), Bool.and_comm (decide _), Bool.and_comm (_ == _)]

theorem sameDouble_trans {x y z : Float} (h : sameDouble x y = true) (h' : sameDouble y z = true) :
    sameDouble x z = true := by
  simp only [sameDouble, Bool.and_eq_true, Bool.or_eq_true, beq_iff_eq] at h h' ⊢
  obtain ⟨⟨hx, -⟩, hxy⟩ := h
  obtain ⟨⟨-, hz⟩, hyz⟩ := h'
  refine ⟨⟨hx, hz⟩, ?_⟩
  rcases hxy with hxy | hxy <;> rcases hyz with hyz | hyz
  · exact .inl (hxy.trans hyz)
  · exact .inr ⟨hxy ▸ hyz.1, hyz.2⟩
  · exact .inr ⟨hxy.1, hyz ▸ hxy.2⟩
  · exact .inr ⟨hxy.1, hyz.2⟩

mutual

theorem same_comm : (a b : Value) → same a b = same b a
  | .int _, b | .long _, b | .bool _, b | .text _, b => by
    cases b <;> simp only [same, BEq.comm]
  | .double _, b => by
    cases b <;> simp only [same, sameDouble_comm]
  | .list as, b => by
    cases b with
    | list bs => simpa only [same] using sameItems_comm as bs
    | _ => simp only [same]
  | .map as, b => by
    cases b with
    | map bs => simpa only [same] using sameEntries_comm as bs
    | _ => simp only [same]

theorem sameItems_comm : (as bs : Array Value) → sameItems as bs.toList = sameItems bs as.toList
  | ⟨as⟩, ⟨bs⟩ => by simpa only [sameItems] using sameAll_comm as bs

theorem sameAll_comm : (as bs : List Value) → sameAll as bs = sameAll bs as
  | [], bs => by cases bs <;> simp only [sameAll]
  | a :: as, bs => by
    cases bs with
    | nil => simp only [sameAll]
    | cons b bs => simp only [sameAll, same_comm a b, sameAll_comm as bs]

theorem sameEntries_comm :
    (as bs : List (Value × Value)) → sameEntries as bs = sameEntries bs as
  | [], bs => by cases bs <;> simp only [sameEntries]
  | a :: as, bs => by
    cases bs with
    | nil => simp only [sameEntries]
    | cons b bs => simp only [sameEntries, sameEntry_comm a b, sameEntries_comm as bs]

theorem sameEntry_comm : (a b : Value × Value) → sameEntry a b = sameEntry b a
  | (k, v), (k', v') => by simp only [sameEntry, same_comm k k', same_comm v v']

end

mutual

theorem same_trans : (a : Value) → {b c : Value} →
    same a b = true → same b c = true → same a c = true
  | .int _, b, c, h, h' | .long _, b, c, h, h' | .bool _, b, c, h, h' | .text _, b, c, h, h' => by
    cases b <;> cases c <;> simp_all [same]
  | .double _, b, c, h, h' => by
    cases b with
    | double => cases c with
      | double =>
        rw [same] at h h' ⊢
        exact sameDouble_trans h h'
      | _ => simp only [same, Bool.false_eq_true] at h'
    | _ => simp only [same, Bool.false_eq_true] at h
  | .list as, b, c, h, h' => by
    cases b with
    | list bs => cases c with
      | list cs =>
        rw [same] at h h' ⊢
        exact sameItems_trans as h h'
      | _ => simp only [same, Bool.false_eq_true] at h'
    | _ => simp only [same, Bool.false_eq_true] at h
  | .map as, b, c, h, h' => by
    cases b with
    | map bs => cases c with
      | map cs =>
        rw [same] at h h' ⊢
        exact sameEntries_trans as h h'
      | _ => simp only [same, Bool.false_eq_true] at h'
    | _ => simp only [same, Bool.false_eq_true] at h

theorem sameItems_trans : (as : Array Value) → {bs cs : Array Value} →
    sameItems as bs.toList = true → sameItems bs cs.toList = true → sameItems as cs.toList = true
  | ⟨as⟩, ⟨bs⟩, ⟨cs⟩, h, h' => by
    rw [sameItems] at h h' ⊢
    exact sameAll_trans as h h'

theorem sameAll_trans : (as : List Value) → {bs cs : List Value} →
    sameAll as bs = true → sameAll bs cs = true → sameAll as cs = true
  | [], bs, cs, h, h' => by
    cases bs <;> simp_all [sameAll]
  | a :: as, bs, cs, h, h' => by
    cases bs with
    | nil => simp only [sameAll, Bool.false_eq_true] at h
    | cons b bs => cases cs with
      | nil => simp only [sameAll, Bool.false_eq_true] at h'
      | cons c cs =>
        rw [sameAll, Bool.and_eq_true] at h h' ⊢
        exact ⟨same_trans a h.1 h'.1, sameAll_trans as h.2 h'.2⟩

theorem sameEntries_trans : (as : List (Value × Value)) → {bs cs : List (Value × Value)} →
    sameEntries as bs = true → sameEntries bs cs = true → sameEntries as cs = true
  | [], bs, cs, h, h' => by
    cases bs <;> simp_all [sameEntries]
  | a :: as, bs, cs, h, h' => by
    cases bs with
    | nil => simp only [sameEntries, Bool.false_eq_true] at h
    | cons b bs => cases cs with
      | nil => simp only [sameEntries, Bool.false_eq_true] at h'
      | cons c cs =>
        rw [sameEntries, Bool.and_eq_true] at h h' ⊢
        exact ⟨sameEntry_trans a h.1 h'.1, sameEntries_trans as h.2 h'.2⟩

theorem sameEntry_trans : (a : Value × Value) → {b c : Value × Value} →
    sameEntry a b = true → sameEntry b c = true → sameEntry a c = true
  | (k, v), (_, _), (_, _), h, h' => by
    rw [sameEntry, Bool.and_eq_true] at h h' ⊢
    exact ⟨same_trans k h.1 h'.1, same_trans v h.2 h'.2⟩

end

/-! ## Puts one behind another -/

/-- A value after puts one behind another. -/
def putAll (ps : List (Value × Value)) (m : Value) : Value := ps.foldl (fun m p => put p.1 p.2 m) m

/-- Whether entries have keys that are not equal. -/
def Unequal (e e' : Value × Value) : Prop := same e.1 e'.1 = false

/-- Maps with the same entries, in whatever order. -/
inductive Reordered : Value → Value → Prop
  | refl (m : Value) : Reordered m m
  | map {es es' : List (Value × Value)} : es.Perm es' → Reordered (.map es) (.map es')

/-- The puts that make an entry: those whose key equals none put before. In front of them the
`earlier` keys were put. -/
def creating (earlier : List Value) : List (Value × Value) → List (Value × Value)
  | [] => []
  | p :: ps =>
    if earlier.any (same · p.1) then creating (earlier ++ [p.1]) ps
    else p :: creating (earlier ++ [p.1]) ps

/-- The value of the last put whose key equals the given one. -/
def lastValue? (ps : List (Value × Value)) (key : Value) : Option Value :=
  (ps.filter (same ·.1 key)).getLast?.map Prod.snd

/-- The entries that puts into the empty map leave: one for each put that makes an entry, with the
value that was put last under an equal key, or the one it was made with. -/
def entriesOf (ps : List (Value × Value)) : List (Value × Value) :=
  (creating [] ps).map fun c => (c.1, (lastValue? ps c.1).getD c.2)

section Entries

variable {es es' : List (Value × Value)} {k v : Value} {e e' p q : Value × Value}

theorem Unequal.symm (h : Unequal e e') : Unequal e' e := (same_comm _ _).trans h

/-- No key equals two unequal ones. -/
theorem Unequal.same_eq_false (h : Unequal e e') (hk : same e.1 k = true) :
    same e'.1 k = false := by
  rw [Bool.eq_false_iff]
  intro hk'
  rw [same_comm] at hk'
  have hboth := same_trans _ hk hk'
  rw [show same e.1 e'.1 = false from h] at hboth
  exact Bool.false_ne_true hboth

/-- An entry with the value of a put whose key equals its key. -/
def replaced (key value : Value) (e : Value × Value) : Value × Value :=
  if same e.1 key then (e.1, value) else e

@[simp] theorem replaced_fst (key value : Value) (e : Value × Value) :
    (replaced key value e).1 = e.1 := by
  unfold replaced
  split <;> rfl

theorem map_replaced_of_forall (h : ∀ e ∈ es, same e.1 k = false) :
    es.map (replaced k v) = es := by
  conv_rhs => rw [← es.map_id]
  exact List.map_congr_left fun e he => by simp [replaced, h e he]

/-- A new key comes behind all others. -/
theorem putEntry_of_forall (h : ∀ e ∈ es, same e.1 k = false) :
    putEntry k v es = es ++ [(k, v)] := by
  induction es with
  | nil => rfl
  | cons e es ih =>
    obtain ⟨hhead, htail⟩ := List.forall_mem_cons.1 h
    rw [putEntry, if_neg (by simp [hhead]), ih htail, List.cons_append]

/-- The value of a key that is there is replaced where it stands. -/
theorem putEntry_of_exists (hkeys : es.Pairwise Unequal) (h : ∃ e ∈ es, same e.1 k = true) :
    putEntry k v es = es.map (replaced k v) := by
  induction es with
  | nil => simp at h
  | cons e es ih =>
    obtain ⟨hhead, htail⟩ := List.pairwise_cons.1 hkeys
    rw [putEntry, List.map_cons]
    by_cases hk : same e.1 k = true
    · have hrest : ∀ e' ∈ es, same e'.1 k = false := fun e' he' => (hhead e' he').same_eq_false hk
      rw [if_pos hk, map_replaced_of_forall hrest, replaced, if_pos hk]
    · have hrest : ∃ e' ∈ es, same e'.1 k = true := by simpa [hk] using h
      rw [if_neg hk, ih htail hrest, replaced, if_neg hk]

theorem exists_or_forall (es : List (Value × Value)) (k : Value) :
    (∃ e ∈ es, same e.1 k = true) ∨ ∀ e ∈ es, same e.1 k = false := by
  by_cases h : ∃ e ∈ es, same e.1 k = true
  · exact .inl h
  · exact .inr fun e he => by simpa using fun hk => h ⟨e, he, hk⟩

/-- **A put leaves the keys unequal.** -/
theorem pairwise_putEntry (hkeys : es.Pairwise Unequal) (k v : Value) :
    (putEntry k v es).Pairwise Unequal := by
  rcases exists_or_forall es k with h | h
  · rw [putEntry_of_exists hkeys h, List.pairwise_map]
    exact hkeys.imp fun h => by simpa only [Unequal, replaced_fst] using h
  · rw [putEntry_of_forall h, List.pairwise_append]
    exact ⟨hkeys, List.pairwise_singleton _ _, fun e he e' he' => by
      rw [List.mem_singleton.1 he']
      exact h e he⟩

/-- A put into the same entries in another order. -/
theorem perm_putEntry (hkeys : es.Pairwise Unequal) (h : es.Perm es') (k v : Value) :
    (putEntry k v es).Perm (putEntry k v es') := by
  have hkeys' : es'.Pairwise Unequal := (h.pairwise_iff Unequal.symm).1 hkeys
  rcases exists_or_forall es k with ⟨e, he, hk⟩ | hk
  · rw [putEntry_of_exists hkeys ⟨e, he, hk⟩, putEntry_of_exists hkeys' ⟨e, h.subset he, hk⟩]
    exact h.map _
  · rw [putEntry_of_forall hk, putEntry_of_forall fun e he => hk e (h.symm.subset he)]
    exact h.append_right _

/-- **Puts with unequal keys commute up to the order of the entries**, into whatever entries. -/
theorem perm_putEntry_putEntry (h : Unequal p q) (es : List (Value × Value)) :
    (putEntry q.1 q.2 (putEntry p.1 p.2 es)).Perm (putEntry p.1 p.2 (putEntry q.1 q.2 es)) := by
  induction es with
  | nil =>
    have hp : putEntry q.1 q.2 [p] = [p, q] := by simp [putEntry, show same p.1 q.1 = false from h]
    have hq : putEntry p.1 p.2 [q] = [q, p] := by
      simp [putEntry, show same q.1 p.1 = false from h.symm]
    show (putEntry q.1 q.2 [p]).Perm (putEntry p.1 p.2 [q])
    rw [hp, hq]
    exact .swap q p []
  | cons e es ih =>
    obtain ⟨k, v⟩ := e
    by_cases hp : same k p.1 = true
    · -- an entry that the first put finds is none for the second
      have hq : same k q.1 = false := by
        rw [same_comm] at hp ⊢
        exact h.same_eq_false hp
      simp [putEntry, hp, hq]
    · by_cases hq : same k q.1 = true
      · simp [putEntry, hp, hq]
      · simpa [putEntry, hp, hq] using ih

end Entries

section Sequences

variable {ps : List (Value × Value)} {k : Value} {p : Value × Value}

theorem creating_append (earlier : List Value) (ps qs : List (Value × Value)) :
    creating earlier (ps ++ qs) =
      creating earlier ps ++ creating (earlier ++ ps.map Prod.fst) qs := by
  induction ps generalizing earlier with
  | nil => simp [creating]
  | cons p ps ih =>
    simp only [List.cons_append, creating, ih, List.map_cons, List.append_assoc]
    split <;> rfl

/-- The keys put so far are those of the entries, up to equality. -/
theorem any_creating (ps : List (Value × Value)) (k : Value) :
    (creating [] ps).any (same ·.1 k) = ps.any (same ·.1 k) := by
  induction ps using List.reverseRecOn with
  | nil => rfl
  | append_singleton ps p ih =>
    rw [creating_append, List.any_append, List.any_append, ih, creating, creating]
    split
    · next hp =>
      simp only [List.nil_append, List.any_map, List.any_eq_true, Function.comp_apply] at hp
      obtain ⟨q, hq, hqp⟩ := hp
      -- what equals the key put last equals the earlier key that it equals
      have hlast : same p.1 k = true → ps.any (same ·.1 k) = true := fun hpk =>
        List.any_eq_true.2 ⟨q, hq, same_trans _ hqp hpk⟩
      cases hk : same p.1 k with
      | false => simp [hk]
      | true => simp [hk, hlast hk]
    · rfl

theorem lastValue?_append (ps : List (Value × Value)) (p : Value × Value) (k : Value) :
    lastValue? (ps ++ [p]) k = if same p.1 k then some p.2 else lastValue? ps k := by
  unfold lastValue?
  rw [List.filter_append]
  by_cases h : same p.1 k = true <;> simp [h]

theorem lastValue?_of_forall (h : ps.any (same ·.1 k) = false) : lastValue? ps k = none := by
  have hnil : ps.filter (same ·.1 k) = [] := by
    rw [List.filter_eq_nil_iff]
    intro q hq hqk
    rw [List.any_eq_true.2 ⟨q, hq, hqk⟩] at h
    exact Bool.false_ne_true h.symm
  rw [lastValue?, hnil]
  rfl

theorem putAll_append (ps qs : List (Value × Value)) (m : Value) :
    putAll (ps ++ qs) m = putAll qs (putAll ps m) := List.foldl_append

/-- **One more put.** -/
theorem putEntry_entriesOf (hkeys : (entriesOf ps).Pairwise Unequal) (p : Value × Value) :
    putEntry p.1 p.2 (entriesOf ps) = entriesOf (ps ++ [p]) := by
  have hany : (entriesOf ps).any (same ·.1 p.1) = ps.any (same ·.1 p.1) := by
    rw [← any_creating ps p.1, entriesOf, List.any_map]
    rfl
  have hearlier : ([] ++ ps.map Prod.fst).any (same · p.1) = ps.any (same ·.1 p.1) := by
    rw [List.nil_append, List.any_map]
    rfl
  cases hnew : ps.any (same ·.1 p.1) with
  | true =>
    rw [putEntry_of_exists hkeys (List.any_eq_true.1 (hany.trans hnew)), entriesOf, entriesOf,
      creating_append, creating, if_pos (hearlier.trans hnew), creating, List.append_nil,
      List.map_map]
    refine List.map_congr_left fun c _ => ?_
    rw [Function.comp_apply, replaced, lastValue?_append, same_comm p.1]
    split <;> rfl
  | false =>
    have hne : ∀ e ∈ entriesOf ps, same e.1 p.1 = false := by
      simpa using hany.trans hnew
    have hcreating : ∀ c ∈ creating [] ps, same p.1 c.1 = false := by
      intro c hc
      have hentry : (c.1, (lastValue? ps c.1).getD c.2) ∈ entriesOf ps :=
        List.mem_map.2 ⟨c, hc, rfl⟩
      have hkey := hne _ hentry
      exact (same_comm _ _).trans hkey
    have hlast : (lastValue? (ps ++ [p]) p.1).getD p.2 = p.2 := by
      rw [lastValue?_append, lastValue?_of_forall hnew]
      split <;> rfl
    rw [putEntry_of_forall hne, entriesOf, entriesOf, creating_append, creating,
      if_neg (Bool.eq_false_iff.1 (hearlier.trans hnew)), creating, List.map_append,
      List.map_singleton, hlast]
    congr 1
    refine List.map_congr_left fun c hc => ?_
    rw [lastValue?_append, hcreating c hc]
    rfl

theorem pairwise_entriesOf (ps : List (Value × Value)) :
    (entriesOf ps).Pairwise Unequal ∧ putAll ps emptyMap = .map (entriesOf ps) := by
  induction ps using List.reverseRecOn with
  | nil => exact ⟨List.Pairwise.nil, rfl⟩
  | append_singleton ps p ih =>
    obtain ⟨hkeys, hmap⟩ := ih
    rw [← putEntry_entriesOf hkeys, putAll_append, hmap]
    exact ⟨pairwise_putEntry hkeys _ _, rfl⟩

/-- The order of the entries of a map makes no difference to its puts but in the order. -/
theorem reordered_putAll {es es' : List (Value × Value)} (hkeys : es.Pairwise Unequal)
    (h : es.Perm es') (ps : List (Value × Value)) :
    Reordered (putAll ps (.map es)) (putAll ps (.map es')) := by
  induction ps generalizing es es' with
  | nil => exact .map h
  | cons p ps ih => exact ih (pairwise_putEntry hkeys _ _) (perm_putEntry hkeys h _ _)

theorem reordered_swap {p q : Value × Value} (h : Unequal p q) (m : Value) :
    Reordered (putAll [p, q] m) (putAll [q, p] m) := by
  cases m with
  | map es => exact .map (perm_putEntry_putEntry h es)
  | _ => exact .refl _

/-- **A map is a finite map in the order of insertion.** Puts into the empty map leave entries with
unequal keys, one for each put whose key equals no earlier one, in that order. Each has the value
of the last put whose key equals its own, or that of the put that made it if there is none. Puts
with unequal keys commute up to the order of the entries, into every value and anywhere in a
sequence. -/
theorem putAll_emptyMap (ps : List (Value × Value)) :
    putAll ps emptyMap = .map (entriesOf ps) ∧ (entriesOf ps).Pairwise Unequal ∧
      (∀ p q, Unequal p q → ∀ m, Reordered (putAll [p, q] m) (putAll [q, p] m)) ∧
      ∀ a p q b, ps = a ++ p :: q :: b → Unequal p q →
        Reordered (putAll ps emptyMap) (putAll (a ++ q :: p :: b) emptyMap) := by
  obtain ⟨hkeys, hmap⟩ := pairwise_entriesOf ps
  refine ⟨hmap, hkeys, fun p q hne m => reordered_swap hne m, ?_⟩
  rintro a p q b rfl hne
  obtain ⟨ha, hmapa⟩ := pairwise_entriesOf a
  have hboth := pairwise_putEntry (pairwise_putEntry ha p.1 p.2) q.1 q.2
  rw [putAll_append, putAll_append, hmapa]
  exact reordered_putAll hboth (perm_putEntry_putEntry hne _) b

/-- The integer one of 32 bits is another key than that of 64 bits, and it keeps its place. -/
theorem putAll_emptyMap_twoWidths :
    putAll [(.int 1, .text "a"), (.long 1, .text "b"), (.int 1, .text "c")] emptyMap =
        .map [(.int 1, .text "c"), (.long 1, .text "b")] ∧
      Reordered (putAll [(.int 1, .text "a"), (.long 1, .text "b"), (.int 1, .text "c")] emptyMap)
        (putAll [(.long 1, .text "b"), (.int 1, .text "a"), (.int 1, .text "c")] emptyMap) := by
  obtain ⟨hmap, -, -, hswap⟩ :=
    putAll_emptyMap [(.int 1, .text "a"), (.long 1, .text "b"), (.int 1, .text "c")]
  refine ⟨hmap.trans (by simp [entriesOf, creating, lastValue?, same]), ?_⟩
  exact hswap [] (.int 1, .text "a") (.long 1, .text "b") [(.int 1, .text "c")] rfl
    (by simp [Unequal, same])

end Sequences

end Value

end SnippetRunner
