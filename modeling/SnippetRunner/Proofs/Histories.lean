import Mathlib.Data.List.Basic
import SnippetRunner.Queue

/-!
# Histories of a queue

A history is a queue with what has happened around it: which snippets were accepted, which were
executed, and which answers were given (`Queue.History`). `Queue.history` makes one of any sequence
of events, and so of any order in which callers, owners of tickets and the runner take their steps.

In every history the state of the queue agrees with what has happened
(`Queue.consistent_history`):

* the accepted snippets are those executed, then those the queue still has, then those lost in a
  breakdown, and their tickets grow;
* the owner of an executed snippet's ticket is handed the outcome once, and is told from then on
  that the runner has stopped (`Queue.HandsOut`);
* as long as a snippet is not executed its ticket has no answers, and a ticket whose snippet never
  will be has no other answer than that the runner has stopped.

Each kind of event preserves this; the run lemma is an induction over the events.
-/

namespace SnippetRunner.Queue

/-- The snippet that is being executed, with its ticket. -/
def running (q : Queue) : Option (Nat × List Char) :=
  match q.phase with
  | .executing ticket snippet => some (ticket, snippet)
  | .idle | .answered _ => none

/-- The snippets that are still to be executed, in this order. -/
def unfinished (q : Queue) : List (Nat × List Char) := q.running.toList ++ q.waiting

/-- What may happen around a queue. -/
inductive Event
  /-- Somebody hands in a snippet. Without room for it nothing happens, and it has to be tried
  again. -/
  | submit (snippet : List Char)
  /-- The runner takes its next step. -/
  | advance
  | close
  /-- The runner breaks down over a snippet. -/
  | crash
  /-- The owner of a ticket asks for the outcome. Whoever waits for it asks until there is an
  answer. -/
  | ask (ticket : Nat)
  deriving DecidableEq, Repr

/-- A queue, with what has happened so far. -/
structure History where
  queue : Queue
  /-- The snippets that were accepted, with their tickets. -/
  accepted : List (Nat × List Char)
  /-- The snippets that were executed to the end. -/
  executed : List (Nat × List Char)
  /-- The snippets that were not when the runner broke down. -/
  lost : List (Nat × List Char)
  /-- The answers that were given, with the tickets they were given for. -/
  answers : List (Nat × Outcome)

/-- Of all answers, those that were given for a ticket. -/
def answersFor (answers : List (Nat × Outcome)) (ticket : Nat) : List Outcome :=
  (answers.filter fun answer => answer.1 = ticket).map Prod.snd

theorem answersFor_append_self (answers : List (Nat × Outcome)) (ticket : Nat) (o : Outcome) :
    answersFor (answers ++ [(ticket, o)]) ticket = answersFor answers ticket ++ [o] := by
  simp [answersFor]

theorem answersFor_append_of_ne (answers : List (Nat × Outcome)) {ticket other : Nat}
    (hne : ticket ≠ other) (o : Outcome) :
    answersFor (answers ++ [(ticket, o)]) other = answersFor answers other := by
  simp [answersFor, hne]

namespace History

/-- Nothing has happened. -/
def start (depth : Nat) : History := ⟨.empty depth, [], [], [], []⟩

/-- The history with one more event. A ticket cannot be asked for before it is given out. -/
def next (execute : List Char → Outcome) (h : History) : Event → History
  | .submit snippet =>
    match h.queue.submit snippet with
    | none => h
    | some (queue, ticket) =>
      { h with
        queue := queue
        accepted := h.accepted ++ if h.queue.isOpen then [(ticket, snippet)] else [] }
  | .advance =>
    { h with
      queue := h.queue.advance execute
      executed := h.executed ++ h.queue.running.toList }
  | .close => { h with queue := h.queue.close }
  | .crash =>
    { h with
      queue := h.queue.crash
      lost := h.lost ++ if h.queue.running.isSome then h.queue.unfinished else [] }
  | .ask ticket =>
    if ticket < h.queue.replies.length then
      let (queue, answer) := h.queue.poll ticket
      { h with
        queue := queue
        answers := h.answers ++ answer.toList.map fun outcome => (ticket, outcome) }
    else h

/-- The history with more events. -/
def after (execute : List Char → Outcome) (h : History) (events : List Event) : History :=
  events.foldl (next execute) h

end History

/-- What has happened around a queue after the given events. -/
def history (execute : List Char → Outcome) (depth : Nat) (events : List Event) : History :=
  (History.start depth).after execute events

/-! ## Agreement of the queue with what has happened -/

/-- What is ready for the owner of a ticket, and the answers given before. -/
inductive HandsOut (o : Outcome) : Option Outcome → List Outcome → Prop
  | ready : HandsOut o (some o) []
  | done (times : Nat) : HandsOut o none (o :: List.replicate times stopped)

namespace History

/-- The state of a queue agrees with what has happened. -/
structure Consistent (execute : List Char → Outcome) (h : History) : Prop where
  accepted_eq : h.accepted = h.executed ++ h.queue.unfinished ++ h.lost
  ascending : (h.accepted.map Prod.fst).Pairwise (· < ·)
  accepted_lt : ∀ job ∈ h.accepted, job.1 < h.queue.replies.length
  answers_lt : ∀ answer ∈ h.answers, answer.1 < h.queue.replies.length
  /-- After a breakdown nothing is accepted or executed any more. -/
  ended : h.lost ≠ [] → h.queue.isOpen = false ∧ h.queue.unfinished = []
  answered : ∀ ticket, h.queue.phase = .answered ticket →
    ∃ snippet, (ticket, snippet) ∈ h.executed
  /-- The runner lets go of a ticket as soon as it is done with the snippet. -/
  executed_stands : ∀ job ∈ h.executed, ∃ reply, h.queue.replies[job.1]? = some reply ∧
    reply.isAwaited = decide (h.queue.phase = .answered job.1) ∧
    HandsOut (execute job.2) reply.outcome (answersFor h.answers job.1)
  unfinished_stands : ∀ job ∈ h.queue.unfinished,
    h.queue.replies[job.1]? = some ⟨none, true⟩ ∧ answersFor h.answers job.1 = []
  /-- No other tickets are given out before the queue is closed, and all of them are void. -/
  void_stands : ∀ ticket < h.queue.replies.length,
    (∀ job ∈ h.executed ++ h.queue.unfinished, job.1 ≠ ticket) →
    h.queue.isOpen = false ∧ h.queue.replies[ticket]? = some ⟨none, false⟩ ∧
      ∀ o ∈ answersFor h.answers ticket, o = stopped

variable {execute : List Char → Outcome}

theorem consistent_start (depth : Nat) : Consistent execute (start depth) where
  accepted_eq := rfl
  ascending := .nil
  accepted_lt _ hjob := absurd hjob List.not_mem_nil
  answers_lt _ hanswer := absurd hanswer List.not_mem_nil
  ended h := absurd rfl h
  answered _ h := absurd h nofun
  executed_stands _ hjob := absurd hjob List.not_mem_nil
  unfinished_stands _ hjob := absurd hjob List.not_mem_nil
  void_stands _ hticket := absurd hticket (Nat.not_lt_zero _)

namespace Consistent

section Order

variable {h : History}

theorem pairwise_lt (hh : Consistent execute h) :
    (h.executed ++ h.queue.unfinished).Pairwise (fun x y => x.1 < y.1) := by
  have hascending := List.pairwise_map.1 hh.ascending
  rw [hh.accepted_eq] at hascending
  exact (List.pairwise_append.1 hascending).1

/-- Tickets grow: those of executed snippets are smaller than those of the others. -/
theorem executed_lt (hh : Consistent execute h) {x y : Nat × List Char} (hx : x ∈ h.executed)
    (hy : y ∈ h.queue.unfinished) : x.1 < y.1 :=
  (List.pairwise_append.1 hh.pairwise_lt).2.2 x hx y hy

theorem running_lt (hh : Consistent execute h) {x y : Nat × List Char}
    (hx : h.queue.running = some x) (hy : y ∈ h.queue.waiting) : x.1 < y.1 := by
  have hunfinished := (List.pairwise_append.1 hh.pairwise_lt).2.1
  rw [unfinished, hx] at hunfinished
  exact (List.pairwise_cons.1 hunfinished).1 y hy

theorem executed_lt_length (hh : Consistent execute h) {job : Nat × List Char}
    (hjob : job ∈ h.executed) : job.1 < h.queue.replies.length :=
  hh.accepted_lt job (by simp [hh.accepted_eq, hjob])

theorem unfinished_lt_length (hh : Consistent execute h) {job : Nat × List Char}
    (hjob : job ∈ h.queue.unfinished) : job.1 < h.queue.replies.length :=
  hh.accepted_lt job (by simp [hh.accepted_eq, hjob])

theorem answersFor_eq_nil (hh : Consistent execute h) {ticket : Nat}
    (hticket : h.queue.replies.length ≤ ticket) : answersFor h.answers ticket = [] := by
  unfold answersFor
  rw [List.map_eq_nil_iff, List.filter_eq_nil_iff]
  intro answer hanswer
  have hlt := hh.answers_lt answer hanswer
  simp only [decide_eq_true_eq]
  omega

theorem answers_append_lt (hh : Consistent execute h) {ticket : Nat}
    (hticket : ticket < h.queue.replies.length) (o : Outcome) :
    ∀ answer ∈ h.answers ++ [(ticket, o)], answer.1 < h.queue.replies.length := by
  intro answer hanswer
  obtain hanswer | hanswer := List.mem_append.1 hanswer
  · exact hh.answers_lt answer hanswer
  · rwa [List.mem_singleton.1 hanswer]

end Order

/-! ## The steps -/

section Steps

variable {depth : Nat} {isOpen : Bool} {waiting : List (Nat × List Char)} {phase : Phase}
  {replies : List Reply} {accepted executed lost : List (Nat × List Char)}
  {answers : List (Nat × Outcome)} {ticket : Nat} {snippet : List Char} {o : Outcome}

/-- The runner takes a snippet. -/
theorem take
    (hh : Consistent execute ⟨⟨depth, isOpen, (ticket, snippet) :: waiting, .idle, replies⟩,
      accepted, executed, lost, answers⟩) :
    Consistent execute ⟨⟨depth, isOpen, waiting, .executing ticket snippet, replies⟩,
      accepted, executed, lost, answers⟩ where
  accepted_eq := hh.accepted_eq
  ascending := hh.ascending
  accepted_lt := hh.accepted_lt
  answers_lt := hh.answers_lt
  ended := hh.ended
  answered _ h := absurd h nofun
  executed_stands := by simpa using hh.executed_stands
  unfinished_stands := hh.unfinished_stands
  void_stands := hh.void_stands

/-- The runner leaves an outcome. -/
theorem leave
    (hh : Consistent execute ⟨⟨depth, isOpen, waiting, .executing ticket snippet, replies⟩,
      accepted, executed, lost, answers⟩) :
    Consistent execute ⟨⟨depth, isOpen, waiting, .answered ticket,
        replies.modify ticket fun r => { r with outcome := some (execute snippet) }⟩,
      accepted, executed ++ [(ticket, snippet)], lost, answers⟩ := by
  have hrunning : (ticket, snippet) ∈
      unfinished ⟨depth, isOpen, waiting, .executing ticket snippet, replies⟩ := List.mem_cons_self
  obtain ⟨hreply, hanswers⟩ := hh.unfinished_stands _ hrunning
  have hother {other : Nat} (hne : ticket ≠ other) :
      (replies.modify ticket fun r => { r with outcome := some (execute snippet) })[other]? =
        replies[other]? := List.getElem?_modify_ne _ _ hne
  exact
    { accepted_eq := by simpa [unfinished, running] using hh.accepted_eq
      ascending := hh.ascending
      accepted_lt := by simpa using hh.accepted_lt
      answers_lt := by simpa using hh.answers_lt
      ended := fun hlost => absurd (hh.ended hlost).2 (List.cons_ne_nil _ _)
      answered := by
        intro other hphase
        obtain rfl := Phase.answered.inj hphase
        exact ⟨snippet, List.mem_append_right _ List.mem_cons_self⟩
      executed_stands := by
        intro job hjob
        obtain hjob | hjob := List.mem_append.1 hjob
        · have hne : ticket ≠ job.1 := Nat.ne_of_gt (hh.executed_lt hjob hrunning)
          obtain ⟨reply, hsome, hawaited, hhands⟩ := hh.executed_stands job hjob
          exact ⟨reply, (hother hne).trans hsome, by simpa [hne] using hawaited, hhands⟩
        · obtain rfl := List.mem_singleton.1 hjob
          refine ⟨⟨some (execute snippet), true⟩, ?_, by simp, ?_⟩
          · rw [List.getElem?_modify_eq, hreply]
            rfl
          · rw [hanswers]
            exact .ready
      unfinished_stands := by
        intro job hjob
        have hne : ticket ≠ job.1 := Nat.ne_of_lt (hh.running_lt rfl hjob)
        obtain ⟨hsome, hnone⟩ := hh.unfinished_stands job (List.mem_cons_of_mem _ hjob)
        exact ⟨(hother hne).trans hsome, hnone⟩
      void_stands := by
        intro other hlt hnot
        have hne : ticket ≠ other := hnot (ticket, snippet) (by simp)
        rw [hother hne]
        refine hh.void_stands other (by simpa using hlt) fun job hjob => hnot job ?_
        simpa [unfinished, running, or_assoc] using hjob }

/-- The runner is done with a snippet. -/
theorem release
    (hh : Consistent execute ⟨⟨depth, isOpen, waiting, .answered ticket, replies⟩, accepted,
      executed, lost, answers⟩) :
    Consistent execute ⟨⟨depth, isOpen, waiting, .idle,
        replies.modify ticket fun r => { r with isAwaited := false }⟩,
      accepted, executed, lost, answers⟩ := by
  obtain ⟨snippet, hmem⟩ := hh.answered ticket rfl
  have hother {other : Nat} (hne : ticket ≠ other) :
      (replies.modify ticket fun r => { r with isAwaited := false })[other]? = replies[other]? :=
    List.getElem?_modify_ne _ _ hne
  exact
    { accepted_eq := hh.accepted_eq
      ascending := hh.ascending
      accepted_lt := by simpa using hh.accepted_lt
      answers_lt := by simpa using hh.answers_lt
      ended := hh.ended
      answered := fun _ h => absurd h nofun
      executed_stands := by
        intro job hjob
        obtain ⟨reply, hsome, hawaited, hhands⟩ := hh.executed_stands job hjob
        by_cases hne : ticket = job.1
        · refine ⟨{ reply with isAwaited := false }, ?_, by simp, hhands⟩
          rw [hne, List.getElem?_modify_eq, hsome]
          rfl
        · exact ⟨reply, (hother hne).trans hsome, by simpa [hne] using hawaited, hhands⟩
      unfinished_stands := by
        intro job hjob
        have hne : ticket ≠ job.1 := Nat.ne_of_lt (hh.executed_lt hmem hjob)
        obtain ⟨hsome, hnone⟩ := hh.unfinished_stands job hjob
        exact ⟨(hother hne).trans hsome, hnone⟩
      void_stands := by
        intro other hlt hnot
        have hne : ticket ≠ other := hnot (ticket, snippet) (List.mem_append_left _ hmem)
        rw [hother hne]
        exact hh.void_stands other (by simpa using hlt) hnot }

/-- The runner breaks down. -/
theorem breakDown
    (hh : Consistent execute ⟨⟨depth, isOpen, waiting, .executing ticket snippet, replies⟩,
      accepted, executed, lost, answers⟩) :
    Consistent execute ⟨⟨depth, false, [], .idle,
        replies.map fun r => { r with isAwaited := false }⟩,
      accepted, executed, lost ++ (ticket, snippet) :: waiting, answers⟩ := by
  -- it has not broken down before, or it would not execute a snippet
  have hlost : lost = [] := by
    by_contra hne
    exact absurd (hh.ended hne).2 (List.cons_ne_nil _ _)
  subst hlost
  exact
    { accepted_eq := by simpa [unfinished, running] using hh.accepted_eq
      ascending := hh.ascending
      accepted_lt := by simpa using hh.accepted_lt
      answers_lt := by simpa using hh.answers_lt
      ended := fun _ => ⟨rfl, rfl⟩
      answered := fun _ h => absurd h nofun
      executed_stands := by
        intro job hjob
        obtain ⟨reply, hsome, -, hhands⟩ := hh.executed_stands job hjob
        exact ⟨{ reply with isAwaited := false }, by simp [hsome], by simp, hhands⟩
      unfinished_stands := fun _ hjob => absurd hjob List.not_mem_nil
      void_stands := by
        intro other hlt hnot
        simp only [List.length_map] at hlt
        refine ⟨rfl, ?_⟩
        by_cases hmem : ∃ job ∈ unfinished
            ⟨depth, isOpen, waiting, .executing ticket snippet, replies⟩, job.1 = other
        · obtain ⟨job, hjob, rfl⟩ := hmem
          obtain ⟨hsome, hnone⟩ := hh.unfinished_stands job hjob
          exact ⟨by simp [hsome], fun o ho => absurd ho (by simp [hnone])⟩
        · obtain ⟨-, hsome, hstopped⟩ := hh.void_stands other hlt fun job hjob hsame =>
            (List.mem_append.1 hjob).elim
              (fun hexecuted => hnot job (List.mem_append_left _ hexecuted) hsame)
              fun hunfinished => hmem ⟨job, hunfinished, hsame⟩
          exact ⟨by simp [hsome], hstopped⟩ }

/-- A snippet is accepted. -/
theorem accept
    (hh : Consistent execute ⟨⟨depth, true, waiting, phase, replies⟩, accepted, executed, lost,
      answers⟩) :
    Consistent execute ⟨⟨depth, true, waiting ++ [(replies.length, snippet)], phase,
        replies ++ [⟨none, true⟩]⟩,
      accepted ++ [(replies.length, snippet)], executed, lost, answers⟩ := by
  have hlost : lost = [] := by
    by_contra hne
    exact absurd (hh.ended hne).1 (by simp)
  subst hlost
  have hold {other : Nat} (hlt : other < replies.length) :
      (replies ++ [⟨none, true⟩])[other]? = replies[other]? := List.getElem?_append_left hlt
  have hunfinished : unfinished ⟨depth, true, waiting ++ [(replies.length, snippet)], phase,
      replies ++ [⟨none, true⟩]⟩ =
      unfinished ⟨depth, true, waiting, phase, replies⟩ ++ [(replies.length, snippet)] :=
    (List.append_assoc _ _ _).symm
  exact
    { accepted_eq := by
        have haccepted := hh.accepted_eq
        simp only [List.append_nil] at haccepted ⊢
        rw [hunfinished, haccepted, List.append_assoc]
      ascending := by
        rw [List.map_append, List.pairwise_append]
        refine ⟨hh.ascending, List.pairwise_singleton _ _, fun t ht n hn => ?_⟩
        obtain ⟨job, hjob, rfl⟩ := List.mem_map.1 ht
        obtain rfl := List.mem_singleton.1 hn
        exact hh.accepted_lt job hjob
      accepted_lt := by
        intro job hjob
        obtain hjob | hjob := List.mem_append.1 hjob
        · simpa using Nat.lt_succ_of_lt (hh.accepted_lt job hjob)
        · simp [List.mem_singleton.1 hjob]
      answers_lt := fun answer hanswer => by
        simpa using Nat.lt_succ_of_lt (hh.answers_lt answer hanswer)
      ended := fun hne => absurd rfl hne
      answered := hh.answered
      executed_stands := by
        intro job hjob
        rw [hold (hh.executed_lt_length hjob)]
        exact hh.executed_stands job hjob
      unfinished_stands := by
        intro job hjob
        rw [hunfinished] at hjob
        obtain hjob | hjob := List.mem_append.1 hjob
        · rw [hold (hh.unfinished_lt_length hjob)]
          exact hh.unfinished_stands job hjob
        · obtain rfl := List.mem_singleton.1 hjob
          exact ⟨List.getElem?_concat_length, hh.answersFor_eq_nil (Nat.le_refl _)⟩
      void_stands := by
        intro other hlt hnot
        rw [hunfinished, ← List.append_assoc] at hnot
        have hne : replies.length ≠ other := hnot _ (List.mem_append_right _ List.mem_cons_self)
        obtain hlt | rfl := Nat.lt_succ_iff_lt_or_eq.1 (by simpa using hlt)
        · rw [hold hlt]
          exact hh.void_stands other hlt fun job hjob => hnot job (List.mem_append_left _ hjob)
        · exact absurd rfl hne }

/-- A snippet is refused, because the queue is closed. -/
theorem refuse
    (hh : Consistent execute ⟨⟨depth, false, waiting, phase, replies⟩, accepted, executed, lost,
      answers⟩) :
    Consistent execute ⟨⟨depth, false, waiting, phase, replies ++ [⟨none, false⟩]⟩, accepted,
      executed, lost, answers⟩ := by
  have hold {other : Nat} (hlt : other < replies.length) :
      (replies ++ [⟨none, false⟩])[other]? = replies[other]? := List.getElem?_append_left hlt
  exact
    { accepted_eq := hh.accepted_eq
      ascending := hh.ascending
      accepted_lt := fun job hjob => by simpa using Nat.lt_succ_of_lt (hh.accepted_lt job hjob)
      answers_lt := fun answer hanswer => by
        simpa using Nat.lt_succ_of_lt (hh.answers_lt answer hanswer)
      ended := hh.ended
      answered := hh.answered
      executed_stands := by
        intro job hjob
        rw [hold (hh.executed_lt_length hjob)]
        exact hh.executed_stands job hjob
      unfinished_stands := by
        intro job hjob
        rw [hold (hh.unfinished_lt_length hjob)]
        exact hh.unfinished_stands job hjob
      void_stands := by
        intro other hlt hnot
        obtain hlt | rfl := Nat.lt_succ_iff_lt_or_eq.1 (by simpa using hlt)
        · rw [hold hlt]
          exact hh.void_stands other hlt hnot
        · exact ⟨rfl, List.getElem?_concat_length,
            fun o ho => absurd ho (by simp [hh.answersFor_eq_nil (Nat.le_refl _)])⟩ }

/-- The outcome is handed out. -/
theorem handOut {isAwaited : Bool} (hreply : replies[ticket]? = some ⟨some o, isAwaited⟩)
    (hh : Consistent execute ⟨⟨depth, isOpen, waiting, phase, replies⟩, accepted, executed, lost,
      answers⟩) :
    Consistent execute ⟨⟨depth, isOpen, waiting, phase,
        replies.modify ticket fun r => { r with outcome := none }⟩,
      accepted, executed, lost, answers ++ [(ticket, o)]⟩ := by
  obtain ⟨hlt, -⟩ := List.getElem?_eq_some_iff.1 hreply
  have hother {other : Nat} (hne : ticket ≠ other) :
      (replies.modify ticket fun r => { r with outcome := none })[other]? = replies[other]? :=
    List.getElem?_modify_ne _ _ hne
  exact
    { accepted_eq := hh.accepted_eq
      ascending := hh.ascending
      accepted_lt := by simpa using hh.accepted_lt
      answers_lt := by simpa using hh.answers_append_lt hlt o
      ended := hh.ended
      answered := hh.answered
      executed_stands := by
        intro job hjob
        obtain ⟨reply, hsome, hawaited, hhands⟩ := hh.executed_stands job hjob
        by_cases hne : ticket = job.1
        · subst hne
          obtain rfl : reply = ⟨some o, isAwaited⟩ := Option.some.inj (hsome.symm.trans hreply)
          refine ⟨⟨none, isAwaited⟩, ?_, hawaited, ?_⟩
          · rw [List.getElem?_modify_eq, hreply]
            rfl
          · rw [answersFor_append_self]
            generalize answersFor answers job.1 = before at hhands
            cases hhands with
            | ready => exact .done 0
        · refine ⟨reply, (hother hne).trans hsome, hawaited, ?_⟩
          rwa [answersFor_append_of_ne answers hne]
      unfinished_stands := by
        intro job hjob
        obtain ⟨hsome, hnone⟩ := hh.unfinished_stands job hjob
        have hne : ticket ≠ job.1 := by
          rintro rfl
          exact absurd (hsome.symm.trans hreply) (by simp)
        exact ⟨(hother hne).trans hsome, (answersFor_append_of_ne answers hne o).trans hnone⟩
      void_stands := by
        intro other hlt hnot
        obtain ⟨hclosed, hsome, hstopped⟩ := hh.void_stands other (by simpa using hlt) hnot
        have hne : ticket ≠ other := by
          rintro rfl
          exact absurd (hsome.symm.trans hreply) (by simp)
        refine ⟨hclosed, (hother hne).trans hsome, ?_⟩
        rwa [answersFor_append_of_ne answers hne] }

/-- The owner of a ticket is told that the runner has stopped. -/
theorem tellStopped (hreply : replies[ticket]? = some ⟨none, false⟩)
    (hh : Consistent execute ⟨⟨depth, isOpen, waiting, phase, replies⟩, accepted, executed, lost,
      answers⟩) :
    Consistent execute ⟨⟨depth, isOpen, waiting, phase, replies⟩, accepted, executed, lost,
      answers ++ [(ticket, stopped)]⟩ := by
  obtain ⟨hlt, -⟩ := List.getElem?_eq_some_iff.1 hreply
  exact
    { accepted_eq := hh.accepted_eq
      ascending := hh.ascending
      accepted_lt := hh.accepted_lt
      answers_lt := hh.answers_append_lt hlt stopped
      ended := hh.ended
      answered := hh.answered
      executed_stands := by
        intro job hjob
        obtain ⟨reply, hsome, hawaited, hhands⟩ := hh.executed_stands job hjob
        refine ⟨reply, hsome, hawaited, ?_⟩
        by_cases hne : ticket = job.1
        · subst hne
          obtain rfl : reply = ⟨none, false⟩ := Option.some.inj (hsome.symm.trans hreply)
          rw [answersFor_append_self]
          generalize answersFor answers job.1 = before at hhands
          cases hhands with
          | done times =>
            rw [List.cons_append, ← List.replicate_succ']
            exact .done (times + 1)
        · rwa [answersFor_append_of_ne answers hne]
      unfinished_stands := by
        intro job hjob
        obtain ⟨hsome, hnone⟩ := hh.unfinished_stands job hjob
        have hne : ticket ≠ job.1 := by
          rintro rfl
          exact absurd (hsome.symm.trans hreply) (by simp)
        exact ⟨hsome, (answersFor_append_of_ne answers hne _).trans hnone⟩
      void_stands := by
        intro other hlt hnot
        obtain ⟨hclosed, hsome, hstopped⟩ := hh.void_stands other hlt hnot
        refine ⟨hclosed, hsome, ?_⟩
        by_cases hne : ticket = other
        · subst hne
          rw [answersFor_append_self]
          intro o ho
          exact (List.mem_append.1 ho).elim (hstopped o) List.mem_singleton.1
        · rwa [answersFor_append_of_ne answers hne] }

end Steps

/-! ## The events -/

section Events

variable {h : History}

theorem submit (hh : Consistent execute h) (snippet : List Char) :
    Consistent execute (h.next execute (.submit snippet)) := by
  obtain ⟨⟨depth, isOpen, waiting, phase, replies⟩, accepted, executed, lost, answers⟩ := h
  cases isOpen with
  | false =>
    change Consistent execute ⟨⟨depth, false, waiting, phase, replies ++ [⟨none, false⟩]⟩,
      accepted ++ [], executed, lost, answers⟩
    rw [List.append_nil]
    exact hh.refuse
  | true =>
    cases hroom : hasRoom ⟨depth, true, waiting, phase, replies⟩ with
    | false => simpa [History.next, Queue.submit, hroom] using hh
    | true => simpa [History.next, Queue.submit, hroom] using hh.accept

theorem advance (hh : Consistent execute h) : Consistent execute (h.next execute .advance) := by
  obtain ⟨⟨depth, isOpen, waiting, phase, replies⟩, accepted, executed, lost, answers⟩ := h
  cases phase with
  | idle =>
    cases waiting with
    | nil =>
      change Consistent execute
        ⟨⟨depth, isOpen, [], .idle, replies⟩, accepted, executed ++ [], lost, answers⟩
      rwa [List.append_nil]
    | cons job rest =>
      change Consistent execute ⟨⟨depth, isOpen, rest, .executing job.1 job.2, replies⟩,
        accepted, executed ++ [], lost, answers⟩
      rw [List.append_nil]
      exact hh.take
  | executing ticket snippet => exact hh.leave
  | answered ticket =>
    change Consistent execute ⟨⟨depth, isOpen, waiting, .idle,
      replies.modify ticket fun r => { r with isAwaited := false }⟩,
      accepted, executed ++ [], lost, answers⟩
    rw [List.append_nil]
    exact hh.release

theorem close (hh : Consistent execute h) : Consistent execute (h.next execute .close) where
  accepted_eq := hh.accepted_eq
  ascending := hh.ascending
  accepted_lt := hh.accepted_lt
  answers_lt := hh.answers_lt
  ended hlost := ⟨rfl, (hh.ended hlost).2⟩
  answered := hh.answered
  executed_stands := hh.executed_stands
  unfinished_stands := hh.unfinished_stands
  void_stands ticket hlt hnot := ⟨rfl, (hh.void_stands ticket hlt hnot).2⟩

theorem crash (hh : Consistent execute h) : Consistent execute (h.next execute .crash) := by
  obtain ⟨⟨depth, isOpen, waiting, phase, replies⟩, accepted, executed, lost, answers⟩ := h
  cases phase with
  | idle =>
    change Consistent execute
      ⟨⟨depth, isOpen, waiting, .idle, replies⟩, accepted, executed, lost ++ [], answers⟩
    rwa [List.append_nil]
  | executing ticket snippet => exact hh.breakDown
  | answered ticket =>
    change Consistent execute
      ⟨⟨depth, isOpen, waiting, .answered ticket, replies⟩, accepted, executed, lost ++ [], answers⟩
    rwa [List.append_nil]

theorem ask (hh : Consistent execute h) (ticket : Nat) :
    Consistent execute (h.next execute (.ask ticket)) := by
  obtain ⟨⟨depth, isOpen, waiting, phase, replies⟩, accepted, executed, lost, answers⟩ := h
  simp only [History.next]
  split
  · next hlt =>
    obtain ⟨⟨outcome, isAwaited⟩, hreply⟩ : ∃ reply, replies[ticket]? = some reply :=
      ⟨_, List.getElem?_eq_getElem hlt⟩
    cases outcome with
    | some o => simpa [poll, hreply] using hh.handOut hreply
    | none =>
      cases isAwaited with
      | true => simpa [poll, hreply] using hh
      | false => simpa [poll, hreply] using hh.tellStopped hreply
  · exact hh

theorem next (hh : Consistent execute h) (event : Event) :
    Consistent execute (h.next execute event) := by
  cases event with
  | submit snippet => exact hh.submit snippet
  | advance => exact hh.advance
  | close => exact hh.close
  | crash => exact hh.crash
  | ask ticket => exact hh.ask ticket

theorem after (hh : Consistent execute h) (events : List Event) :
    Consistent execute (h.after execute events) := by
  induction events generalizing h with
  | nil => exact hh
  | cons event events ih => exact ih (hh.next event)

end Events

end Consistent

end History

theorem consistent_history (execute : List Char → Outcome) (depth : Nat) (events : List Event) :
    (history execute depth events).Consistent execute :=
  (History.consistent_start depth).after events

end SnippetRunner.Queue
