import SnippetRunner.Proofs.Histories
import SnippetRunner.Proofs.Reports

/-!
# What becomes of a ticket

A snippet that was accepted stays so (`History.accepted_prefix_after`), and as long as the runner
does not break down nothing is lost (`History.lost_after`). Each step of the runner brings it nearer
to its end, and the other events move the end no further than by the snippets they hand in
(`pending_advance`, `History.pending_next`). So the snippets accepted at some time are executed
after as many steps as the runner has before it then (`Consistent.accepted_prefix_executed`).

Waiting for an outcome is a history as well, in which the runner goes on to its end and the ticket
is asked for then (`Consistent.after_wait`). What is answered follows from the agreement of the
queue with what has happened: `Consistent.poll_of_mem_executed` and the lemmas next to it for
somebody who does not wait, `Consistent.wait_of_mem` and `Consistent.wait_of_void` for somebody who
does.

* `executes_each_once`: every accepted snippet is executed once, in the order in which they were
  accepted, and the first answer to its ticket is its own outcome.
* `answers_to_ticket`: all answers to any ticket. `wait_eq_stopped_iff` tells when a runner that is
  waited for seems to have stopped.
-/

namespace SnippetRunner

namespace Queue

variable {execute : List Char → Outcome}

namespace HandsOut

/-- The outcome comes first, and nothing comes behind it but that the runner has stopped. -/
theorem eq_of_getElem? {o : Outcome} {left : Option Outcome} {answers : List Outcome}
    (hhands : HandsOut o left answers) {i : Nat} {answer : Outcome}
    (hanswer : answers[i]? = some answer) : answer = if i = 0 then o else stopped := by
  cases hhands with
  | ready => exact absurd hanswer (by simp)
  | done times =>
    cases i with
    | zero => exact (Option.some.inj hanswer).symm
    | succ i =>
      rw [List.getElem?_cons_succ, List.getElem?_replicate] at hanswer
      split at hanswer
      · exact (Option.some.inj hanswer).symm
      · exact absurd hanswer nofun

end HandsOut

/-! ## The end of the runner -/

theorem length_replies_advance (execute : List Char → Outcome) (q : Queue) :
    (q.advance execute).replies.length = q.replies.length := by
  unfold advance
  split
  · split <;> rfl
  · exact List.length_modify _ _ _
  · exact List.length_modify _ _ _

theorem pending_poll (q : Queue) (ticket : Nat) : (q.poll ticket).1.pending = q.pending := by
  unfold poll
  split <;> rfl

theorem eq_of_pending_eq_zero {q : Queue} (h : q.pending = 0) :
    q.phase = .idle ∧ q.waiting = [] := by
  obtain ⟨depth, isOpen, waiting, phase, replies⟩ := q
  cases phase with
  | idle =>
    have hlength : waiting.length = 0 := by
      simp only [pending] at h
      omega
    exact ⟨rfl, List.length_eq_zero_iff.1 hlength⟩
  | executing ticket snippet => exact absurd h (Nat.succ_ne_zero _)
  | answered ticket => exact absurd h (Nat.succ_ne_zero _)

theorem unfinished_of_pending_eq_zero {q : Queue} (h : q.pending = 0) : q.unfinished = [] := by
  obtain ⟨hphase, hwaiting⟩ := eq_of_pending_eq_zero h
  unfold unfinished running
  rw [hphase, hwaiting]
  rfl

/-! ## What stays as it is -/

namespace History

variable {h : History} {event : Event} {events : List Event}

theorem after_append (h : History) (events more : List Event) :
    h.after execute (events ++ more) = (h.after execute events).after execute more :=
  List.foldl_append

theorem accepted_prefix_next (execute : List Char → Outcome) (h : History) (event : Event) :
    h.accepted <+: (h.next execute event).accepted := by
  cases event with
  | submit snippet =>
    simp only [next]
    split
    · exact List.prefix_rfl
    · exact List.prefix_append _ _
  | ask ticket =>
    simp only [next]
    split <;> exact List.prefix_rfl
  | advance | close | crash => exact List.prefix_rfl

/-- A snippet that was accepted stays so. -/
theorem accepted_prefix_after (h : History) (events : List Event) :
    h.accepted <+: (h.after execute events).accepted := by
  induction events generalizing h with
  | nil => exact List.prefix_rfl
  | cons event events ih => exact (h.accepted_prefix_next execute event).trans (ih _)

theorem lost_next (h : History) (hreturns : event ≠ .crash) :
    (h.next execute event).lost = h.lost := by
  cases event with
  | submit snippet =>
    simp only [next]
    split <;> rfl
  | ask ticket =>
    simp only [next]
    split <;> rfl
  | advance | close => rfl
  | crash => exact absurd rfl hreturns

/-- Nothing is lost as long as the runner does not break down. -/
theorem lost_after (h : History) (hreturns : .crash ∉ events) :
    (h.after execute events).lost = h.lost := by
  induction events generalizing h with
  | nil => rfl
  | cons event events ih =>
    obtain ⟨hevent, hevents⟩ := List.ne_and_not_mem_of_not_mem_cons hreturns
    exact (ih (h.next execute event) hevents).trans (h.lost_next hevent.symm)

/-! ## Progress -/

/-- Other events than the steps of the runner move its end no further than by what they hand in. -/
theorem pending_next (execute : List Char → Outcome) (h : History) (hreturns : event ≠ .crash)
    (hadvance : event ≠ .advance) :
    (h.next execute event).queue.pending + 3 * h.accepted.length =
      h.queue.pending + 3 * (h.next execute event).accepted.length := by
  cases event with
  | submit snippet =>
    obtain ⟨⟨depth, isOpen, waiting, phase, replies⟩, accepted, executed, lost, answers⟩ := h
    cases isOpen with
    | false => simp [next, submit, pending]
    | true =>
      cases hroom : hasRoom ⟨depth, true, waiting, phase, replies⟩ with
      | false => simp [next, submit, hroom]
      | true =>
        simp only [next, submit, hroom, pending, Bool.not_true, Bool.false_eq_true, if_false,
          if_true, List.length_append, List.length_singleton]
        omega
  | ask ticket =>
    simp only [next]
    split
    · rw [pending_poll]
    · rfl
  | close => rfl
  | advance => exact absurd rfl hadvance
  | crash => exact absurd rfl hreturns

namespace Consistent

/-- The snippets that the runner has had the steps for are executed. -/
theorem le_length_executed (hh : Consistent execute h) (hlost : h.lost = []) {n : Nat}
    (hn : 3 * n + h.queue.pending ≤ 3 * h.accepted.length) : n ≤ h.executed.length := by
  have haccepted := congrArg List.length hh.accepted_eq
  obtain ⟨⟨depth, isOpen, waiting, phase, replies⟩, accepted, executed, lost, answers⟩ := h
  subst hlost
  simp only [unfinished, List.length_append, List.length_nil] at haccepted hn ⊢
  cases phase with
  | idle =>
    simp only [pending, running, Option.toList, List.length_nil] at haccepted hn
    omega
  | executing ticket snippet =>
    simp only [pending, running, Option.toList, List.length_singleton] at haccepted hn
    omega
  | answered ticket =>
    simp only [pending, running, Option.toList, List.length_nil] at haccepted hn
    omega

/-- With enough steps of the runner the first `n` accepted snippets are executed, whatever happens
in between. -/
theorem le_length_executed_after (hh : Consistent execute h) (hlost : h.lost = [])
    (hreturns : .crash ∉ events) {n : Nat} (haccepted : n ≤ h.accepted.length)
    (hn : 3 * n + h.queue.pending ≤ 3 * h.accepted.length + events.count .advance) :
    n ≤ (h.after execute events).executed.length := by
  induction events generalizing h with
  | nil => exact hh.le_length_executed hlost hn
  | cons event events ih =>
    obtain ⟨hevent, hevents⟩ := List.ne_and_not_mem_of_not_mem_cons hreturns
    have hgrows := (h.accepted_prefix_next execute event).length_le
    refine ih (hh.next event) ((h.lost_next hevent.symm).trans hlost) hevents
      (Nat.le_trans haccepted hgrows) ?_
    by_cases hadvance : event = .advance
    · subst hadvance
      have hpending : (h.next execute .advance).queue.pending = h.queue.pending - 1 :=
        pending_advance execute h.queue
      have hsame : (h.next execute .advance).accepted = h.accepted := rfl
      rw [List.count_cons_self] at hn
      rw [hpending, hsame]
      omega
    · have hpending := h.pending_next execute hevent.symm hadvance
      rw [List.count_cons_of_ne hadvance] at hn
      omega

/-- All accepted snippets are executed after the steps that the runner has before it. -/
theorem accepted_prefix_executed (hh : Consistent execute h) (hlost : h.lost = [])
    (hreturns : .crash ∉ events) (hsteps : h.queue.pending ≤ events.count .advance) :
    h.accepted <+: (h.after execute events).executed := by
  have hafter := (hh.after events).accepted_eq
  rw [List.append_assoc] at hafter
  refine List.prefix_of_prefix_length_le (h.accepted_prefix_after events)
    (hafter ▸ List.prefix_append _ _) ?_
  exact hh.le_length_executed_after hlost hreturns (Nat.le_refl _) (by omega)

end Consistent

/-! ## Waiting -/

/-- The events while somebody waits for an outcome: the runner goes on to its end, and then the
ticket is asked for. -/
def waitFor (h : History) (ticket : Nat) : List Event :=
  List.replicate h.queue.pending .advance ++ [.ask ticket]

theorem executed_append_unfinished_next (h : History) :
    (h.next execute .advance).executed ++ (h.next execute .advance).queue.unfinished =
      h.executed ++ h.queue.unfinished := by
  obtain ⟨⟨depth, isOpen, waiting, phase, replies⟩, accepted, executed, lost, answers⟩ := h
  cases phase with
  | idle => cases waiting <;> simp [next, advance, unfinished, running]
  | executing ticket snippet => simp [next, advance, unfinished, running]
  | answered ticket => simp [next, advance, unfinished, running]

/-- The runner goes on to its end. -/
theorem after_replicate_advance (execute : List Char → Outcome) (h : History) :
    let ended := h.after execute (List.replicate h.queue.pending .advance)
    ended.queue = h.queue.drain execute ∧ ended.queue.pending = 0 ∧
      ended.executed = h.executed ++ h.queue.unfinished ∧ ended.answers = h.answers ∧
      ended.queue.replies.length = h.queue.replies.length := by
  generalize hsteps : h.queue.pending = steps
  induction steps generalizing h with
  | zero =>
    rw [drain, if_pos hsteps, unfinished_of_pending_eq_zero hsteps, List.append_nil]
    exact ⟨rfl, hsteps, rfl, rfl, rfl⟩
  | succ steps ih =>
    have hpending : (h.next execute .advance).queue.pending = steps :=
      (pending_advance execute h.queue).trans (by omega)
    obtain ⟨hqueue, hended, hexecuted, hanswers, hlength⟩ := ih _ hpending
    rw [drain, if_neg (by omega), ← executed_append_unfinished_next,
      ← length_replies_advance execute h.queue]
    exact ⟨hqueue, hended, hexecuted, hanswers, hlength⟩

namespace Consistent

theorem reply_of_not_mem (hh : Consistent execute h) {ticket : Nat}
    (hticket : ticket < h.queue.replies.length)
    (hnot : ∀ job ∈ h.executed ++ h.queue.unfinished, job.1 ≠ ticket) :
    h.queue.replies[ticket]? = some ⟨none, false⟩ :=
  (hh.void_stands ticket hticket hnot).2.1

/-- There is an answer to every ticket when the runner has nothing left to do. -/
theorem exists_poll_of_pending_eq_zero (hh : Consistent execute h) (hpending : h.queue.pending = 0)
    {ticket : Nat} (hticket : ticket < h.queue.replies.length) :
    ∃ o, (h.queue.poll ticket).2 = some o := by
  obtain ⟨hphase, -⟩ := eq_of_pending_eq_zero hpending
  have hawaited : ∃ outcome, h.queue.replies[ticket]? = some ⟨outcome, false⟩ := by
    by_cases hmem : ∃ job ∈ h.executed, job.1 = ticket
    · obtain ⟨job, hjob, rfl⟩ := hmem
      obtain ⟨⟨outcome, isAwaited⟩, hreply, hawaited, -⟩ := hh.executed_stands job hjob
      obtain rfl : isAwaited = false := by simpa [hphase] using hawaited
      exact ⟨outcome, hreply⟩
    · refine ⟨none, hh.reply_of_not_mem hticket fun job hjob hsame => hmem ⟨job, ?_, hsame⟩⟩
      rwa [unfinished_of_pending_eq_zero hpending, List.append_nil] at hjob
  obtain ⟨outcome, hreply⟩ := hawaited
  unfold poll
  rw [hreply]
  cases outcome with
  | some o => exact ⟨o, rfl⟩
  | none => exact ⟨stopped, rfl⟩

/-- Waiting for an outcome is a history: the runner is at its end, and what is answered is what was
waited for. -/
theorem after_wait (hh : Consistent execute h) {ticket : Nat}
    (hticket : ticket < h.queue.replies.length) :
    let waited := h.after execute (h.waitFor ticket)
    waited.queue = (h.queue.wait execute ticket).1 ∧ waited.queue.unfinished = [] ∧
      waited.executed = h.executed ++ h.queue.unfinished ∧
      waited.answers = h.answers ++ [(ticket, (h.queue.wait execute ticket).2)] := by
  intro waited
  have hends := h.after_replicate_advance execute
  generalize hended : h.after execute (List.replicate h.queue.pending .advance) = ended at hends
  obtain ⟨hqueue, hpending, hexecuted, hanswers, hlength⟩ := hends
  have hended' : Consistent execute ended := hended ▸ hh.after _
  obtain ⟨o, ho⟩ := hended'.exists_poll_of_pending_eq_zero hpending (hlength ▸ hticket)
  have hwaited : waited = ended.next execute (.ask ticket) := by
    unfold waited waitFor
    rw [after_append, hended]
    rfl
  have hwait : h.queue.wait execute ticket = ((ended.queue.poll ticket).1, o) := by
    unfold wait
    rw [← hqueue]
    dsimp only
    rw [ho]
    rfl
  have hunfinished : (ended.queue.poll ticket).1.unfinished = [] :=
    unfinished_of_pending_eq_zero ((pending_poll _ _).trans hpending)
  rw [hwaited, hwait, History.next, if_pos (hlength ▸ hticket)]
  dsimp only
  rw [ho, hexecuted, hanswers]
  exact ⟨rfl, hunfinished, rfl, rfl⟩

/-! ## Answers -/

theorem answersFor_of_mem_executed (hh : Consistent execute h) {job : Nat × List Char}
    (hjob : job ∈ h.executed) {i : Nat} {o : Outcome}
    (ho : (answersFor h.answers job.1)[i]? = some o) :
    o = if i = 0 then execute job.2 else stopped := by
  obtain ⟨_, -, -, hhands⟩ := hh.executed_stands job hjob
  exact hhands.eq_of_getElem? ho

theorem poll_of_mem_executed (hh : Consistent execute h) {job : Nat × List Char}
    (hjob : job ∈ h.executed) :
    (h.queue.poll job.1).2 =
      if answersFor h.answers job.1 = [] then some (execute job.2)
      else if h.queue.phase = .answered job.1 then none else some stopped := by
  obtain ⟨⟨outcome, isAwaited⟩, hreply, hawaited, hhands⟩ := hh.executed_stands job hjob
  dsimp only at hawaited hhands
  unfold poll
  rw [hreply]
  generalize answersFor h.answers job.1 = answers at hhands
  cases hhands with
  | ready => rfl
  | done times =>
    rw [if_neg (List.cons_ne_nil _ _)]
    by_cases hphase : h.queue.phase = .answered job.1
    · rw [decide_eq_true hphase] at hawaited
      rw [hawaited, if_pos hphase]
    · rw [decide_eq_false hphase] at hawaited
      rw [hawaited, if_neg hphase]

theorem poll_of_mem_unfinished (hh : Consistent execute h) {job : Nat × List Char}
    (hjob : job ∈ h.queue.unfinished) : (h.queue.poll job.1).2 = none := by
  unfold poll
  rw [(hh.unfinished_stands job hjob).1]

theorem poll_of_void (hh : Consistent execute h) {ticket : Nat}
    (hticket : ticket < h.queue.replies.length)
    (hnot : ∀ job ∈ h.executed ++ h.queue.unfinished, job.1 ≠ ticket) :
    (h.queue.poll ticket).2 = some stopped := by
  unfold poll
  rw [hh.reply_of_not_mem hticket hnot]

/-- Whoever waits for the outcome of a snippet is told it, unless the ticket has been answered
before. -/
theorem wait_of_mem (hh : Consistent execute h) {job : Nat × List Char}
    (hjob : job ∈ h.executed ++ h.queue.unfinished) :
    (h.queue.wait execute job.1).2 =
      if answersFor h.answers job.1 = [] then execute job.2 else stopped := by
  have hticket : job.1 < h.queue.replies.length :=
    hh.accepted_lt job (by rw [hh.accepted_eq]; exact List.mem_append_left _ hjob)
  obtain ⟨-, -, hexecuted, hanswers⟩ := hh.after_wait hticket
  have hlast := (hh.after (h.waitFor job.1)).answersFor_of_mem_executed (hexecuted ▸ hjob)
    (i := (answersFor h.answers job.1).length) (o := (h.queue.wait execute job.1).2)
    (by rw [hanswers, answersFor_append_self, List.getElem?_concat_length])
  rw [hlast]
  simp only [List.length_eq_zero_iff]

/-- Whoever waits for a snippet that is never executed is told that the runner has stopped. -/
theorem wait_of_void (hh : Consistent execute h) {ticket : Nat}
    (hticket : ticket < h.queue.replies.length)
    (hnot : ∀ job ∈ h.executed ++ h.queue.unfinished, job.1 ≠ ticket) :
    (h.queue.wait execute ticket).2 = stopped := by
  obtain ⟨hqueue, hunfinished, hexecuted, hanswers⟩ := hh.after_wait hticket
  have hwaited := hh.after (h.waitFor ticket)
  have hlt : ticket < (h.after execute (h.waitFor ticket)).queue.replies.length :=
    hwaited.answers_lt (ticket, (h.queue.wait execute ticket).2) (by rw [hanswers]; simp)
  obtain ⟨-, -, hstopped⟩ := hwaited.void_stands ticket hlt (by
    rwa [hunfinished, hexecuted, List.append_nil])
  refine hstopped _ ?_
  rw [hanswers, answersFor_append_self]
  exact List.mem_append_right _ List.mem_cons_self

end Consistent

end History

/-! ## The queue as a whole -/

theorem history_append (execute : List Char → Outcome) (depth : Nat) (events more : List Event) :
    history execute depth (events ++ more) = (history execute depth events).after execute more :=
  History.after_append _ _ _

/-- **Every accepted snippet is executed once, in order, and answered with its own outcome.** This
is so for every depth and every order of events, whenever the queue is closed, as long as the runner
does not break down over a snippet. -/
theorem executes_each_once (execute : List Char → Outcome) (depth : Nat) {events : List Event}
    (hreturns : .crash ∉ events) :
    let h := history execute depth events
    h.accepted = h.executed ++ h.queue.running.toList ++ h.queue.waiting ∧
    (h.accepted.map Prod.fst).Nodup ∧
    (∀ more, .crash ∉ more → h.queue.pending ≤ more.count .advance →
      h.accepted <+: (history execute depth (events ++ more)).executed) ∧
    ∀ job ∈ h.accepted,
      (∀ o, (answersFor h.answers job.1).head? = some o → o = execute job.2) ∧
      (answersFor h.answers job.1 = [] → (h.queue.wait execute job.1).2 = execute job.2) := by
  intro h
  have hh : h.Consistent execute := consistent_history execute depth events
  have hlost : h.lost = [] := (History.start depth).lost_after hreturns
  have haccepted : h.accepted = h.executed ++ h.queue.unfinished := by
    rw [hh.accepted_eq, hlost, List.append_nil]
  refine ⟨?_, hh.ascending.imp Nat.ne_of_lt, fun more hmore hsteps => ?_, fun job hjob => ⟨?_, ?_⟩⟩
  · rw [haccepted, List.append_assoc]
    rfl
  · rw [history_append]
    exact hh.accepted_prefix_executed hlost hmore hsteps
  · intro o ho
    rw [haccepted] at hjob
    obtain hexecuted | hunfinished := List.mem_append.1 hjob
    · rw [List.head?_eq_getElem?] at ho
      exact hh.answersFor_of_mem_executed hexecuted ho
    · rw [(hh.unfinished_stands job hunfinished).2] at ho
      exact absurd ho nofun
  · intro hnone
    rw [hh.wait_of_mem (haccepted ▸ hjob), if_pos hnone]

/-- Two snippets are handed in, and the queue is closed before the second one is taken. -/
theorem executes_each_once_closed :
    let execute snippet := (Program.ofSnippet snippet).interpret Settings.standard.policy.limits
    let first := "System.out.println(1);".toList
    let second := "System.out.println(2);".toList
    let events := [.submit first, .submit second, .advance, .close, .advance, .ask 0]
    let h := history execute 2 events
    .crash ∉ events ∧ answersFor h.answers 0 = [execute first] ∧
      (h.queue.wait execute 1).2 = execute second ∧
      [(0, first), (1, second)] <+:
        (history execute 2 (events ++ List.replicate 4 .advance)).executed := by
  intro execute first second events h
  have hreturns : .crash ∉ events := by simp [events]
  obtain ⟨-, -, hexecuted, hanswers⟩ := executes_each_once execute 2 hreturns
  obtain ⟨hfirst, -⟩ := hanswers (0, first) List.mem_cons_self
  obtain ⟨-, hsecond⟩ := hanswers (1, second) (List.mem_cons_of_mem _ List.mem_cons_self)
  obtain ⟨o, ho⟩ : ∃ o, answersFor h.answers 0 = [o] := ⟨_, rfl⟩
  refine ⟨hreturns, ?_, hsecond rfl, hexecuted _ (by simp) (Nat.le_refl _)⟩
  rw [ho, hfirst o (congrArg List.head? ho)]

/-- **All answers to a ticket.** When its snippet is executed, the first who asks is handed the
outcome. Whoever asks again has no answer until the runner is done with the snippet, and is told
from then on that the runner has stopped, even while it goes on. A ticket whose snippet is still to
be executed has no answers. If it never will be, because the queue was closed or the runner broke
down, there is no other answer than that the runner has stopped. -/
theorem answers_to_ticket (execute : List Char → Outcome) (depth : Nat) (events : List Event) :
    let h := history execute depth events
    (∀ job ∈ h.executed,
      (∀ i o, (answersFor h.answers job.1)[i]? = some o →
        o = if i = 0 then execute job.2 else stopped) ∧
      (h.queue.poll job.1).2 =
        if answersFor h.answers job.1 = [] then some (execute job.2)
        else if h.queue.phase = .answered job.1 then none else some stopped) ∧
    (∀ job ∈ h.queue.unfinished,
      answersFor h.answers job.1 = [] ∧ (h.queue.poll job.1).2 = none) ∧
    (∀ job ∈ h.executed ++ h.queue.unfinished,
      (h.queue.wait execute job.1).2 =
        if answersFor h.answers job.1 = [] then execute job.2 else stopped) ∧
    ∀ ticket < h.queue.replies.length,
      (∀ job ∈ h.executed ++ h.queue.unfinished, job.1 ≠ ticket) →
        h.queue.isOpen = false ∧ (∀ o ∈ answersFor h.answers ticket, o = stopped) ∧
          (h.queue.poll ticket).2 = some stopped ∧ (h.queue.wait execute ticket).2 = stopped := by
  intro h
  have hh : h.Consistent execute := consistent_history execute depth events
  refine ⟨fun job hjob => ⟨fun i o => hh.answersFor_of_mem_executed hjob,
    hh.poll_of_mem_executed hjob⟩, fun job hjob => ⟨(hh.unfinished_stands job hjob).2,
    hh.poll_of_mem_unfinished hjob⟩, fun job => hh.wait_of_mem, fun ticket hticket hnot => ?_⟩
  obtain ⟨hclosed, -, hstopped⟩ := hh.void_stands ticket hticket hnot
  exact ⟨hclosed, hstopped, hh.poll_of_void hticket hnot, hh.wait_of_void hticket hnot⟩

/-- An executed snippet seems to have failed when its ticket is asked for again. -/
theorem answers_to_ticket_askedAgain :
    let execute snippet := (Program.ofSnippet snippet).interpret Settings.standard.policy.limits
    let snippet := "System.out.println(1);".toList
    let h := history execute 1 [.submit snippet, .advance, .advance, .advance, .ask 0]
    h.queue.isOpen = true ∧ h.executed = [(0, snippet)] ∧
      answersFor h.answers 0 = [execute snippet] ∧
      (h.queue.poll 0).2 = some stopped ∧ (h.queue.wait execute 0).2 = stopped ∧
      (execute snippet).success = true := by
  intro execute snippet h
  obtain ⟨hexecuted, -, hwait, -⟩ := answers_to_ticket execute 1
    [.submit snippet, .advance, .advance, .advance, .ask 0]
  obtain ⟨-, hpoll⟩ := hexecuted (0, snippet) List.mem_cons_self
  exact ⟨rfl, rfl, rfl, hpoll, hwait (0, snippet) List.mem_cons_self, by decide +kernel⟩

end Queue

/-! ## A runner behind the queue -/

/-- No execution looks as if the runner had stopped. -/
theorem Runner.outcome_execute_ne_stopped (r : Runner) (d : WorkDir) (snippet : List Char) :
    (r.execute d snippet).outcome ≠ Queue.stopped := by
  rw [outcome_execute]
  unfold report
  cases hdown : turnedDown? r.settings.policy snippet with
  | some o =>
    have hmessage : o.errorMessage ≠ Queue.stopped.errorMessage := by
      unfold turnedDown? at hdown
      split at hdown
      · obtain rfl := Option.some.inj hdown
        decide
      · obtain ⟨rule, -, rfl⟩ := Option.map_eq_some_iff.1 hdown
        exact (by decide : some "Code contains unsafe operations" ≠ some "execution worker stopped")
    exact fun hsame => hmessage (congrArg Outcome.errorMessage hsame)
  | none =>
    have htier : ∀ o : Outcome, o.tier ≠ .none → o ≠ Queue.stopped :=
      fun o ho hsame => ho (congrArg Outcome.tier hsame)
    apply htier
    dsimp only
    split
    · exact tier_conclude_ne _ _ _
    · rw [Program.tier_interpret]
      exact nofun

namespace Queue

/-- **When the runner seems to have stopped** to somebody who waits for an outcome: exactly if the
snippet is never executed or the ticket has been answered before. -/
theorem wait_eq_stopped_iff (r : Runner) (d : WorkDir) (depth : Nat) (events : List Event)
    {ticket : Nat} :
    let execute snippet := (r.execute d snippet).outcome
    let h := history execute depth events
    ticket < h.queue.replies.length →
      ((h.queue.wait execute ticket).2 = stopped ↔
        (∀ job ∈ h.executed ++ h.queue.unfinished, job.1 ≠ ticket) ∨
          answersFor h.answers ticket ≠ []) := by
  intro execute h hticket
  have hh : h.Consistent execute := consistent_history execute depth events
  constructor
  · intro hstopped
    rw [or_iff_not_imp_left]
    intro hmem hnone
    push Not at hmem
    obtain ⟨job, hjob, rfl⟩ := hmem
    rw [hh.wait_of_mem hjob, if_pos hnone] at hstopped
    exact r.outcome_execute_ne_stopped d job.2 hstopped
  · intro hwhen
    by_cases hmem : ∃ job ∈ h.executed ++ h.queue.unfinished, job.1 = ticket
    · obtain ⟨job, hjob, rfl⟩ := hmem
      obtain hnot | hasked := hwhen
      · exact absurd rfl (hnot job hjob)
      · rw [hh.wait_of_mem hjob, if_neg hasked]
    · exact hh.wait_of_void hticket fun job hjob hsame => hmem ⟨job, hjob, hsame⟩

end Queue

end SnippetRunner
