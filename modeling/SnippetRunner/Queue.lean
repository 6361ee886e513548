import SnippetRunner.Outcome

/-!
# A queue before one runner

Snippets are handed in, and one runner executes them strictly one at a time in the order they came
in. Whoever hands one in gets a ticket, the number of the submission, and asks for the outcome with
it.

`Queue.submit`, `Queue.advance`, `Queue.close`, `Queue.crash` and `Queue.poll` are the single steps,
so any order of them is a history of a queue. The runner's part of a history ends
(`pending_advance_lt`), and `drain` runs it to the end.

An outcome is handed out once. Whoever asks again, like one whose snippet was never executed, is
told that the runner has stopped.
-/

namespace SnippetRunner

/-- What a ticket stands for. -/
structure Reply where
  /-- The outcome, until it is handed out. -/
  outcome : Option Outcome
  /-- Whether the runner may still answer. -/
  isAwaited : Bool
  deriving Repr

/-- What the runner is doing. -/
inductive Phase
  | idle
  | executing (ticket : Nat) (snippet : List Char)
  /-- The outcome has been left for the ticket's owner. -/
  | answered (ticket : Nat)
  deriving DecidableEq, Repr

/-- A queue of snippets before a runner. -/
structure Queue where
  /-- How many snippets may wait. -/
  depth : Nat
  /-- Whether snippets are still accepted. -/
  isOpen : Bool
  /-- The snippets that wait, with their tickets. -/
  waiting : List (Nat × List Char)
  phase : Phase
  /-- The replies to all tickets, in the order they were given out. -/
  replies : List Reply
  deriving Repr

namespace Queue

/-- How many snippets may wait unless it is set. -/
def standardDepth : Nat := 32

/-- The answer where no outcome is to come. -/
def stopped : Outcome :=
  let message := "execution worker stopped"
  .failed message [.error message none] .none

/-- A queue with nothing in it. -/
def empty (depth : Nat) : Queue := ⟨depth, true, [], .idle, []⟩

/-- Whether a snippet is taken now. If none may wait, it has to go straight to the runner. -/
def hasRoom (q : Queue) : Bool :=
  q.waiting.length < q.depth || (q.depth = 0 && q.waiting.isEmpty && q.phase = .idle)

/-- Hands in a snippet, and gives out its ticket. With a closed queue the ticket is void. Nothing
happens as long as there is no room. -/
def submit (q : Queue) (snippet : List Char) : Option (Queue × Nat) :=
  let ticket := q.replies.length
  if !q.isOpen then some ({ q with replies := q.replies ++ [⟨none, false⟩] }, ticket)
  else if q.hasRoom then
    some ({ q with
      waiting := q.waiting ++ [(ticket, snippet)]
      replies := q.replies ++ [⟨none, true⟩] }, ticket)
  else none

/-- The next step of the runner: to take a snippet, to leave its outcome, or to be done with it. -/
def advance (execute : List Char → Outcome) (q : Queue) : Queue :=
  match q.phase with
  | .idle =>
    match q.waiting with
    | [] => q
    | (ticket, snippet) :: rest => { q with waiting := rest, phase := .executing ticket snippet }
  | .executing ticket snippet =>
    { q with
      phase := .answered ticket
      replies := q.replies.modify ticket fun r => { r with outcome := some (execute snippet) } }
  | .answered ticket =>
    { q with
      phase := .idle
      replies := q.replies.modify ticket fun r => { r with isAwaited := false } }

/-- No more snippets are accepted; those that wait are still executed. -/
def close (q : Queue) : Queue := { q with isOpen := false }

/-- The runner breaks down over the snippet that it executes. It takes and answers none any more,
and no more snippets are accepted. A runner that does not execute a snippet does not break down. -/
def crash (q : Queue) : Queue :=
  match q.phase with
  | .executing _ _ =>
    { q with
      isOpen := false
      waiting := []
      phase := .idle
      replies := q.replies.map fun r => { r with isAwaited := false } }
  | .idle | .answered _ => q

/-- Asks for the outcome of a ticket: there is none yet as long as the runner may still answer. -/
def poll (q : Queue) (ticket : Nat) : Queue × Option Outcome :=
  match q.replies[ticket]? with
  | some ⟨some outcome, _⟩ =>
    ({ q with replies := q.replies.modify ticket fun r => { r with outcome := none } },
      some outcome)
  | some ⟨none, true⟩ => (q, none)
  | some ⟨none, false⟩ | none => (q, some stopped)

/-- How many steps the runner has before it. -/
def pending (q : Queue) : Nat :=
  3 * q.waiting.length +
    match q.phase with
    | .idle => 0
    | .executing _ _ => 2
    | .answered _ => 1

theorem pending_advance (execute : List Char → Outcome) (q : Queue) :
    (q.advance execute).pending = q.pending - 1 := by
  obtain ⟨depth, isOpen, waiting, phase, replies⟩ := q
  cases phase with
  | idle =>
    cases waiting with
    | nil => rfl
    | cons job rest =>
      simp only [advance, pending, List.length_cons]
      omega
  | executing ticket snippet => rfl
  | answered ticket => rfl

theorem pending_advance_lt (execute : List Char → Outcome) {q : Queue} (h : q.pending ≠ 0) :
    (q.advance execute).pending < q.pending := by
  rw [pending_advance]
  omega

/-- Lets the runner go on until it has nothing left to do. -/
def drain (execute : List Char → Outcome) (q : Queue) : Queue :=
  if q.pending = 0 then q else drain execute (q.advance execute)
  termination_by q.pending
  decreasing_by exact pending_advance_lt execute (by assumption)

/-- Hands in a snippet, as soon as there is room for it. -/
def submitWhenRoom (execute : List Char → Outcome) (q : Queue) (snippet : List Char) :
    Queue × Nat :=
  match q.submit snippet with
  | some submitted => submitted
  | none => ((q.drain execute).submit snippet).getD (q, q.replies.length)

/-- Hands in snippets one after another. -/
def submitAll (execute : List Char → Outcome) (q : Queue) : List (List Char) → Queue × List Nat
  | [] => (q, [])
  | snippet :: rest =>
    let (q, ticket) := q.submitWhenRoom execute snippet
    let (q, tickets) := submitAll execute q rest
    (q, ticket :: tickets)

/-- Waits for the outcome of a ticket. -/
def wait (execute : List Char → Outcome) (q : Queue) (ticket : Nat) : Queue × Outcome :=
  let (q, outcome) := (q.drain execute).poll ticket
  (q, outcome.getD stopped)

/-- Waits for the outcomes of tickets one after another. -/
def waitAll (execute : List Char → Outcome) (q : Queue) : List Nat → List Outcome
  | [] => []
  | ticket :: rest =>
    let (q, outcome) := q.wait execute ticket
    outcome :: waitAll execute q rest

/-- Hands in snippets one after another, each when the outcome of the one before it is there. -/
def executeEach (execute : List Char → Outcome) (q : Queue) : List (List Char) → List Outcome
  | [] => []
  | snippet :: rest =>
    let (q, ticket) := q.submitWhenRoom execute snippet
    let (q, outcome) := q.wait execute ticket
    outcome :: executeEach execute q rest

end Queue

end SnippetRunner
