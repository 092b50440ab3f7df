import HmcClient.Exchange.Script
import HmcClient.Job.Waiting

/-!
# What a wait for a job goes through

A wait is surrounded by what it does not know beforehand: what its polls are answered and how long
that takes, how long its pauses really take, and when it is cancelled. `Surroundings` are any such.
Against them a wait goes through one round after the other, and `Waits` says once what can happen in
a round: the job is at its end, the poll fails, there is no time for another poll, the pause is
cancelled, or there is another round.

That is all that is ever used of the loop. `Waits.run_eq` says that the loop does what `Waits`
tells, and `exists_waits` that `Waits` tells something of every wait. Whatever holds of all waits is
then an induction on `Waits`, in which time is only a number and the loop does not occur.
-/

namespace HmcClient.Job

/-! ## Surroundings -/

/-- What surrounds a wait. Answers are counted from the first poll, and a pause is told by the
number of polls before it. -/
structure Surroundings where
  answers : Nat → ScriptedAnswer
  /-- How long a pause takes that is meant to take some time. -/
  lasting : Nat → Duration → Duration
  cancelledAt : Option Duration
  /-- Whether a pause notices a cancellation at the very moment at which it ends. -/
  notices : Nat → Bool

/-- One look at a job. -/
structure Poll where
  begun : Duration
  ended : Duration
  request : Request
  answer : Result Response

/-- What a wait has done so far, its first poll first. -/
structure Diary where
  clock : Duration
  polls : List Poll

namespace Surroundings

variable {α : Type}

/-- A poll that is begun at a moment, after so many others. -/
def poll (w : Surroundings) (r : Request) (count : Nat) (clock : Duration) : Poll :=
  ⟨clock, ⟨clock.nanoseconds + (w.answers count).delay.nanoseconds⟩, r, (w.answers count).answer⟩

/-- When a pause ends that is begun at a moment, after so many polls. -/
def pausedUntil (w : Surroundings) (interval : Duration) (count : Nat) (clock : Duration) :
    Duration :=
  ⟨clock.nanoseconds + (w.lasting count interval).nanoseconds⟩

/-- The moment of the cancellation, if that ends a pause. -/
def interruption? (w : Surroundings) (interval : Duration) (count : Nat) (clock : Duration) :
    Option Duration :=
  let ended := w.pausedUntil interval count clock
  w.cancelledAt.filter fun t =>
    t.nanoseconds ≤ clock.nanoseconds || t.nanoseconds < ended.nanoseconds ||
      (w.notices count && t == ended)

/-- Answers an effect. -/
def handle (w : Surroundings) : (effect : Talk.Effect) → Diary → Talk.Answer effect × Diary
  | .execute r, d =>
    let poll := w.poll r d.polls.length d.clock
    (poll.answer, ⟨poll.ended, d.polls ++ [poll]⟩)
  | .sessionId, d => (none, d)
  | .now, d => (d.clock, d)
  | .pause interval cancellable, d =>
    match if cancellable then w.interruption? interval d.polls.length d.clock else none with
    | some t => (true, { d with clock := ⟨max d.clock.nanoseconds t.nanoseconds⟩ })
    | none => (false, { d with clock := w.pausedUntil interval d.polls.length d.clock })

/-- Runs a program from a moment on. -/
def run (w : Surroundings) (p : Program Talk α) (start : Duration) : α × Diary :=
  p.run w.handle ⟨start, []⟩

/-- A pause that is not cancelled ends no later than the cancellation. -/
theorem pausedUntil_le {w : Surroundings} {interval clock t : Duration} {count : Nat}
    (ht : w.cancelledAt = some t) (hgoes : w.interruption? interval count clock = none) :
    (w.pausedUntil interval count clock).nanoseconds ≤ t.nanoseconds := by
  simp only [interruption?, ht, Option.filter_eq_none_iff, Bool.or_eq_true, decide_eq_true_eq,
    not_or] at hgoes
  have := (hgoes t rfl).1.2
  omega

theorem cancelledAt_of_interruption {w : Surroundings} {interval clock t : Duration} {count : Nat}
    (hstop : w.interruption? interval count clock = some t) :
    w.cancelledAt = some t ∧ t.nanoseconds ≤ (w.pausedUntil interval count clock).nanoseconds := by
  obtain ⟨ht, hwhen⟩ := Option.filter_eq_some_iff.mp hstop
  refine ⟨ht, ?_⟩
  simp only [Bool.or_eq_true, decide_eq_true_eq, Bool.and_eq_true, beq_iff_eq] at hwhen
  rcases hwhen with (hwhen | hwhen) | ⟨-, rfl⟩
  · have : clock.nanoseconds ≤ (w.pausedUntil interval count clock).nanoseconds :=
      Nat.le_add_right _ _
    omega
  · omega
  · exact Nat.le_refl _

end Surroundings

/-! ## Polls -/

/-- The request that a poll makes. -/
def pollRequest (e : Endpoint) (uri : String) (cancellable : Bool) : Request :=
  { e.get uri with cancellable := cancellable }

/-- What the answer to a poll tells of the job. -/
def told (uri : String) (answer : Result Response) : Result Job := do
  let response ← answer
  let job ← response.document codec [200]
  return { job with uri := uri }

/-- Whether a poll tells that the job is not at its end. -/
def Poll.Pending (p : Poll) (uri : String) : Prop :=
  ∃ job, told uri p.answer = .ok job ∧ job.status.isTerminal = false

theorem uri_of_told {uri : String} {answer : Result Response} {job : Job}
    (h : told uri answer = .ok job) : job.uri = uri := by
  rcases answer with failure | response
  · cases h
  · rcases hread : response.document codec [200] with failure | job'
    · simp only [told, hread, bind, Except.bind, reduceCtorEq] at h
    · simp only [told, hread, bind, Except.bind, pure, Except.pure, Except.ok.injEq] at h
      rw [← h]

theorem run_fetch (e : Endpoint) (uri : String) (cancellable : Bool) :
    (fetch e uri cancellable).run =
      .perform (.execute (pollRequest e uri cancellable)) fun answer =>
        .done (told uri answer) := by
  refine congrArg (Program.perform _) (funext fun answer => ?_)
  rcases answer with failure | response
  · rfl
  · show Program.bind (.done (response.document codec [200])) _ =
      .done (response.document codec [200] >>= fun job => pure { job with uri := uri })
    cases response.document codec [200] with
    | error failure => rfl
    | ok job => rfl

/-! ## Rounds -/

/-- The time between two moments. -/
def between (start now : Duration) : Duration := ⟨now.nanoseconds - start.nanoseconds⟩

variable {w : Surroundings} {e : Endpoint} {r : Request} {uri : String} {s : PollSettings}
  {start clock : Duration} {rounds count : Nat} {polls : List Poll}
  {ending : WaitEnd} {cancellable : Bool}

namespace Surroundings

/-- When the round after a poll begins, unless something ends the wait before. -/
def nextRound (w : Surroundings) (r : Request) (s : PollSettings) (count : Nat)
    (clock : Duration) : Duration :=
  w.pausedUntil s.interval (count + 1) (w.poll r count clock).ended

/-- The moment of the cancellation, if that ends the pause after a poll. -/
def stop? (w : Surroundings) (r : Request) (s : PollSettings) (count : Nat) (clock : Duration) :
    Option Duration :=
  if r.cancellable then w.interruption? s.interval (count + 1) (w.poll r count clock).ended
  else none

end Surroundings

/-- What a wait goes through from a moment on, if it has polled so many times before: its polls, and
how it ends. -/
inductive Waits (w : Surroundings) (r : Request) (uri : String) (s : PollSettings)
    (start : Duration) : Nat → Nat → Duration → List Poll → WaitEnd → Prop where
  | unfinished {count : Nat} {clock : Duration} : Waits w r uri s start 0 count clock [] .unfinished
  /-- The job is at its end. -/
  | finished {rounds count : Nat} {clock : Duration} {job : Job}
    (htold : told uri (w.poll r count clock).answer = .ok job)
    (hjob : job.status.isTerminal = true) :
    Waits w r uri s start (rounds + 1) count clock [w.poll r count clock] (.finished job)
  /-- The poll fails. -/
  | failed {rounds count : Nat} {clock : Duration} {failure : Failure}
    (htold : told uri (w.poll r count clock).answer = .error failure) :
    Waits w r uri s start (rounds + 1) count clock [w.poll r count clock] (.failed failure)
  /-- There is no time for another poll. -/
  | late {rounds count : Nat} {clock : Duration} {ending : WaitEnd}
    (hpending : (w.poll r count clock).Pending uri)
    (hlate : tooLate? uri s (between start (w.poll r count clock).ended) = some ending) :
    Waits w r uri s start (rounds + 1) count clock [w.poll r count clock] ending
  /-- The pause is cancelled. -/
  | cancelled {rounds count : Nat} {clock t : Duration}
    (hpending : (w.poll r count clock).Pending uri)
    (htime : tooLate? uri s (between start (w.poll r count clock).ended) = none)
    (hstop : w.stop? r s count clock = some t) :
    Waits w r uri s start (rounds + 1) count clock [w.poll r count clock]
      (.failed (.ofCause (.jobWaitCancelled uri)))
  /-- There is another round. -/
  | again {rounds count : Nat} {clock : Duration} {polls : List Poll} {ending : WaitEnd}
    (hpending : (w.poll r count clock).Pending uri)
    (htime : tooLate? uri s (between start (w.poll r count clock).ended) = none)
    (hgoes : w.stop? r s count clock = none)
    (hrest : Waits w r uri s start rounds (count + 1) (w.nextRound r s count clock) polls ending) :
    Waits w r uri s start (rounds + 1) count clock (w.poll r count clock :: polls) ending

theorem exists_waits (w : Surroundings) (r : Request) (uri : String) (s : PollSettings)
    (start : Duration) (rounds count : Nat) (clock : Duration) :
    ∃ polls ending, Waits w r uri s start rounds count clock polls ending := by
  induction rounds generalizing count clock with
  | zero => exact ⟨_, _, .unfinished⟩
  | succ rounds ih =>
      rcases htold : told uri (w.poll r count clock).answer with failure | job
      · exact ⟨_, _, .failed htold⟩
      · rcases hjob : job.status.isTerminal with _ | _
        · have hpending : (w.poll r count clock).Pending uri := ⟨job, htold, hjob⟩
          rcases htime : tooLate? uri s (between start (w.poll r count clock).ended) with _ | ending
          · rcases hstop : w.stop? r s count clock with _ | t
            · obtain ⟨polls, ending, hrest⟩ := ih (count + 1) (w.nextRound r s count clock)
              exact ⟨_, _, .again hpending htime hstop hrest⟩
            · exact ⟨_, _, .cancelled hpending htime hstop⟩
          · exact ⟨_, _, .late hpending htime⟩
        · exact ⟨_, _, .finished htold hjob⟩

/-! ## The loop -/

/-- One round of the loop: the poll, and what follows from its answer. -/
theorem run_waitFrom_succ (w : Surroundings) (uri : String) (s : PollSettings)
    (cancellable : Bool) (d : Diary) (poll : Poll)
    (hpoll : poll = w.poll (pollRequest e uri cancellable) d.polls.length d.clock) :
    (waitFrom e uri s cancellable start (rounds + 1)).run w.handle d =
      match told uri poll.answer with
      | .error failure => (.failed failure, ⟨poll.ended, d.polls ++ [poll]⟩)
      | .ok job =>
        if job.status.isTerminal then (.finished job, ⟨poll.ended, d.polls ++ [poll]⟩)
        else
          match tooLate? uri s (between start poll.ended) with
          | some ending => (ending, ⟨poll.ended, d.polls ++ [poll]⟩)
          | none =>
            match w.stop? (pollRequest e uri cancellable) s d.polls.length d.clock with
            | some t =>
              (.failed (.ofCause (.jobWaitCancelled uri)),
                ⟨⟨max poll.ended.nanoseconds t.nanoseconds⟩, d.polls ++ [poll]⟩)
            | none => (waitFrom e uri s cancellable start rounds).run w.handle
                ⟨w.nextRound (pollRequest e uri cancellable) s d.polls.length d.clock,
                  d.polls ++ [poll]⟩ := by
  rw [waitFrom, run_fetch]
  simp only [bind, Program.bind, Program.run, Surroundings.handle, ← hpoll]
  rcases told uri poll.answer with failure | job
  · rfl
  · rcases hjob : job.status.isTerminal with _ | _
    · simp only [hjob, Bool.false_eq_true, if_false, Program.ask, Program.bind, Program.run,
        Surroundings.handle]
      have hstop : (if cancellable then
          w.interruption? s.interval (d.polls ++ [poll]).length poll.ended else none) =
          w.stop? (pollRequest e uri cancellable) s d.polls.length d.clock := by
        rw [hpoll, List.length_append]
        rfl
      have hnext : w.pausedUntil s.interval (d.polls ++ [poll]).length poll.ended =
          w.nextRound (pollRequest e uri cancellable) s d.polls.length d.clock := by
        rw [hpoll, List.length_append]
        rfl
      rw [between]
      rcases tooLate? uri s _ with _ | ending
      · simp only [Program.run, Surroundings.handle, hstop, hnext]
        rcases w.stop? (pollRequest e uri cancellable) s d.polls.length d.clock with _ | t
        · rfl
        · rfl
      · rfl
    · simp only [hjob, if_true]
      rfl

theorem Waits.run_eq
    (h : Waits w (pollRequest e uri cancellable) uri s start rounds count clock polls ending)
    {d : Diary} (hclock : d.clock = clock) (hcount : d.polls.length = count) :
    ((waitFrom e uri s cancellable start rounds).run w.handle d).1 = ending ∧
      ((waitFrom e uri s cancellable start rounds).run w.handle d).2.polls = d.polls ++ polls := by
  induction h generalizing d with
  | unfinished => exact ⟨rfl, (List.append_nil d.polls).symm⟩
  | finished htold hjob =>
      subst hclock hcount
      simp only [run_waitFrom_succ w uri s cancellable d _ rfl, htold, hjob, if_true, and_self]
  | failed htold =>
      subst hclock hcount
      simp only [run_waitFrom_succ w uri s cancellable d _ rfl, htold, and_self]
  | late hpending hlate =>
      obtain ⟨job, htold, hjob⟩ := hpending
      subst hclock hcount
      simp only [run_waitFrom_succ w uri s cancellable d _ rfl, htold, hjob, hlate, and_self,
        Bool.false_eq_true, if_false]
  | cancelled hpending htime hstop =>
      obtain ⟨job, htold, hjob⟩ := hpending
      subst hclock hcount
      simp only [run_waitFrom_succ w uri s cancellable d _ rfl, htold, hjob, htime, hstop, and_self,
        Bool.false_eq_true, if_false]
  | again hpending htime hgoes hrest ih =>
      obtain ⟨job, htold, hjob⟩ := hpending
      subst hclock hcount
      simp only [run_waitFrom_succ w uri s cancellable d _ rfl, htold, hjob, htime, hgoes,
        Bool.false_eq_true, if_false]
      obtain ⟨hending, hpolls⟩ := ih
        (d := ⟨_, d.polls ++ [w.poll _ d.polls.length d.clock]⟩) rfl List.length_append
      exact ⟨hending, hpolls.trans (List.append_assoc _ _ _)⟩

/-! ## Waits from their start -/

namespace Surroundings

/-- How a wait ends that begins at a moment. -/
def waitEnd (w : Surroundings) (e : Endpoint) (uri : String) (s : PollSettings)
    (cancellable : Bool) (rounds : Nat) (start : Duration) : WaitEnd :=
  (w.run (wait e uri s cancellable rounds) start).1

/-- The polls of that wait. -/
def waitPolls (w : Surroundings) (e : Endpoint) (uri : String) (s : PollSettings)
    (cancellable : Bool) (rounds : Nat) (start : Duration) : List Poll :=
  (w.run (wait e uri s cancellable rounds) start).2.polls

/-- How a wait for a success ends. -/
def successEnd (w : Surroundings) (e : Endpoint) (handle : JobHandle) (s : PollSettings)
    (rounds : Nat) (start : Duration) : WaitEnd :=
  (w.run (waitForSuccess e handle s rounds) start).1

theorem successEnd_eq (w : Surroundings) (e : Endpoint) (handle : JobHandle) (s : PollSettings)
    (rounds : Nat) (start : Duration) :
    w.successEnd e handle s rounds start =
      (w.waitEnd e handle.uri s false rounds start).successful := by
  rw [successEnd, run, waitForSuccess]
  show (Program.run (S := Talk) w.handle (Program.bind _ _) _).1 = _
  rw [Program.run_bind]
  rfl

end Surroundings

theorem waits_iff :
    Waits w (pollRequest e uri cancellable) uri s start rounds 0 start polls ending ↔
      w.waitEnd e uri s cancellable rounds start = ending ∧
        w.waitPolls e uri s cancellable rounds start = polls := by
  have hrun {polls : List Poll} {ending : WaitEnd}
      (h : Waits w (pollRequest e uri cancellable) uri s start rounds 0 start polls ending) :
      w.waitEnd e uri s cancellable rounds start = ending ∧
        w.waitPolls e uri s cancellable rounds start = polls :=
    h.run_eq (d := ⟨start, []⟩) rfl rfl
  refine ⟨hrun, ?_⟩
  rintro ⟨rfl, rfl⟩
  obtain ⟨polls, ending, h⟩ :=
    exists_waits w (pollRequest e uri cancellable) uri s start rounds 0 start
  obtain ⟨rfl, rfl⟩ := hrun h
  exact h

end HmcClient.Job
