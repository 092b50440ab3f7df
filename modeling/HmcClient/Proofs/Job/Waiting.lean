import Mathlib.Tactic.Common
import HmcClient.Proofs.Job.Polling

/-!
# How a wait for a job ends

Nothing is assumed about the surroundings of a wait. Whatever its polls are answered and however
long anything takes, a wait only reads the job, it ends in one of five ways, and which one it is can
be told from its last poll and the time. If it never ends, all its polls have told that the job goes
on.

Four of the ways give a result: the job at its end, the failure of a poll, the end of the time, and
cancellation. The fifth gives none. The test for the time limit adds the interval to the time that
has passed, and that sum may be longer than the longest span (`waits_without_result`).

With a time limit a wait does end. Every round takes at least the interval, so the number of rounds
that are possible before the limit is known beforehand, and a wait that is given more of them does
not use them up.
-/

namespace HmcClient.Job

variable {w : Surroundings} {e : Endpoint} {r : Request} {uri : String} {s : PollSettings}
  {start clock t limit elapsed : Duration} {rounds rounds' count : Nat} {polls : List Poll}
  {ending : WaitEnd} {cancellable : Bool}

/-! ## The time limit -/

theorem tooLate?_eq_some (h : tooLate? uri s elapsed = some ending) :
    ∃ limit, s.timeout = some limit ∧
      (ending = .overflowed ∧
          Duration.max.nanoseconds < elapsed.nanoseconds + s.interval.nanoseconds ∨
        ending = .failed (.ofCause (.jobTimedOut limit uri)) ∧
          limit.nanoseconds < elapsed.nanoseconds + s.interval.nanoseconds ∧
          elapsed.nanoseconds + s.interval.nanoseconds ≤ Duration.max.nanoseconds) := by
  rw [tooLate?] at h
  split at h
  next => cases h
  next limit hlimit =>
    refine ⟨limit, hlimit, ?_⟩
    rw [Duration.add?] at h
    by_cases hsum : elapsed.nanoseconds + s.interval.nanoseconds ≤ Duration.max.nanoseconds
    · rw [if_pos hsum] at h
      split at h
      next hnext => cases hnext
      next next hnext =>
        cases hnext
        split at h
        next hlate => exact .inr ⟨(Option.some.inj h).symm, hlate, hsum⟩
        next => cases h
    · rw [if_neg hsum] at h
      exact .inl ⟨(Option.some.inj h).symm, by omega⟩

theorem le_of_tooLate?_eq_none (h : tooLate? uri s elapsed = none)
    (hlimit : s.timeout = some limit) :
    elapsed.nanoseconds + s.interval.nanoseconds ≤ limit.nanoseconds ∧
      elapsed.nanoseconds + s.interval.nanoseconds ≤ Duration.max.nanoseconds := by
  simp only [tooLate?, hlimit, Duration.add?] at h
  by_cases hsum : elapsed.nanoseconds + s.interval.nanoseconds ≤ Duration.max.nanoseconds
  · simp only [if_pos hsum] at h
    split at h
    next => cases h
    next hlate => exact ⟨Nat.le_of_not_lt hlate, hsum⟩
  · simp only [if_neg hsum, reduceCtorEq] at h

theorem add_le_of_tooLate? (h : tooLate? uri s elapsed = none) (hlimit : s.timeout = some limit) :
    elapsed.nanoseconds + s.interval.nanoseconds ≤ limit.nanoseconds :=
  (le_of_tooLate?_eq_none h hlimit).1

/-! ## What all waits have in common -/

namespace Waits

theorem requests (h : Waits w r uri s start rounds count clock polls ending) :
    ∀ p ∈ polls, p.request = r := by
  induction h with
  | unfinished => exact fun _ hp => absurd hp List.not_mem_nil
  | again hpending htime hgoes hrest ih =>
      exact List.forall_mem_cons.mpr ⟨rfl, ih⟩
  | finished | failed | late | cancelled =>
      exact List.forall_mem_singleton.mpr rfl

theorem answers (h : Waits w r uri s start rounds count clock polls ending) :
    polls.map (·.answer) =
      (List.range' count polls.length).map fun i => (w.answers i).answer := by
  induction h with
  | unfinished => rfl
  | again hpending htime hgoes hrest ih =>
      rw [List.map_cons, ih, List.length_cons, List.range'_succ, List.map_cons]
      rfl
  | finished | failed | late | cancelled => rfl

/-- The first poll, if there is one, is begun at once. -/
theorem begun (h : Waits w r uri s start rounds count clock polls ending) :
    ∀ p ∈ polls, p.begun = clock ∨ p ∈ polls.tail := by
  cases h with
  | unfinished => exact fun _ hp => absurd hp List.not_mem_nil
  | again => exact List.forall_mem_cons.mpr ⟨.inl rfl, fun _ hp => .inr hp⟩
  | finished | failed | late | cancelled => exact List.forall_mem_singleton.mpr (.inl rfl)

/-- The number of rounds matters only to a wait that uses them up. -/
theorem more (h : Waits w r uri s start rounds count clock polls ending)
    (hended : ending ≠ .unfinished) (hrounds : rounds ≤ rounds') :
    Waits w r uri s start rounds' count clock polls ending := by
  induction h generalizing rounds' with
  | unfinished => exact absurd rfl hended
  | finished htold hjob =>
      obtain ⟨n, rfl⟩ := Nat.exists_eq_add_of_le' hrounds
      exact .finished htold hjob
  | failed htold =>
      obtain ⟨n, rfl⟩ := Nat.exists_eq_add_of_le' hrounds
      exact .failed htold
  | late hpending hlate =>
      obtain ⟨n, rfl⟩ := Nat.exists_eq_add_of_le' hrounds
      exact .late hpending hlate
  | cancelled hpending htime hstop =>
      obtain ⟨n, rfl⟩ := Nat.exists_eq_add_of_le' hrounds
      exact .cancelled hpending htime hstop
  | again hpending htime hgoes hrest ih =>
      obtain ⟨n, rfl⟩ := Nat.exists_eq_add_of_le' hrounds
      exact .again hpending htime hgoes (ih hended (Nat.le_of_succ_le_succ hrounds))

theorem of_unfinished (h : Waits w r uri s start rounds count clock polls .unfinished) :
    polls.length = rounds ∧ ∀ p ∈ polls, p.Pending uri := by
  generalize hending : WaitEnd.unfinished = ending at h
  induction h with
  | unfinished => exact ⟨rfl, fun _ hp => absurd hp List.not_mem_nil⟩
  | finished | failed | cancelled => cases hending
  | late hpending hlate =>
      obtain ⟨limit, -, ⟨rfl, -⟩ | ⟨rfl, -⟩⟩ := tooLate?_eq_some hlate
      · cases hending
      · cases hending
  | again hpending htime hgoes hrest ih =>
      obtain ⟨hlength, hall⟩ := ih hending
      exact ⟨congrArg (· + 1) hlength, List.forall_mem_cons.mpr ⟨hpending, hall⟩⟩

end Waits

/-! ## Cancellation -/

theorem Surroundings.nextRound_le (hr : r.cancellable = true) (ht : w.cancelledAt = some t)
    (hgoes : w.stop? r s count clock = none) :
    (w.nextRound r s count clock).nanoseconds ≤ t.nanoseconds := by
  rw [stop?, if_pos hr] at hgoes
  exact pausedUntil_le ht hgoes

theorem Surroundings.cancelledAt_of_stop? (hstop : w.stop? r s count clock = some t) :
    r.cancellable = true ∧ w.cancelledAt = some t ∧
      t.nanoseconds ≤ (w.nextRound r s count clock).nanoseconds := by
  rw [stop?] at hstop
  split at hstop
  next hr => exact ⟨hr, cancelledAt_of_interruption hstop⟩
  next => cases hstop

/-- After the first poll none is begun that was cancelled before. -/
theorem Waits.begun_le_cancelledAt (h : Waits w r uri s start rounds count clock polls ending)
    (hr : r.cancellable = true) (ht : w.cancelledAt = some t) :
    ∀ p ∈ polls.tail, p.begun.nanoseconds ≤ t.nanoseconds := by
  induction h with
  | again hpending htime hgoes hrest ih =>
      intro p hp
      rcases hrest.begun p hp with hbegun | hp
      · exact hbegun ▸ w.nextRound_le hr ht hgoes
      · exact ih p hp
  | unfinished | finished | failed | late | cancelled =>
      exact fun _ hp => absurd hp List.not_mem_nil

/-- A wait that finds the job at its end finds it there too if it cannot be cancelled. -/
theorem Waits.uncancelled {job : Job}
    (h : Waits w (pollRequest e uri cancellable) uri s start rounds count clock polls
      (.finished job)) :
    ∃ polls, Waits w (pollRequest e uri false) uri s start rounds count clock polls
      (.finished job) := by
  generalize hending : WaitEnd.finished job = ending at h
  induction h with
  | finished htold hjob => exact ⟨_, .finished htold hjob⟩
  | unfinished | failed | cancelled => cases hending
  | late hpending hlate =>
      obtain ⟨limit, -, ⟨rfl, -⟩ | ⟨rfl, -⟩⟩ := tooLate?_eq_some hlate
      · cases hending
      · cases hending
  | again hpending htime hgoes hrest ih =>
      obtain ⟨polls, hwaits⟩ := ih hending
      exact ⟨_, .again hpending htime rfl hwaits⟩

/-! ## How many rounds there are

A poll after the first is preceded by a test that the time of a full interval is left. The pause may
be longer than that, so it is the moment before the pause that is known to be early enough.
-/

theorem Waits.begun_le (h : Waits w r uri s start rounds count clock polls ending)
    (hlimit : s.timeout = some limit) (hexact : ∀ n, w.lasting n s.interval = s.interval)
    (hclock : clock.nanoseconds ≤ start.nanoseconds + limit.nanoseconds) :
    ∀ p ∈ polls, p.begun.nanoseconds ≤ start.nanoseconds + limit.nanoseconds := by
  induction h with
  | unfinished => exact fun _ hp => absurd hp List.not_mem_nil
  | @again rounds count clock polls ending hpending htime hgoes hrest ih =>
      have hleft : (w.poll r count clock).ended.nanoseconds - start.nanoseconds +
          s.interval.nanoseconds ≤ limit.nanoseconds := add_le_of_tooLate? htime hlimit
      have hnext : (w.nextRound r s count clock).nanoseconds =
          (w.poll r count clock).ended.nanoseconds + s.interval.nanoseconds := by
        rw [Surroundings.nextRound, Surroundings.pausedUntil, hexact]
      exact List.forall_mem_cons.mpr ⟨hclock, ih (by omega)⟩
  | finished | failed | late | cancelled => exact List.forall_mem_singleton.mpr hclock

/-- The rounds that are begun after the first, a wait that uses up its rounds counting one more. -/
theorem Waits.rounds_le (h : Waits w r uri s start rounds count clock polls ending)
    (hlimit : s.timeout = some limit)
    (hlasting : ∀ n, s.interval.nanoseconds ≤ (w.lasting n s.interval).nanoseconds)
    {later : Nat}
    (hlater : later + 1 = polls.length ∨ later = polls.length ∧ ending = .unfinished) :
    later = 0 ∨
      clock.nanoseconds + later * s.interval.nanoseconds ≤
        start.nanoseconds + limit.nanoseconds := by
  induction h generalizing later with
  | unfinished => exact .inl (by simpa using hlater)
  | @again rounds count clock polls ending hpending htime hgoes hrest ih =>
      have hleft : (w.poll r count clock).ended.nanoseconds - start.nanoseconds +
          s.interval.nanoseconds ≤ limit.nanoseconds := add_le_of_tooLate? htime hlimit
      have hended : clock.nanoseconds ≤ (w.poll r count clock).ended.nanoseconds :=
        Nat.le_add_right _ _
      have hnext : (w.poll r count clock).ended.nanoseconds + s.interval.nanoseconds ≤
          (w.nextRound r s count clock).nanoseconds := Nat.add_le_add_left (hlasting _) _
      rcases later with _ | later
      · exact .inl rfl
      · right
        have hlater' : later + 1 = polls.length ∨ later = polls.length ∧ ending = .unfinished := by
          simpa using hlater
        rw [Nat.succ_mul]
        rcases ih hlater' with rfl | hbound
        · omega
        · omega
  | late hpending hlate =>
      obtain ⟨limit, -, ⟨rfl, -⟩ | ⟨rfl, -⟩⟩ := tooLate?_eq_some hlate
      · exact .inl (by simpa using hlater)
      · exact .inl (by simpa using hlater)
  | finished | failed | cancelled => exact .inl (by simpa using hlater)

/-! ## The ways to end -/

/-- The ways in which a wait comes to its end. -/
inductive Way where
  | finished
  | failed
  | timedOut
  | cancelled
  /-- The wait breaks off: the next pause would end later than any span can tell. -/
  | overflowed
  deriving DecidableEq

/-- The end of a wait for which the longest span is too short. -/
def Overflows (uri : String) (s : PollSettings) (start : Duration) (last : Poll) : Prop :=
  last.Pending uri ∧ s.timeout.isSome = true ∧
    Duration.max.nanoseconds < (between start last.ended).nanoseconds + s.interval.nanoseconds

/-- What the last of so many polls, the time and the end of a wait are if it ends in a way. -/
def Way.Fits (w : Surroundings) (uri : String) (s : PollSettings) (cancellable : Bool)
    (start : Duration) (count : Nat) (last : Poll) (ending : WaitEnd) : Way → Prop
  | finished => ∃ job, told uri last.answer = .ok job ∧
      (job.status = .complete ∨ job.status = .canceled) ∧ job.uri = uri ∧ ending = .finished job
  | failed => ∃ failure, told uri last.answer = .error failure ∧ ending = .failed failure
  | timedOut => last.Pending uri ∧ ∃ limit, s.timeout = some limit ∧
      limit.nanoseconds < (between start last.ended).nanoseconds + s.interval.nanoseconds ∧
      (between start last.ended).nanoseconds + s.interval.nanoseconds ≤ Duration.max.nanoseconds ∧
      ending = .failed (.new .execute
        ("timed out after " ++ limit.render ++ " waiting for job " ++ uri))
  | cancelled => last.Pending uri ∧
      (∀ limit, s.timeout = some limit →
        (between start last.ended).nanoseconds + s.interval.nanoseconds ≤ limit.nanoseconds ∧
        (between start last.ended).nanoseconds + s.interval.nanoseconds ≤
          Duration.max.nanoseconds) ∧
      cancellable = true ∧
      (∃ t, w.cancelledAt = some t ∧
        t.nanoseconds ≤ (w.pausedUntil s.interval count last.ended).nanoseconds) ∧
      ending = .failed (.new .execute ("waiting for job " ++ uri ++ " cancelled"))
  | overflowed => Overflows uri s start last ∧ ending = .overflowed

/-- The way that the last poll and the time tell. -/
def Way.tell (uri : String) (s : PollSettings) (start : Duration) (last : Poll) : Way :=
  match told uri last.answer with
  | .error _ => failed
  | .ok job =>
    let next := (between start last.ended).nanoseconds + s.interval.nanoseconds
    if job.status.isTerminal then finished
    else if s.timeout.isSome && Duration.max.nanoseconds < next then overflowed
    else if s.timeout.any fun limit => limit.nanoseconds < next then timedOut
    else cancelled

theorem isTerminal_iff {status : JobStatus} :
    status.isTerminal = true ↔ status = .complete ∨ status = .canceled := by
  cases status <;> decide

theorem Way.Fits.eq_tell {last : Poll} {way : Way}
    (h : way.Fits w uri s cancellable start count last ending) :
    way = tell uri s start last := by
  rw [tell]
  cases way with
  | finished =>
      obtain ⟨job, htold, hstatus, -⟩ := h
      simp only [htold, isTerminal_iff.mpr hstatus, if_true]
  | failed =>
      obtain ⟨failure, htold, -⟩ := h
      simp only [htold]
  | timedOut =>
      obtain ⟨⟨job, htold, hjob⟩, limit, hlimit, hlate, hsum, -⟩ := h
      simp only [htold, hjob, hlimit, Option.isSome_some, Option.any_some, hlate,
        Nat.not_lt.mpr hsum, decide_true, decide_false, Bool.and_false, if_true,
        Bool.false_eq_true, if_false]
  | cancelled =>
      obtain ⟨⟨job, htold, hjob⟩, htime, -⟩ := h
      cases hlimit : s.timeout with
      | none => simp only [htold, hjob, Option.isSome_none, Bool.false_and, Option.any_none,
          Bool.false_eq_true, if_false]
      | some limit =>
          obtain ⟨hlate, hsum⟩ := htime limit hlimit
          simp only [htold, hjob, Option.isSome_some, Option.any_some, Nat.not_lt.mpr hlate,
            Nat.not_lt.mpr hsum, decide_false, Bool.and_false, Bool.false_eq_true, if_false]
  | overflowed =>
      obtain ⟨⟨⟨job, htold, hjob⟩, htimeout, hover⟩, -⟩ := h
      simp only [htold, hjob, htimeout, hover, decide_true, Bool.and_self, if_true,
        Bool.false_eq_true, if_false]

/-- All polls but the last of a wait tell that the job goes on, and the last one tells how the wait
ends. -/
theorem Waits.ends
    (h : Waits w (pollRequest e uri cancellable) uri s start rounds count clock polls ending)
    (hended : ending ≠ .unfinished) :
    ∃ earlier last, polls = earlier ++ [last] ∧ (∀ p ∈ earlier, p.Pending uri) ∧
      ∃ way : Way, way.Fits w uri s cancellable start (count + polls.length) last ending := by
  induction h with
  | unfinished => exact absurd rfl hended
  | @finished rounds count clock job htold hjob =>
      refine ⟨[], _, rfl, fun _ hp => absurd hp List.not_mem_nil, .finished, ?_⟩
      exact ⟨job, htold, isTerminal_iff.mp hjob, uri_of_told htold, rfl⟩
  | failed htold =>
      exact ⟨[], _, rfl, fun _ hp => absurd hp List.not_mem_nil, .failed, _, htold, rfl⟩
  | late hpending hlate =>
      refine ⟨[], _, rfl, fun _ hp => absurd hp List.not_mem_nil, ?_⟩
      obtain ⟨limit, hlimit, ⟨rfl, hmax⟩ | ⟨rfl, hafter, hsum⟩⟩ := tooLate?_eq_some hlate
      · exact ⟨.overflowed, ⟨hpending, Option.isSome_of_eq_some hlimit, hmax⟩, rfl⟩
      · exact ⟨.timedOut, hpending, limit, hlimit, hafter, hsum, rfl⟩
  | cancelled hpending htime hstop =>
      refine ⟨[], _, rfl, fun _ hp => absurd hp List.not_mem_nil, .cancelled, ?_⟩
      obtain ⟨hr, ht, hwhen⟩ := w.cancelledAt_of_stop? hstop
      exact ⟨hpending, fun limit hlimit => le_of_tooLate?_eq_none htime hlimit, hr, ⟨_, ht, hwhen⟩,
        rfl⟩
  | again hpending htime hgoes hrest ih =>
      obtain ⟨earlier, last, rfl, hall, hend⟩ := ih hended
      refine ⟨_ :: earlier, last, rfl, List.forall_mem_cons.mpr ⟨hpending, hall⟩, ?_⟩
      rwa [List.length_cons, Nat.add_comm _ 1, ← Nat.add_assoc]

/-! ## Success -/

theorem succeeded_iff {job : Job} :
    job.succeeded = true ↔
      job.status = .complete ∧ ∃ code, job.statusCode = some code ∧ 200 ≤ code ∧ code ≤ 299 := by
  simp only [succeeded, Bool.and_eq_true, beq_iff_eq, Option.any_eq_true, decide_eq_true_eq,
    Nat.lt_succ_iff]

/-- The failure that stands for a job without success. -/
def unsuccessful (job : Job) : Failure :=
  ⟨.server (job.reasonCode.getD (-1)), job.reasonCode.getD (-1), job.failureMessage, job.statusCode⟩

theorem successful_finished (job : Job) :
    (WaitEnd.finished job).successful =
      if job.succeeded then .finished job else .failed job.unsuccessful := by
  rw [WaitEnd.successful, outcome]
  cases job.succeeded with
  | true => rfl
  | false => rfl

/-! ## The contract -/

/-- What can be relied on in a wait that is given so many rounds. -/
structure WaitContract (w : Surroundings) (e : Endpoint) (uri : String) (s : PollSettings)
    (cancellable : Bool) (rounds : Nat) (start : Duration) (polls : List Poll)
    (ending : WaitEnd) : Prop where
  /-- All it ever asks for is to read the job. -/
  requests : ∀ p ∈ polls, p.request.method = "GET" ∧ p.request.url = e.resourceUrl uri ∧
    p.request.body = .empty
  /-- Its polls take the answers in their order. -/
  answers : polls.map (·.answer) = (List.range polls.length).map fun i => (w.answers i).answer
  /-- If it ends, it does so in exactly one way. -/
  ends : ending ≠ .unfinished →
    ∃ earlier last, polls = earlier ++ [last] ∧ (∀ p ∈ earlier, p.Pending uri) ∧
      ∃! way : Way, way.Fits w uri s cancellable start polls.length last ending
  /-- Rounds are all used up only by a wait for a job that goes on. -/
  unfinished : ending = .unfinished → polls.length = rounds ∧ ∀ p ∈ polls, p.Pending uri
  /-- More rounds make no difference to a wait that did not use them up. -/
  more : ending ≠ .unfinished → ∀ rounds' ≥ rounds,
    w.waitEnd e uri s cancellable rounds' start = ending ∧
      w.waitPolls e uri s cancellable rounds' start = polls
  /-- After the first poll it begins none once it is cancelled. -/
  heeds : cancellable = true → ∀ t, w.cancelledAt = some t →
    ∀ p ∈ polls.tail, p.begun.nanoseconds ≤ t.nanoseconds
  /-- With exact pauses no poll is begun after the time limit. -/
  punctual : ∀ limit, s.timeout = some limit → (∀ n, w.lasting n s.interval = s.interval) →
    ∀ p ∈ polls, p.begun.nanoseconds ≤ start.nanoseconds + limit.nanoseconds
  /-- With a time limit there are not many polls, and a wait with one round more than that ends. -/
  few : ∀ limit, s.timeout = some limit → 0 < s.interval.nanoseconds →
    (∀ n, s.interval.nanoseconds ≤ (w.lasting n s.interval).nanoseconds) →
    polls.length ≤ limit.nanoseconds / s.interval.nanoseconds + 1 ∧
      (limit.nanoseconds / s.interval.nanoseconds < rounds → ending ≠ .unfinished)
  /-- A job at its end is a success if it is complete and its status says so; otherwise it is
  reported with what the console gave as the reason. -/
  success : ∀ job message, ending = .finished job →
    (w.successEnd e ⟨uri, message⟩ s rounds start = .finished job ↔
        job.status = .complete ∧ ∃ code, job.statusCode = some code ∧ 200 ≤ code ∧ code ≤ 299) ∧
      (w.successEnd e ⟨uri, message⟩ s rounds start ≠ .finished job →
        w.successEnd e ⟨uri, message⟩ s rounds start = .failed job.unsuccessful)

theorem Waits.few
    (h : Waits w r uri s start rounds count start polls ending) (hlimit : s.timeout = some limit)
    (hpos : 0 < s.interval.nanoseconds)
    (hlasting : ∀ n, s.interval.nanoseconds ≤ (w.lasting n s.interval).nanoseconds) :
    polls.length ≤ limit.nanoseconds / s.interval.nanoseconds + 1 ∧
      (limit.nanoseconds / s.interval.nanoseconds < rounds → ending ≠ .unfinished) := by
  have hdiv {later : Nat} (hlater : later = 0 ∨ start.nanoseconds +
      later * s.interval.nanoseconds ≤ start.nanoseconds + limit.nanoseconds) :
      later ≤ limit.nanoseconds / s.interval.nanoseconds := by
    rcases hlater with rfl | hlater
    · exact Nat.zero_le _
    · exact (Nat.le_div_iff_mul_le hpos).mpr (by omega)
  constructor
  · rcases hlength : polls.length with _ | later
    · exact Nat.zero_le _
    · exact Nat.succ_le_succ (hdiv (h.rounds_le hlimit hlasting (.inl hlength.symm)))
  · rintro hrounds rfl
    have hlength := h.of_unfinished.1
    have := hdiv (h.rounds_le hlimit hlasting (.inr ⟨hlength.symm, rfl⟩))
    omega

theorem wait_contract (w : Surroundings) (e : Endpoint) (uri : String) (s : PollSettings)
    (cancellable : Bool) (rounds : Nat) (start : Duration) :
    WaitContract w e uri s cancellable rounds start
      (w.waitPolls e uri s cancellable rounds start)
      (w.waitEnd e uri s cancellable rounds start) := by
  have h : Waits w (pollRequest e uri cancellable) uri s start rounds 0 start _ _ :=
    waits_iff.mpr ⟨rfl, rfl⟩
  generalize w.waitPolls e uri s cancellable rounds start = polls at h
  generalize w.waitEnd e uri s cancellable rounds start = ending at h
  exact {
    requests := fun p hp => by rw [h.requests p hp]; exact ⟨rfl, rfl, rfl⟩
    answers := by rw [h.answers, List.range_eq_range']
    ends := fun hended => by
      obtain ⟨earlier, last, hpolls, hall, way, hway⟩ := h.ends hended
      rw [Nat.zero_add] at hway
      exact ⟨earlier, last, hpolls, hall, way, hway, fun way' h' =>
        h'.eq_tell.trans hway.eq_tell.symm⟩
    unfinished := fun hend => by subst hend; exact h.of_unfinished
    more := fun hend rounds' hrounds => waits_iff.mp (h.more hend hrounds)
    heeds := fun hc t ht => h.begun_le_cancelledAt hc ht
    punctual := fun limit hlimit hexact => h.begun_le hlimit hexact (Nat.le_add_right _ _)
    few := fun limit hlimit hpos hlasting => h.few hlimit hpos hlasting
    success := fun job message hend => by
      subst hend
      obtain ⟨polls', h'⟩ := h.uncancelled
      rw [w.successEnd_eq, (waits_iff.mp h').1, successful_finished, ← succeeded_iff]
      cases job.succeeded with
      | true => simp
      | false => simp
  }

def WaitEnd.isOverflowed : WaitEnd → Bool
  | .overflowed => true
  | _ => false

theorem WaitEnd.eq_of_isOverflowed (h : ending.isOverflowed = true) : ending = .overflowed := by
  cases ending with
  | overflowed => rfl
  | finished | failed | unfinished => cases h

namespace Sample

def endpoint : Endpoint :=
  ⟨⟨"https", "", none, some (.name "hmc"), none, .segments [""], none, none⟩⟩

/-- A job that is said to be running whenever it is looked at. -/
def running : Surroundings where
  answers _ := ⟨.ok ⟨200, Utf8.encode "\x7b\"status\": \"running\"\x7d"⟩, ⟨0⟩⟩
  lasting _ interval := interval
  cancelledAt := none
  notices _ := false

/-- A job that is said to be running, one second after each look. -/
def slow : Surroundings :=
  { running with answers := fun n => { running.answers n with delay := .ofSeconds 1 } }

/-- Looks that are the longest span apart, for ten seconds. -/
def patient : PollSettings := ⟨.max, some (.ofSeconds 10)⟩

theorem slow_overflowed :
    slow.waitEnd endpoint "/api/jobs/7" patient false 9 ⟨0⟩ = .overflowed :=
  WaitEnd.eq_of_isOverflowed (by decide +kernel)

end Sample

/-- The four ways that give a result are not all, even if the interval and the limit are spans. -/
theorem waits_without_result :
    ¬ ∀ (w : Surroundings) (e : Endpoint) (uri : String) (s : PollSettings) (cancellable : Bool)
      (rounds : Nat) (start : Duration), s.interval.nanoseconds ≤ Duration.max.nanoseconds →
      (∀ limit ∈ s.timeout, limit.nanoseconds ≤ Duration.max.nanoseconds) →
      w.waitEnd e uri s cancellable rounds start ≠ .unfinished →
      ∃ last ∈ w.waitPolls e uri s cancellable rounds start, ∃ way : Way, way ≠ .overflowed ∧
        way.Fits w uri s cancellable start (w.waitPolls e uri s cancellable rounds start).length
          last (w.waitEnd e uri s cancellable rounds start) := by
  intro h
  have hlimit : ∀ limit ∈ Sample.patient.timeout,
      limit.nanoseconds ≤ Duration.max.nanoseconds := by
    intro limit hmem
    obtain rfl := Option.some.inj hmem
    decide
  obtain ⟨last, -, way, hway, hfits⟩ := h Sample.slow Sample.endpoint "/api/jobs/7" Sample.patient
    false 9 ⟨0⟩ (Nat.le_refl _) hlimit (by rw [Sample.slow_overflowed]; nofun)
  rw [Sample.slow_overflowed] at hfits
  cases way with
  | finished => obtain ⟨_, _, _, _, hending⟩ := hfits; cases hending
  | failed => obtain ⟨_, _, hending⟩ := hfits; cases hending
  | timedOut => obtain ⟨_, _, _, _, _, hending⟩ := hfits; cases hending
  | cancelled => obtain ⟨_, _, _, _, hending⟩ := hfits; cases hending
  | overflowed => exact hway rfl

/-- Looks at a job that is said to be running, then paused, which is no status, and then complete.
Each look takes a second, and the wait is cancelled after ten. -/
def Sample.surroundings : Surroundings where
  answers count := ⟨.ok ⟨200, Utf8.encode <| match count with
    | 0 => "\x7b\"status\": \"running\"\x7d"
    | 1 => "\x7b\"status\": \"paused\"\x7d"
    | _ => "\x7b\"status\": \"complete\", \"job-status-code\": 200\x7d"⟩, .ofSeconds 1⟩
  lasting _ interval := interval
  cancelledAt := some (.ofSeconds 10)
  notices _ := false

example : [false, true].map (fun cancellable => (Sample.surroundings.waitPolls Sample.endpoint
    "/api/jobs/7" .default cancellable 9 ⟨0⟩).length) = [3, 2] := by
  decide +kernel

end HmcClient.Job
