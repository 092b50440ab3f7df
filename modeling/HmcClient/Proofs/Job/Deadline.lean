import HmcClient.Proofs.Job.Waiting

/-!
# When a wait times out

A wait with a time limit looks ahead. After a poll of a job that goes on it adds the next pause to
the time that has passed, and if that is beyond the limit there is no use in pausing: the next poll
would come too late. So it is then that the wait times out, and not when the limit is reached. What
it reports as timed out after the limit has lasted for more than the limit without one interval,
and no more than that can be said: with an interval longer than the limit the very first poll of a
job that goes on times out at once.
-/

namespace HmcClient.Job

variable {w : Surroundings} {e : Endpoint} {r : Request} {uri : String} {s : PollSettings}
  {start clock limit elapsed : Duration} {rounds count : Nat} {polls : List Poll}
  {ending : WaitEnd} {cancellable : Bool}

/-- How a wait ends that has timed out. -/
def WaitEnd.timedOut (limit : Duration) (uri : String) : WaitEnd :=
  .failed (.ofCause (.jobTimedOut limit uri))

/-- Whether a poll leaves no time for a pause within a limit, if the time after the pause can be
told at all. -/
structure Poll.LeavesNoTime (p : Poll) (s : PollSettings) (start limit : Duration) : Prop where
  late : limit.nanoseconds < (between start p.ended).nanoseconds + s.interval.nanoseconds
  told : (between start p.ended).nanoseconds + s.interval.nanoseconds ≤ Duration.max.nanoseconds

/-- Whether a poll leaves time for a pause within a limit. -/
def Poll.LeavesTime (p : Poll) (s : PollSettings) (start limit : Duration) : Prop :=
  (between start p.ended).nanoseconds + s.interval.nanoseconds ≤ limit.nanoseconds

theorem cancelled_ne_timedOut (limit : Duration) (uri : String) :
    WaitEnd.failed (.ofCause (.jobWaitCancelled uri)) ≠ .timedOut limit uri := by
  intro h
  -- Both are failures to execute; only the first letters of their messages tell them apart.
  have hmessage : ("waiting for job " ++ uri ++ " cancelled").toList.head? =
      ("timed out after " ++ limit.render ++ " waiting for job " ++ uri).toList.head? := by
    simp only [WaitEnd.timedOut, WaitEnd.failed.injEq] at h
    exact congrArg (fun f : Failure => f.message.toList.head?) h
  have hwaiting : "waiting for job ".toList.head? = some 'w' := by decide
  have htimed : "timed out after ".toList.head? = some 't' := by decide
  simp only [String.toList_append, List.append_assoc, List.head?_append, hwaiting, htimed,
    Option.some_or, Option.some.injEq] at hmessage
  exact absurd hmessage (by decide)

theorem tooLate?_eq_timedOut (hlimit : s.timeout = some limit) :
    tooLate? uri s elapsed = some (.timedOut limit uri) ↔
      limit.nanoseconds < elapsed.nanoseconds + s.interval.nanoseconds ∧
        elapsed.nanoseconds + s.interval.nanoseconds ≤ Duration.max.nanoseconds := by
  simp only [tooLate?, hlimit, Duration.add?, WaitEnd.timedOut]
  by_cases hsum : elapsed.nanoseconds + s.interval.nanoseconds ≤ Duration.max.nanoseconds
  · rw [if_pos hsum]
    simp [hsum]
  · rw [if_neg hsum]
    simp [hsum]

/-! ## The wait as a whole -/

/-- When a wait ends that begins at a moment. -/
def Surroundings.waitClock (w : Surroundings) (e : Endpoint) (uri : String) (s : PollSettings)
    (cancellable : Bool) (rounds : Nat) (start : Duration) : Duration :=
  (w.run (wait e uri s cancellable rounds) start).2.clock

/-- Whether a poll is the one after which a wait times out, or fails just as if it did. -/
def Poll.TimesOut (p : Poll) (uri : String) (s : PollSettings) (start limit : Duration) : Prop :=
  told uri p.answer = .error (.ofCause (.jobTimedOut limit uri)) ∨
    p.Pending uri ∧ p.LeavesNoTime s start limit

/-- A wait that times out does so at the end of its last poll, and all earlier ones have left it
time. -/
theorem Waits.of_timedOut
    (h : Waits w (pollRequest e uri cancellable) uri s start rounds count clock polls ending)
    (hlimit : s.timeout = some limit) (hending : ending = .timedOut limit uri) {d : Diary}
    (hclock : d.clock = clock) (hcount : d.polls.length = count) :
    ∃ earlier last, polls = earlier ++ [last] ∧
      (∀ p ∈ earlier, p.Pending uri ∧ p.LeavesTime s start limit) ∧
      last.TimesOut uri s start limit ∧
      ((waitFrom e uri s cancellable start rounds).run w.handle d).2.clock = last.ended := by
  induction h generalizing d with
  | unfinished => cases hending
  | finished htold hjob => cases hending
  | failed htold =>
      cases hending
      subst hclock hcount
      refine ⟨[], _, rfl, fun _ hp => absurd hp List.not_mem_nil, .inl htold, ?_⟩
      simp only [run_waitFrom_succ w uri s cancellable d _ rfl, htold]
  | @late rounds count clock ending hpending hlate =>
      subst hending hclock hcount
      obtain ⟨job, htold, hjob⟩ := hpending
      obtain ⟨hafter, hmax⟩ := (tooLate?_eq_timedOut hlimit).mp hlate
      refine ⟨[], _, rfl, fun _ hp => absurd hp List.not_mem_nil,
        .inr ⟨⟨job, htold, hjob⟩, hafter, hmax⟩, ?_⟩
      simp only [run_waitFrom_succ w uri s cancellable d _ rfl, htold, hjob, hlate,
        Bool.false_eq_true, if_false]
  | cancelled hpending htime hstop => exact absurd hending (cancelled_ne_timedOut limit uri)
  | again hpending htime hgoes hrest ih =>
      -- The diary of the rest begins with this poll in it, so its count is one more.
      subst hclock hcount
      obtain ⟨earlier, last, rfl, hall, hlast, hclock⟩ := ih hending
        (d := ⟨_, d.polls ++ [w.poll _ d.polls.length d.clock]⟩) rfl List.length_append
      obtain ⟨job, htold, hjob⟩ := hpending
      refine ⟨_ :: earlier, last, rfl, List.forall_mem_cons.mpr
        ⟨⟨⟨job, htold, hjob⟩, add_le_of_tooLate? htime hlimit⟩, hall⟩, hlast, ?_⟩
      simp only [run_waitFrom_succ w uri s cancellable d _ rfl, htold, hjob, htime, hgoes,
        Bool.false_eq_true, if_false]
      exact hclock

theorem Poll.TimesOut.tooLate?_eq {p : Poll} (h : p.TimesOut uri s start limit)
    (hlimit : s.timeout = some limit) (hpending : p.Pending uri) :
    tooLate? uri s (between start p.ended) = some (.timedOut limit uri) := by
  obtain ⟨job, htold, -⟩ := hpending
  rcases h with hfailed | ⟨-, hafter, hmax⟩
  · exact nomatch htold.symm.trans hfailed
  · exact (tooLate?_eq_timedOut hlimit).mpr ⟨hafter, hmax⟩

/-- A poll after which the wait goes on has left it time, so the last one decides. -/
theorem Waits.timedOut_of_last (h : Waits w r uri s start rounds count clock polls ending)
    (hlimit : s.timeout = some limit) {last : Poll} (hpolls : polls.getLast? = some last)
    (hlast : last.TimesOut uri s start limit) : ending = .timedOut limit uri := by
  induction h with
  | unfinished => cases hpolls
  | finished htold hjob =>
      obtain rfl := Option.some.inj hpolls
      rcases hlast with hfailed | ⟨⟨job', htold', hjob'⟩, -⟩
      · exact nomatch htold.symm.trans hfailed
      · obtain rfl := Except.ok.inj (htold.symm.trans htold')
        exact nomatch hjob.symm.trans hjob'
  | failed htold =>
      obtain rfl := Option.some.inj hpolls
      rcases hlast with hfailed | ⟨⟨job, htold', -⟩, -⟩
      · rw [Except.error.inj (htold.symm.trans hfailed)]
        rfl
      · exact nomatch htold.symm.trans htold'
  | late hpending hlate =>
      obtain rfl := Option.some.inj hpolls
      exact Option.some.inj (hlate.symm.trans (hlast.tooLate?_eq hlimit hpending))
  | cancelled hpending htime hstop =>
      obtain rfl := Option.some.inj hpolls
      exact nomatch htime.symm.trans (hlast.tooLate?_eq hlimit hpending)
  | @again rounds count clock polls ending hpending htime hgoes hrest ih =>
      cases polls with
      | nil =>
          obtain rfl := Option.some.inj hpolls
          exact nomatch htime.symm.trans (hlast.tooLate?_eq hlimit hpending)
      | cons p polls => exact ih (by simpa using hpolls)

/-- A wait with a time limit times out if and only if its last poll tells that the job goes on, or
fails just as if the wait had timed out, and all polls before it have left time for a pause. Unless
the poll has failed so, the time that has passed by then is more than the limit if one interval is
added to it; nothing keeps it from being less than the limit. -/
theorem timedOut_iff (w : Surroundings) (e : Endpoint) (uri : String) {s : PollSettings}
    {limit : Duration} (hlimit : s.timeout = some limit) (cancellable : Bool) (rounds : Nat)
    (start : Duration) :
    (w.waitEnd e uri s cancellable rounds start = .timedOut limit uri ↔
      ∃ earlier last, w.waitPolls e uri s cancellable rounds start = earlier ++ [last] ∧
        w.waitClock e uri s cancellable rounds start = last.ended ∧
        (∀ p ∈ earlier, p.Pending uri ∧ p.LeavesTime s start limit) ∧
        last.TimesOut uri s start limit) ∧
      (w.waitEnd e uri s cancellable rounds start = .timedOut limit uri →
        (∀ p ∈ w.waitPolls e uri s cancellable rounds start,
          told uri p.answer ≠ .error (.ofCause (.jobTimedOut limit uri))) →
        limit.nanoseconds <
          (between start (w.waitClock e uri s cancellable rounds start)).nanoseconds +
            s.interval.nanoseconds) := by
  have h : Waits w (pollRequest e uri cancellable) uri s start rounds 0 start _ _ :=
    waits_iff.mpr ⟨rfl, rfl⟩
  have hforth := fun hending => h.of_timedOut (d := ⟨start, []⟩) hlimit hending rfl rfl
  refine ⟨⟨?_, ?_⟩, ?_⟩
  · intro hending
    obtain ⟨earlier, last, hpolls, hall, hlast, hclock⟩ := hforth hending
    exact ⟨earlier, last, hpolls, hclock, hall, hlast⟩
  · rintro ⟨earlier, last, hpolls, -, -, hlast⟩
    exact h.timedOut_of_last hlimit (by rw [hpolls, List.getLast?_concat]) hlast
  · intro hending hown
    obtain ⟨earlier, last, hpolls, -, hlast, hclock⟩ := hforth hending
    rcases hlast with hfailed | ⟨-, hlate⟩
    · exact absurd hfailed (hown last (by rw [hpolls]; simp))
    · have hended : w.waitClock e uri s cancellable rounds start = last.ended := hclock
      rw [hended]
      exact hlate.late

def WaitEnd.failure? : WaitEnd → Option Failure
  | .failed failure => some failure
  | _ => none

theorem WaitEnd.eq_of_failure? {failure : Failure} (h : ending.failure? = some failure) :
    ending = .failed failure := by
  cases ending with
  | failed => exact congrArg WaitEnd.failed (Option.some.inj h)
  | finished | overflowed | unfinished => cases h

namespace Sample

/-- A look every two seconds, for three seconds. -/
def hurried : PollSettings := ⟨.ofSeconds 2, some (.ofSeconds 3)⟩

theorem running_timedOut :
    running.waitEnd endpoint "/api/jobs/7" hurried false 9 ⟨0⟩ =
      .timedOut (.ofSeconds 3) "/api/jobs/7" :=
  WaitEnd.eq_of_failure? (by decide +kernel)

theorem running_told :
    ∀ p ∈ running.waitPolls endpoint "/api/jobs/7" hurried false 9 ⟨0⟩,
      told "/api/jobs/7" p.answer ≠
        .error (.ofCause (.jobTimedOut (.ofSeconds 3) "/api/jobs/7")) := by
  have hok : ∀ p ∈ running.waitPolls endpoint "/api/jobs/7" hurried false 9 ⟨0⟩,
      (told "/api/jobs/7" p.answer).isOk = true := by decide +kernel
  intro p hp hfailed
  have hisOk := hok p hp
  rw [hfailed] at hisOk
  cases hisOk

end Sample

/-- The second poll leaves one second, which is not enough for a pause. -/
theorem timedOut_iff_running :
    Sample.hurried.timeout = some (.ofSeconds 3) ∧
      (∃ earlier last,
        Sample.running.waitPolls Sample.endpoint "/api/jobs/7" Sample.hurried false 9 ⟨0⟩ =
          earlier ++ [last] ∧
        Sample.running.waitClock Sample.endpoint "/api/jobs/7" Sample.hurried false 9 ⟨0⟩ =
          last.ended ∧
        (∀ p ∈ earlier, p.Pending "/api/jobs/7" ∧
          p.LeavesTime Sample.hurried ⟨0⟩ (.ofSeconds 3)) ∧
        last.TimesOut "/api/jobs/7" Sample.hurried ⟨0⟩ (.ofSeconds 3)) ∧
      (Duration.ofSeconds 3).nanoseconds <
        (between ⟨0⟩ (Sample.running.waitClock Sample.endpoint "/api/jobs/7" Sample.hurried
          false 9 ⟨0⟩)).nanoseconds + Sample.hurried.interval.nanoseconds := by
  obtain ⟨hiff, hlate⟩ := timedOut_iff Sample.running Sample.endpoint "/api/jobs/7"
    (show Sample.hurried.timeout = some (.ofSeconds 3) from rfl) false 9 ⟨0⟩
  exact ⟨rfl, hiff.mp Sample.running_timedOut,
    hlate Sample.running_timedOut Sample.running_told⟩

/-- A wait that is to last three seconds times out after two. -/
theorem timedOut_early :
    Sample.running.waitEnd Sample.endpoint "/api/jobs/7" Sample.hurried false 9 ⟨0⟩ =
        .timedOut (.ofSeconds 3) "/api/jobs/7" ∧
      (∀ p ∈ Sample.running.waitPolls Sample.endpoint "/api/jobs/7" Sample.hurried false 9 ⟨0⟩,
        told "/api/jobs/7" p.answer ≠
          .error (.ofCause (.jobTimedOut (.ofSeconds 3) "/api/jobs/7"))) ∧
      (between ⟨0⟩ (Sample.running.waitClock Sample.endpoint "/api/jobs/7" Sample.hurried
        false 9 ⟨0⟩)).nanoseconds < (Duration.ofSeconds 3).nanoseconds :=
  ⟨Sample.running_timedOut, Sample.running_told, by decide +kernel⟩

end HmcClient.Job
