import HmcClient.Proofs.Job.Deadline

/-!
# When the next pause is beyond all spans

The test for the time limit adds the interval to the time that has passed, and that sum may be
longer than the longest span. Then there is no sum to compare with the limit, and the wait has no
result at all: neither the job nor a failure.

It need not be so. A limit is itself a span, so a sum that is beyond all spans is beyond the limit,
and the wait had to time out.
-/

namespace HmcClient.Job

variable {w : Surroundings} {e : Endpoint} {r : Request} {uri : String} {s : PollSettings}
  {start clock limit elapsed : Duration} {rounds count : Nat} {polls : List Poll} {last : Poll}
  {ending : WaitEnd} {cancellable : Bool}

theorem tooLate?_eq_overflowed : tooLate? uri s elapsed = some .overflowed ↔
    s.timeout.isSome = true ∧
      Duration.max.nanoseconds < elapsed.nanoseconds + s.interval.nanoseconds := by
  rw [tooLate?, Duration.add?]
  cases s.timeout with
  | none => simp
  | some limit =>
      by_cases hsum : elapsed.nanoseconds + s.interval.nanoseconds ≤ Duration.max.nanoseconds
      · rw [if_pos hsum]
        have hnot : ¬ Duration.max.nanoseconds < elapsed.nanoseconds + s.interval.nanoseconds := by
          omega
        simp [hnot]
      · rw [if_neg hsum]
        have hover : Duration.max.nanoseconds < elapsed.nanoseconds + s.interval.nanoseconds := by
          omega
        simp [hover]

/-- A poll of a job that goes on, and after which it is too late for another one, ends the wait. -/
theorem Waits.eq_of_late (h : Waits w r uri s start rounds count clock polls ending)
    (hpolls : polls.getLast? = some last) (hlast : last.Pending uri) {other : WaitEnd}
    (hlate : tooLate? uri s (between start last.ended) = some other) : ending = other := by
  obtain ⟨job, htold, hjob⟩ := hlast
  induction h with
  | unfinished => cases hpolls
  | finished htold' hjob' =>
      obtain rfl := Option.some.inj hpolls
      obtain rfl := Except.ok.inj (htold.symm.trans htold')
      exact nomatch hjob.symm.trans hjob'
  | failed htold' =>
      obtain rfl := Option.some.inj hpolls
      exact nomatch htold.symm.trans htold'
  | late hpending hlate' =>
      obtain rfl := Option.some.inj hpolls
      exact Option.some.inj (hlate'.symm.trans hlate)
  | cancelled hpending htime hstop =>
      obtain rfl := Option.some.inj hpolls
      exact nomatch htime.symm.trans hlate
  | @again rounds count clock polls ending hpending htime hgoes hrest ih =>
      cases polls with
      | nil =>
          obtain rfl := Option.some.inj hpolls
          exact nomatch htime.symm.trans hlate
      | cons p polls =>
          rw [List.getLast?_cons_cons] at hpolls
          exact ih hpolls

/-- The polls of a wait that ends without a result: the sum is too long after the last one, and the
earlier ones have left time. -/
theorem Waits.of_overflowed (h : Waits w r uri s start rounds count clock polls .overflowed) :
    ∃ limit earlier last, s.timeout = some limit ∧ polls = earlier ++ [last] ∧
      (∀ p ∈ earlier, p.Pending uri ∧ p.LeavesTime s start limit) ∧
      Overflows uri s start last := by
  generalize hending : WaitEnd.overflowed = ending at h
  induction h with
  | unfinished | finished | failed | cancelled => cases hending
  | @late rounds count clock ending hpending hlate =>
      subst hending
      obtain ⟨htimeout, hover⟩ := tooLate?_eq_overflowed.1 hlate
      obtain ⟨limit, hlimit⟩ := Option.isSome_iff_exists.1 htimeout
      exact ⟨limit, [], _, hlimit, rfl, fun _ hp => absurd hp List.not_mem_nil,
        hpending, htimeout, hover⟩
  | again hpending htime hgoes hrest ih =>
      obtain ⟨limit, earlier, last, hlimit, rfl, hall, hlast⟩ := ih hending
      have htimely := add_le_of_tooLate? htime hlimit
      exact ⟨limit, _ :: earlier, last, hlimit, rfl,
        List.forall_mem_cons.2 ⟨⟨hpending, htimely⟩, hall⟩, hlast⟩

theorem successful_eq_overflowed : ending.successful = .overflowed ↔ ending = .overflowed := by
  cases ending with
  | finished job =>
      rw [WaitEnd.successful]
      cases job.outcome <;> simp
  | failed | overflowed | unfinished => simp [WaitEnd.successful]

/-- A wait ends without a result if and only if it has a time limit, and after a poll of a job that
goes on the time that has passed and the interval are together longer than the longest span; all
polls before that one have left time. Waiting for a success ends so with the wait in it. The limit
is passed whenever it happens, if it is a span. -/
theorem overflowed_iff (w : Surroundings) (e : Endpoint) (uri : String) (s : PollSettings)
    (cancellable : Bool) (rounds : Nat) (start : Duration) :
    (w.waitEnd e uri s cancellable rounds start = .overflowed ↔
      ∃ limit earlier last, s.timeout = some limit ∧
        w.waitPolls e uri s cancellable rounds start = earlier ++ [last] ∧
        (∀ p ∈ earlier, p.Pending uri ∧ p.LeavesTime s start limit) ∧
        Overflows uri s start last) ∧
      (∀ message, w.successEnd e ⟨uri, message⟩ s rounds start = .overflowed ↔
        w.waitEnd e uri s false rounds start = .overflowed) ∧
      (w.waitEnd e uri s cancellable rounds start = .overflowed →
        ∀ limit, s.timeout = some limit → limit.nanoseconds ≤ Duration.max.nanoseconds →
          ∃ last ∈ w.waitPolls e uri s cancellable rounds start,
            limit.nanoseconds <
              (between start last.ended).nanoseconds + s.interval.nanoseconds) := by
  have h : Waits w (pollRequest e uri cancellable) uri s start rounds 0 start _ _ :=
    waits_iff.mpr ⟨rfl, rfl⟩
  have hforth : w.waitEnd e uri s cancellable rounds start = .overflowed → _ :=
    fun hending => (hending ▸ h).of_overflowed
  refine ⟨⟨hforth, ?_⟩, ?_, ?_⟩
  · intro hpolls
    obtain ⟨limit, earlier, last, -, hpolls, -, hpending, htimeout, hover⟩ := hpolls
    exact h.eq_of_late (by rw [hpolls, List.getLast?_concat]) hpending
      (tooLate?_eq_overflowed.2 ⟨htimeout, hover⟩)
  · intro message
    rw [Surroundings.successEnd_eq]
    exact successful_eq_overflowed
  · intro hending limit hlimit hspan
    obtain ⟨-, earlier, last, -, hpolls, -, -, -, hover⟩ := hforth hending
    refine ⟨last, ?_, by omega⟩
    rw [hpolls]
    exact List.mem_append_right _ List.mem_cons_self

/-- The first poll takes a second, and there is no second left in the longest span. -/
theorem overflowed_iff_slow :
    ∃ last ∈ Sample.slow.waitPolls Sample.endpoint "/api/jobs/7" Sample.patient false 9 ⟨0⟩,
      (Duration.ofSeconds 10).nanoseconds <
        (between ⟨0⟩ last.ended).nanoseconds + Sample.patient.interval.nanoseconds := by
  obtain ⟨-, -, hlate⟩ :=
    overflowed_iff Sample.slow Sample.endpoint "/api/jobs/7" Sample.patient false 9 ⟨0⟩
  exact hlate Sample.slow_overflowed (.ofSeconds 10) rfl (by decide)

/-- The interval and the limit are spans, and yet the wait has no result. -/
theorem wait_overflows :
    ¬ ∀ (w : Surroundings) (e : Endpoint) (uri : String) (s : PollSettings) (cancellable : Bool)
      (rounds : Nat) (start : Duration), s.interval.nanoseconds ≤ Duration.max.nanoseconds →
      (∀ limit ∈ s.timeout, limit.nanoseconds ≤ Duration.max.nanoseconds) →
      w.waitEnd e uri s cancellable rounds start ≠ .overflowed := by
  intro h
  have hspans : ∀ limit ∈ Sample.patient.timeout,
      limit.nanoseconds ≤ Duration.max.nanoseconds := by
    intro limit hlimit
    obtain rfl := Option.some.inj hlimit
    decide
  exact h Sample.slow Sample.endpoint "/api/jobs/7" Sample.patient false 9 ⟨0⟩ (Nat.le_refl _)
    hspans Sample.slow_overflowed

end HmcClient.Job
