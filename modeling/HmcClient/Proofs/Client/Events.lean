import HmcClient.Client.World

/-!
# What can happen in a world

`World.next` says by computation what an event does. `World.Happens` says the same by cases: there
is one for each thing that can happen, with all that must be so for it to happen and the world it
leads to. What holds of every event is proved by these cases, and nothing else opens `World.next`.
-/

namespace HmcClient.Client.World

variable {α : Type}

/-- What an event does to a world. -/
inductive Happens (w : World α) : Event → World α → Prop where
  | touch {t : Nat} {thread : Thread α} {touch : Touch} {next : touch.Answer → Program Steps α}
    (ht : w.threads[t]? = some thread) (hlive : thread.dropped = false)
    (hrest : thread.rest = .perform (.touch touch) next) :
    Happens w (.advance t) (((resume { w with shared := (touch.apply w.shared).2 } t thread
      (next (touch.apply w.shared).1)).note (.touched t touch)))
  | release {t : Nat} {thread : Thread α} {lock : Lock} {next : Unit → Program Steps α}
    (ht : w.threads[t]? = some thread) (hlive : thread.dropped = false)
    (hrest : thread.rest = .perform (.release lock) next) :
    Happens w (.advance t) (((w.resume t thread (next ())).setLock lock
      ((w.locks lock).exit t)).note (.released t lock))
  /-- A cancelled operation leaves a lock to others. -/
  | refuse {t : Nat} {thread : Thread α} {lock : Lock} {access : Access}
    {next : Bool → Program Steps α} (ht : w.threads[t]? = some thread)
    (hlive : thread.dropped = false) (hcancelled : thread.cancelled = true)
    (hrest : thread.rest = .perform (.acquire lock access true) next) :
    Happens w (.advance t) (((w.resume t thread (next true)).setLock lock
      ((w.locks lock).leave t)).note (.gaveUp t))
  | enter {t : Nat} {thread : Thread α} {lock : Lock} {access : Access} {cancellable : Bool}
    {next : Bool → Program Steps α} {s : Turnstile} (ht : w.threads[t]? = some thread)
    (hlive : thread.dropped = false) (hwaiting : thread.waiting = true)
    (hrest : thread.rest = .perform (.acquire lock access cancellable) next)
    (hs : (w.locks lock).enter? t = some s) :
    Happens w (.advance t) (((w.resume t thread (next false)).setLock lock s).note
      (.admitted t lock access))
  /-- An operation begins to wait for a lock. -/
  | join {t : Nat} {thread : Thread α} {lock : Lock} {access : Access} {cancellable : Bool}
    {next : Bool → Program Steps α} (ht : w.threads[t]? = some thread)
    (hlive : thread.dropped = false) (hwaiting : thread.waiting = false)
    (hrest : thread.rest = .perform (.acquire lock access cancellable) next) :
    Happens w (.advance t) ((w.setThread t { thread with waiting := true }).setLock lock
      ((w.locks lock).join t access))
  | send {t : Nat} {thread : Thread α} {m : Message} {cancellable : Bool}
    {next : Delivery → Program Steps α} (ht : w.threads[t]? = some thread)
    (hlive : thread.dropped = false) (hwaiting : thread.waiting = false)
    (hrest : thread.rest = .perform (.exchange m cancellable) next)
    (hgoes : (cancellable && thread.cancelled) = false) :
    Happens w (.advance t) ((w.setThread t { thread with waiting := true }).note (.sent t m))
  /-- A cancelled operation does not wait for an answer. -/
  | stop {t : Nat} {thread : Thread α} {m : Message} {next : Delivery → Program Steps α}
    (ht : w.threads[t]? = some thread) (hlive : thread.dropped = false)
    (hcancelled : thread.cancelled = true)
    (hrest : thread.rest = .perform (.exchange m true) next) :
    Happens w (.advance t) ((w.resume t thread (next .cancelled)).note (.gaveUp t))
  /-- A cancelled operation does not let time pass. -/
  | wake {t : Nat} {thread : Thread α} {interval : Duration} {next : Bool → Program Steps α}
    (ht : w.threads[t]? = some thread) (hlive : thread.dropped = false)
    (hcancelled : thread.cancelled = true)
    (hrest : thread.rest = .perform (.pause interval true) next) :
    Happens w (.advance t) ((w.resume t thread (next true)).note (.gaveUp t))
  | pass {t : Nat} {thread : Thread α} {interval : Duration} {cancellable : Bool}
    {next : Bool → Program Steps α} (ht : w.threads[t]? = some thread)
    (hlive : thread.dropped = false)
    (hrest : thread.rest = .perform (.pause interval cancellable) next) :
    Happens w (.advance t) (resume { w with shared := w.shared.after interval } t thread
      (next false))
  | answer {t : Nat} {thread : Thread α} {m : Message} {cancellable : Bool} {d : Delivery}
    {next : Delivery → Program Steps α} (ht : w.threads[t]? = some thread)
    (hlive : thread.dropped = false) (hwaiting : thread.waiting = true)
    (hrest : thread.rest = .perform (.exchange m cancellable) next) (hd : d ≠ .cancelled) :
    Happens w (.deliver t d) ((w.resume t thread (next d)).note (.delivered t m d))
  | cancel {t : Nat} {thread : Thread α} (ht : w.threads[t]? = some thread) :
    Happens w (.cancel t) ((w.setThread t { thread with cancelled := true }).note (.cancelled t))
  | drop {t : Nat} {thread : Thread α} {step : Step} {next : step.Answer → Program Steps α}
    (ht : w.threads[t]? = some thread) (hlive : thread.dropped = false)
    (hrest : thread.rest = .perform step next) (hwait : step.isWait = true) :
    Happens w (.drop t) (note { w.setThread t { thread with dropped := true, waiting := false } with
      locks := fun lock => (w.locks lock).forget t } (.dropped t))
  | change (files : Files) :
    Happens w (.change files) { w with shared := { w.shared with files := files } }

variable {w w' : World α}

theorem happens_of_takeStep {t : Nat} {thread : Thread α} {step : Step}
    {next : step.Answer → Program Steps α} (ht : w.threads[t]? = some thread)
    (hlive : thread.dropped = false) (hrest : thread.rest = .perform step next)
    (hw : w.takeStep t thread step next = some w') : w.Happens (.advance t) w' := by
  cases step with
  | touch touch =>
      obtain rfl := Option.some.inj hw
      exact .touch ht hlive hrest
  | release lock =>
      obtain rfl := Option.some.inj hw
      exact .release ht hlive hrest
  | acquire lock access cancellable =>
      simp only [takeStep] at hw
      split at hw
      · next hstop =>
          obtain ⟨rfl, hcancelled⟩ := Bool.and_eq_true_iff.1 hstop
          obtain rfl := Option.some.inj hw
          exact .refuse ht hlive hcancelled hrest
      split at hw
      · next hwaiting =>
          obtain ⟨s, hs, hw⟩ := Option.bind_eq_some_iff.1 hw
          obtain rfl := Option.some.inj hw
          exact .enter ht hlive hwaiting hrest hs
      · next hwaiting =>
          obtain rfl := Option.some.inj hw
          exact .join ht hlive (Bool.eq_false_iff.2 hwaiting) hrest
  | exchange m cancellable =>
      simp only [takeStep] at hw
      split at hw
      · next hstop =>
          obtain ⟨rfl, hcancelled⟩ := Bool.and_eq_true_iff.1 hstop
          obtain rfl := Option.some.inj hw
          exact .stop ht hlive hcancelled hrest
      next hgoes =>
        split at hw
        · cases hw
        · next hwaiting =>
            obtain rfl := Option.some.inj hw
            exact .send ht hlive (Bool.eq_false_iff.2 hwaiting) hrest (Bool.eq_false_iff.2 hgoes)
  | pause interval cancellable =>
      simp only [takeStep] at hw
      split at hw
      · next hstop =>
          obtain ⟨rfl, hcancelled⟩ := Bool.and_eq_true_iff.1 hstop
          obtain rfl := Option.some.inj hw
          exact .wake ht hlive hcancelled hrest
      · obtain rfl := Option.some.inj hw
        exact .pass ht hlive hrest

theorem happens_of_next {event : Event} (hw : w.next event = some w') : w.Happens event w' := by
  cases event with
  | advance t =>
      obtain ⟨thread, ht, hw⟩ := Option.bind_eq_some_iff.1 hw
      split at hw
      · cases hw
      next hlive =>
        cases hrest : thread.rest with
        | done a => rw [hrest] at hw; cases hw
        | perform step next =>
            rw [hrest] at hw
            exact happens_of_takeStep ht (Bool.eq_false_iff.2 hlive) hrest hw
  | deliver t d =>
      obtain ⟨thread, ht, hw⟩ := Option.bind_eq_some_iff.1 hw
      split at hw
      · next m cancellable next hrest =>
          split at hw
          · cases hw
          · next hcan =>
              simp only [Bool.or_eq_true, Bool.not_eq_true', not_or, decide_eq_true_eq] at hcan
              obtain ⟨⟨⟨hlive, hwaiting⟩, -⟩, hd⟩ := hcan
              obtain rfl := Option.some.inj hw
              exact .answer ht (Bool.eq_false_iff.2 hlive) (Bool.not_eq_false _ ▸ hwaiting) hrest hd
      · cases hw
  | cancel t =>
      obtain ⟨thread, ht, hw⟩ := Option.bind_eq_some_iff.1 hw
      obtain rfl := Option.some.inj hw
      exact .cancel ht
  | drop t =>
      obtain ⟨thread, ht, hw⟩ := Option.bind_eq_some_iff.1 hw
      split at hw
      · next step next hrest =>
          split at hw
          · cases hw
          · next hcan =>
              simp only [Bool.or_eq_true, Bool.not_eq_true', not_or, Bool.not_eq_false] at hcan
              obtain rfl := Option.some.inj hw
              exact .drop ht (Bool.eq_false_iff.2 hcan.1) hrest hcan.2
      · cases hw
  | change files =>
      obtain rfl := Option.some.inj hw
      exact .change files

end HmcClient.Client.World
