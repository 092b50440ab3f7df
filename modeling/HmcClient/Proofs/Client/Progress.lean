import HmcClient.Proofs.Client.Runs

/-!
# Operations come to an end

Two facts, which together say that operations end if the console answers. Nothing can go on for
ever: each step of an operation, and each answer to it, brings it further into its tree, and every
branch of a tree is finite. And nothing gets stuck: where no operation can go on and none waits for
an answer, all are over.

The second is where the order of the locks comes in. An operation that cannot go on waits for a
lock. The first in the queue of that lock is kept out by one that holds it, and that one is not over
since it would hold nothing, so it waits for a lock that comes later in the order. The last lock of
the order has no later one.
-/

namespace HmcClient.Client

variable {user : Options} {α : Type}

/-! ## Nothing goes on for ever -/

/-- How far an operation is: what is left of it, and whether its first step has begun. -/
inductive Thread.Further : Program Steps α × Bool → Program Steps α × Bool → Prop where
  | begun (p : Program Steps α) : Further (p, true) (p, false)
  | answered {step : Step} {next : step.Answer → Program Steps α} (answer : step.Answer)
    (waiting waiting' : Bool) : Further (next answer, waiting') (.perform step next, waiting)

theorem Thread.further_wf : WellFounded (Thread.Further (α := α)) := by
  refine ⟨fun ⟨p, waiting⟩ => ?_⟩
  induction p generalizing waiting with
  | done a =>
      have hbegun : Acc Further (Program.done (S := Steps) a, true) :=
        .intro _ fun q hq => nomatch hq
      cases waiting with
      | true => exact hbegun
      | false => exact .intro _ fun q hq => by cases hq; exact hbegun
  | perform step next ih =>
      have hbegun : Acc Further (Program.perform (S := Steps) step next, true) := by
        refine .intro _ fun q hq => ?_
        cases hq with
        | answered answer _ waiting' => exact ih answer waiting'
      cases waiting with
      | true => exact hbegun
      | false =>
          refine .intro _ fun q hq => ?_
          cases hq with
          | begun => exact hbegun
          | answered answer _ waiting' => exact ih answer waiting'

/-- One of several moves, the others stay where they are. -/
inductive MovesOne {β : Type} (r : β → β → Prop) : List β → List β → Prop where
  | head {b b' : β} (rest : List β) (h : r b' b) : MovesOne r (b' :: rest) (b :: rest)
  | tail (b : β) {rest rest' : List β} (h : MovesOne r rest' rest) :
    MovesOne r (b :: rest') (b :: rest)

namespace MovesOne

variable {β : Type} {r : β → β → Prop}

theorem set {bs : List β} {t : Nat} {b b' : β} (hb : bs[t]? = some b) (h : r b' b) :
    MovesOne r (bs.set t b') bs := by
  induction bs generalizing t with
  | nil => cases hb
  | cons first rest ih =>
      cases t with
      | zero =>
          obtain rfl := Option.some.inj hb
          exact .head rest h
      | succ t => exact .tail first (ih hb)

theorem acc_cons {b : β} {rest : List β} (hb : Acc r b) (hrest : Acc (MovesOne r) rest) :
    Acc (MovesOne r) (b :: rest) := by
  induction hb generalizing rest with
  | intro b _ ihb =>
      induction hrest with
      | intro rest hrest ihrest =>
          refine .intro _ fun bs hbs => ?_
          cases hbs with
          | head _ h => exact ihb _ h (.intro rest hrest)
          | tail _ h => exact ihrest _ h

theorem wf (hr : WellFounded r) : WellFounded (MovesOne r) := by
  refine ⟨fun bs => ?_⟩
  induction bs with
  | nil => exact .intro _ fun bs hbs => nomatch hbs
  | cons b rest ih => exact acc_cons (hr.apply b) ih

end MovesOne

/-- Whether an event brings an operation further. -/
def Event.isProgress : Event → Bool
  | .advance _ | .deliver .. => true
  | .cancel _ | .drop _ | .change _ => false

namespace World

def positions (w : World α) : List (Program Steps α × Bool) :=
  w.threads.map fun thread => (thread.rest, thread.waiting)

def Progresses (w w' : World α) : Prop :=
  ∃ event : Event, event.isProgress = true ∧ w.next event = some w'

section

variable {w w' : World α} {t : Nat} {thread : Thread α}

theorem movesOne_of_answered {step : Step} {next : step.Answer → Program Steps α}
    (ht : w.threads[t]? = some thread) (hrest : thread.rest = .perform step next)
    (answer : step.Answer)
    (hthreads : w'.threads =
      w.threads.set t { thread with rest := next answer, waiting := false }) :
    MovesOne Thread.Further w'.positions w.positions := by
  have hfurther : Thread.Further (next answer, false) (thread.rest, thread.waiting) := by
    rw [hrest]
    exact .answered answer _ _
  simp only [positions, hthreads, List.map_set]
  exact .set (by rw [List.getElem?_map, ht]; rfl) hfurther

theorem movesOne_of_begun (ht : w.threads[t]? = some thread) (hwaiting : thread.waiting = false)
    (hthreads : w'.threads = w.threads.set t { thread with waiting := true }) :
    MovesOne Thread.Further w'.positions w.positions := by
  have hfurther : Thread.Further (thread.rest, true) (thread.rest, thread.waiting) := by
    rw [hwaiting]
    exact .begun _
  simp only [positions, hthreads, List.map_set]
  exact .set (by rw [List.getElem?_map, ht]; rfl) hfurther

end

theorem Progresses.movesOne {w w' : World α} (h : w.Progresses w') :
    MovesOne Thread.Further w'.positions w.positions := by
  obtain ⟨event, hprogress, hnext⟩ := h
  cases happens_of_next hnext with
  | touch ht _ hrest => exact movesOne_of_answered ht hrest _ rfl
  | release ht _ hrest => exact movesOne_of_answered ht hrest () rfl
  | refuse ht _ _ hrest => exact movesOne_of_answered ht hrest true rfl
  | enter ht _ _ hrest => exact movesOne_of_answered ht hrest false rfl
  | join ht _ hwaiting => exact movesOne_of_begun ht hwaiting rfl
  | send ht _ hwaiting => exact movesOne_of_begun ht hwaiting rfl
  | stop ht _ _ hrest => exact movesOne_of_answered ht hrest Delivery.cancelled rfl
  | wake ht _ _ hrest => exact movesOne_of_answered ht hrest true rfl
  | pass ht _ hrest => exact movesOne_of_answered ht hrest false rfl
  | answer ht _ _ hrest => exact movesOne_of_answered ht hrest _ rfl
  | cancel => cases hprogress
  | drop => cases hprogress
  | change => cases hprogress

/-- No operation goes on for ever. -/
theorem progresses_wf : WellFounded fun w' w : World α => w.Progresses w' :=
  Subrelation.wf Progresses.movesOne (InvImage.wf positions (MovesOne.wf Thread.further_wf))

/-! ## Nothing gets stuck -/

/-- No operation can go on, and none waits for an answer. -/
structure Resting (w : World α) : Prop where
  still : ∀ t, w.advance t = none
  answered : ∀ (t : Nat) (thread : Thread α), w.threads[t]? = some thread →
    thread.dropped = false → thread.message? = none

theorem Resting.of_isOver {w : World α} (h : ∀ thread ∈ w.threads, thread.isOver = true) :
    w.Resting where
  still t := by
    rw [advance]
    cases ht : w.threads[t]? with
    | none => rfl
    | some thread =>
        have hover := h thread (List.mem_of_getElem? ht)
        rw [Thread.isOver, Bool.or_eq_true] at hover
        rw [Option.bind_eq_bind, Option.bind_some]
        split
        · rfl
        next hlive =>
          have hresult := hover.resolve_left hlive
          rw [Thread.result?] at hresult
          split
          · rfl
          · next hrest => rw [hrest] at hresult; cases hresult
  answered t thread ht hlive := by
    have hover := h thread (List.mem_of_getElem? ht)
    rw [Thread.isOver, hlive, Bool.false_or, Thread.result?] at hover
    cases hrest : thread.rest with
    | done a => rw [Thread.message?, hrest]
    | perform step next => rw [hrest] at hover; cases hover

/-- What an operation that is not over does in a world at rest: it waits for a lock. -/
theorem Resting.awaits {w : World α} (h : w.Resting) {t : Nat} {thread : Thread α}
    (ht : w.threads[t]? = some thread) (hover : thread.isOver = false) :
    ∃ lock access, thread.Awaits lock access := by
  simp only [Thread.isOver, Bool.or_eq_false_iff] at hover
  obtain ⟨hlive, hresult⟩ := hover
  have hstill := h.still t
  have hanswered := h.answered t thread ht hlive
  rw [advance, ht] at hstill
  simp only [Option.bind_eq_bind, Option.bind_some, hlive, Bool.false_eq_true, if_false] at hstill
  cases hrest : thread.rest with
  | done a => rw [Thread.result?, hrest] at hresult; cases hresult
  | perform step next =>
      rw [hrest] at hstill
      cases step with
      | touch touch => cases hstill
      | release lock => cases hstill
      | acquire lock access cancellable =>
          simp only [takeStep] at hstill
          split at hstill
          · cases hstill
          split at hstill
          · next hwaiting => exact ⟨lock, access, hlive, hwaiting, cancellable, next, hrest⟩
          · cases hstill
      | exchange m cancellable =>
          simp only [takeStep] at hstill
          split at hstill
          · cases hstill
          split at hstill
          · next hwaiting =>
              rw [Thread.message?, hrest] at hanswered
              simp [hwaiting] at hanswered
          · cases hstill
      | pause interval cancellable =>
          simp only [takeStep] at hstill
          split at hstill <;> cases hstill

theorem exists_holder_of_enter? {s : Turnstile} {t : Nat} {access : Access}
    {rest : List (Nat × Access)} (hqueue : s.queue = (t, access) :: rest) (h : s.enter? t = none) :
    ∃ holder, holder ∈ s.holders := by
  cases hholders : s.holders with
  | cons holder others => exact ⟨holder, List.mem_cons_self⟩
  | nil =>
      rw [Turnstile.enter?, hqueue] at h
      cases access <;> simp [Turnstile.admits, hholders] at h

variable {R : Nat → Rules} {Q : Nat → Account → α → Prop} {s₀ : Session} {A : Answers}
  {w : World α} {held : Holdings}

theorem Kept.rank_lt_of_awaits (h : w.Kept user R Q s₀ A held) {t : Nat} {thread : Thread α}
    (ht : w.threads[t]? = some thread) {lock other : Lock} {access a : Access}
    (hawaits : thread.Awaits lock access) (hheld : (other, a) ∈ held t) :
    other.rank < lock.rank := by
  obtain ⟨hlive, -, cancellable, next, hrest⟩ := hawaits
  have hstands := h.stands t thread ht hlive
  rw [Thread.stands_iff (by rw [Thread.message?, hrest]), hrest] at hstands
  exact hstands.1 _ hheld

/-- Who holds a lock is not over, if operations end without locks. -/
theorem Kept.not_over_of_held (h : w.Kept user R Q s₀ A held)
    (hQ : ∀ t g a, Q t g a → g.held = []) {t : Nat} {lock : Lock} {access : Access}
    (hheld : (lock, access) ∈ held t) :
    ∃ thread, w.threads[t]? = some thread ∧ thread.isOver = false := by
  obtain ⟨thread, ht, hlive⟩ := h.locking.live t _ hheld
  refine ⟨thread, ht, ?_⟩
  have hstands := h.stands t thread ht hlive
  cases hrest : thread.rest with
  | done a =>
      rw [Thread.stands_iff (by rw [Thread.message?, hrest]), hrest] at hstands
      have hnone : held t = [] := hQ t _ a hstands
      rw [hnone] at hheld
      cases hheld
  | perform step next => simp [Thread.isOver, Thread.result?, hlive, hrest]

/-- In a world at rest nobody waits for a lock. The induction is on the locks that come later. -/
theorem Resting.queue_eq_nil (hrest : w.Resting) (h : w.Kept user R Q s₀ A held)
    (hQ : ∀ t g a, Q t g a → g.held = []) (later : Nat) :
    ∀ lock : Lock, 4 ≤ lock.rank + later → (w.locks lock).queue = [] := by
  induction later with
  | zero => intro lock hlock; cases lock <;> simp [Lock.rank] at hlock
  | succ later ih =>
      intro lock hlock
      cases hqueue : (w.locks lock).queue with
      | nil => rfl
      | cons first rest =>
          obtain ⟨t, access⟩ := first
          have hmem : (t, access) ∈ (w.locks lock).queue := by
            rw [hqueue]
            exact List.mem_cons_self
          obtain ⟨thread, ht, hawaits⟩ := (h.locking.queue lock t access).1 hmem
          have hshut : (w.locks lock).enter? t = none := by
            obtain ⟨hlive, hwaiting, cancellable, next, hnext⟩ := hawaits
            have hstill := hrest.still t
            simp only [advance, ht, Option.bind_eq_bind, Option.bind_some, hlive,
              Bool.false_eq_true, if_false, hnext, takeStep, hwaiting, if_true] at hstill
            split at hstill
            · cases hstill
            · exact Option.eq_none_iff_forall_ne_some.2 (by simpa using hstill)
          -- A holder is not over, so it waits for a later lock, whose queue is empty.
          obtain ⟨⟨u, a⟩, hholder⟩ := exists_holder_of_enter? hqueue hshut
          have hheld := (h.locking.holders lock u a).1 hholder
          obtain ⟨other, hother, hover⟩ := h.not_over_of_held hQ hheld
          obtain ⟨next, access', hawaits'⟩ := hrest.awaits hother hover
          have hlater := h.rank_lt_of_awaits hother hawaits' hheld
          have hqueued := (h.locking.queue next u access').2 ⟨other, hother, hawaits'⟩
          rw [ih next (by omega)] at hqueued
          cases hqueued

theorem Resting.isOver (hrest : w.Resting) (h : w.Kept user R Q s₀ A held)
    (hQ : ∀ t g a, Q t g a → g.held = []) {t : Nat} {thread : Thread α}
    (ht : w.threads[t]? = some thread) : thread.isOver = true := by
  cases hover : thread.isOver with
  | true => rfl
  | false =>
      obtain ⟨lock, access, hawaits⟩ := hrest.awaits ht hover
      have hqueued := (h.locking.queue lock t access).2 ⟨thread, ht, hawaits⟩
      rw [hrest.queue_eq_nil h hQ 4 lock (by omega)] at hqueued
      cases hqueued

end World

end HmcClient.Client
