import HmcClient.Proofs.Client.Coalescing

/-!
# No deadlock

Operations also exclude each other at the trace, whose writer only one of them can have at a time. A
world has no lock for it: what an operation does to the trace is a single step there. A `Desk` is a
world in which this step is taken apart. An operation that comes to the trace first has to take the
writer, and has it until the step is done. A text is written in the background. If the operation is
dropped meanwhile, it vanishes with its locks, but its write is left behind and still has the
writer, or still has to wait for it.

Nothing that a world can do is lost by this: a desk follows every run of its world, with the writer
free before and after each step (`Desk.reaches_of_world`).

The writer comes after all locks, since who has it asks for nothing else before giving it back. So
it adds nothing to the argument for worlds: the writer can always be given back, and where nobody
has it and nobody wants it, the desk is at rest only if its world is, and there all operations are
over.
-/

namespace HmcClient.Client

variable {α : Type} {user : Options}

/-! ## The writer -/

/-- Whether a touch needs the writer of the trace. -/
def Touch.usesWriter : Touch → Bool
  | .isTraced | .trace _ | .redirectTrace _ => true
  | _ => false

/-- Whether the next step of an operation needs the writer. -/
def Thread.usesWriter (thread : Thread α) : Bool :=
  !thread.dropped &&
    match thread.rest with
    | .perform (.touch touch) _ => Touch.usesWriter touch
    | _ => false

theorem Thread.of_usesWriter {thread : Thread α} (h : thread.usesWriter = true) :
    thread.dropped = false ∧ ∃ touch next, thread.rest = .perform (.touch touch) next := by
  rw [usesWriter, Bool.and_eq_true, Bool.not_eq_true'] at h
  obtain ⟨hlive, hrest⟩ := h
  split at hrest
  · next touch next heq => exact ⟨hlive, touch, next, heq⟩
  · cases hrest

theorem Thread.usesWriter_of_rest {thread : Thread α} {step : Step}
    {next : step.Answer → Program Steps α} (hrest : thread.rest = .perform step next)
    (hstep : ∀ touch, step ≠ .touch touch) : thread.usesWriter = false := by
  refine Bool.eq_false_iff.2 fun h => ?_
  obtain ⟨-, touch, next', heq⟩ := of_usesWriter h
  rw [hrest] at heq
  cases heq
  exact hstep touch rfl

namespace World

def usesWriter (w : World α) (t : Nat) : Bool := w.threads[t]?.any Thread.usesWriter

theorem usesWriter_iff {w : World α} {t : Nat} :
    w.usesWriter t = true ↔
      ∃ thread, w.threads[t]? = some thread ∧ thread.usesWriter = true := by
  rw [usesWriter, Option.any_eq_true]

/-- An operation vanishes with its places in queues and its hold on locks. -/
def vanish (w : World α) (t : Nat) (thread : Thread α) : World α :=
  note { w.setThread t { thread with dropped := true, waiting := false } with
    locks := fun lock => (w.locks lock).forget t } (.dropped t)

end World

/-- Who has the writer: an operation, or the write of one that was dropped. -/
inductive Writing where
  | operation (t : Nat)
  | leftover (text : String)
  deriving DecidableEq, Repr

/-- A world and the writer of its trace. -/
structure Desk (α : Type) where
  world : World α
  writer : Option Writing
  /-- The texts that dropped operations have left to be written, without the writer so far. -/
  leftovers : List String

namespace Desk

/-- What can happen at a desk. -/
inductive Event where
  | happen (event : Client.Event)
  /-- An operation takes the writer. -/
  | take (t : Nat)
  /-- An operation is dropped that writes, or waits to write. -/
  | abandon (t : Nat)
  /-- A write that was left behind takes the writer. -/
  | resume (n : Nat)
  /-- A write that was left behind is done. -/
  | finish
  deriving Repr

/-- A desk at which operations start. -/
def start (shared : Shared) (operations : List (Program Steps α)) : Desk α :=
  ⟨.start shared operations, none, []⟩

/-- What happens in the world. An operation that uses the writer must have it, and gives it back. -/
def happen (d : Desk α) (event : Client.Event) : Option (Desk α) := do
  let world ← d.world.next event
  match event with
  | .advance t =>
    if d.world.usesWriter t then
      if d.writer = some (.operation t) then some { d with world := world, writer := none }
      else none
    else some { d with world := world }
  | _ => some { d with world := world }

def take (d : Desk α) (t : Nat) : Option (Desk α) :=
  if d.world.usesWriter t ∧ d.writer = none then some { d with writer := some (.operation t) }
  else none

def abandon (d : Desk α) (t : Nat) : Option (Desk α) := do
  let thread ← d.world.threads[t]?
  match thread.rest with
  | .perform (.touch (.trace text)) _ =>
    if thread.dropped then none
    else if d.writer = some (.operation t) then
      some { d with world := d.world.vanish t thread, writer := some (.leftover text) }
    else some { d with world := d.world.vanish t thread, leftovers := d.leftovers ++ [text] }
  | _ => none

def resume (d : Desk α) (n : Nat) : Option (Desk α) := do
  let text ← d.leftovers[n]?
  if d.writer = none then
    some { d with writer := some (.leftover text), leftovers := d.leftovers.eraseIdx n }
  else none

def finish (d : Desk α) : Option (Desk α) :=
  match d.writer with
  | some (.leftover text) =>
    let sink := d.world.shared.sink.write text
    some { d with
      world := { d.world with shared := { d.world.shared with sink := sink } }
      writer := none }
  | _ => none

/-- One event happens; `none` if it cannot. -/
def next (d : Desk α) : Event → Option (Desk α)
  | .happen event => d.happen event
  | .take t => d.take t
  | .abandon t => d.abandon t
  | .resume n => d.resume n
  | .finish => d.finish

/-- The desk can come to another one. -/
inductive Reaches : Desk α → Desk α → Prop where
  | refl (d : Desk α) : Reaches d d
  | step {d d' d'' : Desk α} (event : Event) (h : d.next event = some d') (rest : Reaches d' d'') :
    Reaches d d''

/-- A desk at which calls on one client start. -/
def ofCalls (e : Endpoint) (shared : Shared) (calls : List Call) : Desk Outcome :=
  .start shared (calls.map (·.operation e))

/-- Events happen one after the other. -/
def run (d : Desk α) (events : List Event) : Option (Desk α) := events.foldlM next d

theorem Reaches.of_run {d d' : Desk α} {events : List Event} (h : d.run events = some d') :
    Reaches d d' := by
  induction events generalizing d with
  | nil =>
      obtain rfl := Option.some.inj h
      exact .refl d
  | cons event events ih =>
      obtain ⟨d₁, hnext, hrest⟩ := Option.bind_eq_some_iff.1 h
      exact .step event hnext (ih hrest)

/-! ## Every run of a world is one of a desk -/

section

variable {w w' : World α} {event : Client.Event} {leftovers : List String}

/-- An event of a world happens at a desk too, if whoever needs the writer takes it first. -/
theorem reaches_of_next (h : w.next event = some w') :
    Reaches ⟨w, none, leftovers⟩ ⟨w', none, leftovers⟩ := by
  by_cases huses : ∃ t, event = .advance t ∧ w.usesWriter t = true
  · obtain ⟨t, rfl, hwriter⟩ := huses
    have htake : (⟨w, none, leftovers⟩ : Desk α).next (.take t) =
        some ⟨w, some (.operation t), leftovers⟩ := if_pos ⟨hwriter, rfl⟩
    refine .step _ htake (.step (.happen (.advance t)) ?_ (.refl _))
    simp [next, happen, h, hwriter]
  · refine .step (.happen event) ?_ (.refl _)
    cases event with
    | advance t =>
        have hwriter : w.usesWriter t = false :=
          Bool.eq_false_iff.2 fun hw => huses ⟨t, rfl, hw⟩
        simp [next, happen, h, hwriter]
    | _ => simp [next, happen, h]

theorem Reaches.trans {d d' d'' : Desk α} (h : Reaches d d') (h' : Reaches d' d'') :
    Reaches d d'' := by
  induction h with
  | refl d => exact h'
  | step event hnext rest ih => exact .step event hnext (ih h')

theorem reaches_of_world (h : w.Reaches w') :
    Reaches ⟨w, none, leftovers⟩ ⟨w', none, leftovers⟩ := by
  induction h with
  | refl w => exact .refl _
  | step event hnext rest ih => exact (reaches_of_next hnext).trans ih

end

end Desk

/-! ## What is kept -/

namespace World

variable {w w' : World α} {t : Nat}

theorem usesWriter_of_set {u : Nat} {thread thread' : Thread α} (h : w.usesWriter t = true)
    (hthreads : w'.threads = w.threads.set u thread') (hu : w.threads[u]? = some thread)
    (hsame : t = u → thread.usesWriter = true → thread'.usesWriter = true) :
    w'.usesWriter t = true := by
  obtain ⟨other, hother, huses⟩ := usesWriter_iff.1 h
  refine usesWriter_iff.2 ?_
  rw [hthreads, getElem?_set hu]
  split
  · next htu =>
      subst htu
      rw [hu] at hother
      cases hother
      exact ⟨thread', rfl, hsame rfl huses⟩
  · exact ⟨other, hother, huses⟩

/-- An operation that needs the writer goes on needing it until it takes its next step. -/
theorem usesWriter_next {event : Event} (h : w.usesWriter t = true)
    (hnext : w.next event = some w') (hother : event ≠ .advance t) : w'.usesWriter t = true := by
  have hadvance {u : Nat} (hu : event = .advance u) : t ≠ u := by
    rintro rfl
    exact hother hu
  have hwait {thread : Thread α} {step : Step} {next : step.Answer → Program Steps α}
      (hrest : thread.rest = .perform step next) (hstep : step.isWait = true) :
      ¬ thread.usesWriter = true := by
    rw [Thread.usesWriter_of_rest hrest (by rintro touch rfl; cases hstep)]
    exact Bool.false_ne_true
  cases happens_of_next hnext with
  | touch ht | release ht | refuse ht | enter ht | join ht | send ht | stop ht | wake ht
  | pass ht =>
      exact usesWriter_of_set h rfl ht fun htu => absurd htu (hadvance rfl)
  | answer ht hlive hwaiting hrest =>
      exact usesWriter_of_set h rfl ht fun _ huses => absurd huses (hwait hrest rfl)
  | cancel ht => exact usesWriter_of_set h rfl ht fun _ huses => huses
  | drop ht hlive hrest hstep =>
      exact usesWriter_of_set h rfl ht fun _ huses => absurd huses (hwait hrest hstep)
  | change => exact h

/-- A message that was sent can be answered, unless its operation is about to give up. -/
theorem exists_deliver {thread : Thread α} {m : Message} (ht : w.threads[t]? = some thread)
    (hlive : thread.dropped = false) (hmessage : thread.message? = some m)
    (hstill : w.advance t = none) {delivery : Delivery} (hdelivery : delivery ≠ .cancelled) :
    ∃ w', w.deliver t delivery = some w' := by
  rw [Thread.message?] at hmessage
  split at hmessage
  · next message cancellable next hrest =>
      split at hmessage
      · next hwaiting =>
          have hgoes : (cancellable && thread.cancelled) = false := by
            refine Bool.eq_false_iff.2 fun hstop => ?_
            simp only [advance, ht, Option.bind_eq_bind, Option.bind_some, hlive,
              Bool.false_eq_true, if_false, hrest, takeStep, hstop, if_true] at hstill
            cases hstill
          simp only [deliver, ht, hrest, hlive, hwaiting, hgoes, hdelivery, Option.bind_eq_bind,
            Option.bind_some, Bool.not_true, Bool.or_self, decide_false, Bool.false_eq_true,
            if_false]
          exact ⟨_, rfl⟩
      · cases hmessage
  · cases hmessage

variable {R : Nat → Rules} {Q : Nat → Account → α → Prop} {s₀ : Session} {A : Answers}
  {held : Holdings}

theorem Kept.redirect (h : w.Kept user R Q s₀ A held) (sink : Sink) :
    World.Kept user R Q s₀ A { w with shared := { w.shared with sink := sink } } held :=
  ⟨h.sameUser, ⟨h.locking.sound, h.locking.holders, h.locking.queue, h.locking.live⟩, h.lawful,
    h.session, h.inside, h.dropped, h.gaveUp, h.stands⟩

end World

namespace Desk

variable {R : Nat → Rules} {Q : Nat → Account → α → Prop} {s₀ : Session} {A : Answers}
  {d d' : Desk α}

/-- What every event at a desk keeps. -/
structure Kept (user : Options) (R : Nat → Rules) (Q : Nat → Account → α → Prop) (s₀ : Session)
    (d : Desk α) : Prop where
  world : ∃ held, d.world.Kept user R Q s₀ (fun _ _ _ => True) held
  /-- The operation that has the writer is about to use it. -/
  writer : ∀ t, d.writer = some (.operation t) → d.world.usesWriter t = true

namespace Kept

theorem happen (h : d.Kept user R Q s₀) {event : Client.Event} (hnext : d.happen event = some d') :
    d'.Kept user R Q s₀ := by
  obtain ⟨world, hworld, hnext⟩ := Option.bind_eq_some_iff.1 hnext
  obtain ⟨held, hkept⟩ := h.world
  have hallows : d.world.Allows (fun _ _ _ => True) event := by
    cases event with
    | deliver t delivery => exact fun _ _ _ _ => trivial
    | _ => trivial
  have hkept' := hkept.next (P := fun _ _ _ => True) (fun _ _ _ _ => trivial) hworld hallows
  have hother : (∀ t, event = .advance t → d.world.usesWriter t = false) →
      ({ d with world := world } : Desk α).Kept user R Q s₀ := by
    refine fun hquiet => ⟨hkept', fun t ht => ?_⟩
    refine World.usesWriter_next (h.writer t ht) hworld fun hadvance => ?_
    exact Bool.false_ne_true ((hquiet t hadvance).symm.trans (h.writer t ht))
  split at hnext
  · next t =>
      split at hnext
      · split at hnext
        · obtain rfl := Option.some.inj hnext
          exact ⟨hkept', fun u hu => nomatch hu⟩
        · cases hnext
      · next hquiet =>
          obtain rfl := Option.some.inj hnext
          refine hother fun u hu => ?_
          obtain rfl := Event.advance.inj hu
          exact Bool.eq_false_iff.2 hquiet
  · next hadvance =>
      obtain rfl := Option.some.inj hnext
      exact hother fun u hu => absurd hu (hadvance u)

theorem take (h : d.Kept user R Q s₀) {t : Nat} (hnext : d.take t = some d') :
    d'.Kept user R Q s₀ := by
  rw [Desk.take] at hnext
  split at hnext
  · next hfree =>
      obtain rfl := Option.some.inj hnext
      refine ⟨h.world, fun u hu => ?_⟩
      obtain rfl := Writing.operation.inj (Option.some.inj hu)
      exact hfree.1
  · cases hnext

theorem abandon (h : d.Kept user R Q s₀) {t : Nat} (hnext : d.abandon t = some d') :
    d'.Kept user R Q s₀ := by
  obtain ⟨thread, ht, hnext⟩ := Option.bind_eq_some_iff.1 hnext
  obtain ⟨held, hkept⟩ := h.world
  split at hnext
  · split at hnext
    · cases hnext
    next hlive =>
      have hkept' := hkept.drop ht (Bool.eq_false_iff.2 hlive)
      split at hnext
      · obtain rfl := Option.some.inj hnext
        exact ⟨⟨_, hkept'⟩, fun u hu => nomatch hu⟩
      · next hwithout =>
          obtain rfl := Option.some.inj hnext
          refine ⟨⟨_, hkept'⟩, fun u hu => World.usesWriter_of_set (h.writer u hu) rfl ht ?_⟩
          rintro rfl
          exact absurd hu hwithout
  · cases hnext

theorem resume (h : d.Kept user R Q s₀) {n : Nat} (hnext : d.resume n = some d') :
    d'.Kept user R Q s₀ := by
  obtain ⟨text, -, hnext⟩ := Option.bind_eq_some_iff.1 hnext
  split at hnext
  · obtain rfl := Option.some.inj hnext
    exact ⟨h.world, fun u hu => nomatch hu⟩
  · cases hnext

theorem finish (h : d.Kept user R Q s₀) (hnext : d.finish = some d') : d'.Kept user R Q s₀ := by
  rw [Desk.finish] at hnext
  split at hnext
  · obtain rfl := Option.some.inj hnext
    obtain ⟨held, hkept⟩ := h.world
    exact ⟨⟨held, hkept.redirect _⟩, fun u hu => nomatch hu⟩
  · cases hnext

theorem next (h : d.Kept user R Q s₀) {event : Event} (hnext : d.next event = some d') :
    d'.Kept user R Q s₀ := by
  cases event with
  | happen event => exact h.happen hnext
  | take t => exact h.take hnext
  | abandon t => exact h.abandon hnext
  | resume n => exact h.resume hnext
  | finish => exact h.finish hnext

end Kept

theorem Reaches.kept (hd : d.Reaches d') (h : d.Kept user R Q s₀) : d'.Kept user R Q s₀ := by
  induction hd with
  | refl d => exact h
  | step event hnext rest ih => exact ih (h.next hnext)

theorem Reaches.calls_kept {e : Endpoint} {shared : Shared} {calls : List Call}
    {d : Desk Outcome} (h : (ofCalls e shared calls).Reaches d) :
    d.Kept shared.options (rulesOf e shared.options calls) (endsOf e shared.options calls)
      shared.session :=
  h.kept ⟨(World.Reaches.refl (World.ofCalls e shared calls)).calls_kept, fun _ ht => nomatch ht⟩

/-! ## Somebody can go on -/

/-- An operation can go on: it can take its next step, or take the writer, or its message is sent
and any answer to it, or none, can come in. -/
def GoesOn (d : Desk α) (t : Nat) : Prop :=
  (∃ d', d.next (.happen (.advance t)) = some d') ∨ (∃ d', d.next (.take t) = some d') ∨
    ∀ delivery, delivery ≠ .cancelled → ∃ d', d.next (.happen (.deliver t delivery)) = some d'

/-- A write that was left behind can go on. -/
def WritesOn (d : Desk α) : Prop :=
  (∃ d', d.next .finish = some d') ∨ ∃ n d', d.next (.resume n) = some d'

theorem writesOn_of_writer {text : String} (hwriter : d.writer = some (.leftover text)) :
    d.WritesOn := by
  refine .inl ?_
  rw [Desk.next, finish, hwriter]
  exact ⟨_, rfl⟩

theorem writesOn_of_leftovers {text : String} {rest : List String}
    (hleft : d.leftovers = text :: rest) (hfree : d.writer = none) : d.WritesOn := by
  refine .inr ⟨0, ?_⟩
  rw [Desk.next, resume, hleft]
  exact ⟨_, if_pos hfree⟩

theorem goesOn_of_advance {t : Nat} {w : World α} (h : d.world.advance t = some w)
    (hwriter : d.world.usesWriter t = true → d.writer = some (.operation t)) : d.GoesOn t := by
  have hnext : d.world.next (.advance t) = some w := h
  refine .inl ?_
  by_cases huses : d.world.usesWriter t = true
  · exact ⟨{ d with world := w, writer := none }, by
      simp [Desk.next, happen, hnext, huses, hwriter huses]⟩
  · exact ⟨{ d with world := w }, by simp [Desk.next, happen, hnext, huses]⟩

/-- The writer can be used by the operation that has it. -/
theorem goesOn_of_writer {t : Nat} (huses : d.world.usesWriter t = true)
    (hwriter : d.writer = some (.operation t)) : d.GoesOn t := by
  obtain ⟨thread, ht, hthread⟩ := World.usesWriter_iff.1 huses
  obtain ⟨hlive, touch, next, hrest⟩ := Thread.of_usesWriter hthread
  have hadvance : ∃ w, d.world.advance t = some w := by
    simp [World.advance, ht, hlive, hrest, World.takeStep]
  obtain ⟨w, hw⟩ := hadvance
  exact goesOn_of_advance hw fun _ => hwriter

/-- If nobody can go on, the writer is free and not wanted, and the world is at rest. -/
theorem Kept.resting (h : d.Kept user R Q s₀) (hstill : ∀ t, ¬ d.GoesOn t)
    (hwritten : ¬ d.WritesOn) :
    d.leftovers = [] ∧ d.world.Resting := by
  have hfree : d.writer = none := by
    cases hwriter : d.writer with
    | none => rfl
    | some writing =>
        cases writing with
        | operation t => exact absurd (goesOn_of_writer (h.writer t hwriter) hwriter) (hstill t)
        | leftover text => exact absurd (writesOn_of_writer hwriter) hwritten
  have hunwanted (t : Nat) : ¬ d.world.usesWriter t = true := fun huses =>
    hstill t (.inr (.inl ⟨_, if_pos ⟨huses, hfree⟩⟩))
  have hadvance (t : Nat) : d.world.advance t = none :=
    Option.eq_none_iff_forall_ne_some.2 fun w hw =>
      hstill t (goesOn_of_advance hw fun huses => absurd huses (hunwanted t))
  refine ⟨?_, hadvance, fun t thread ht hlive => ?_⟩
  · cases hleft : d.leftovers with
    | nil => rfl
    | cons text rest => exact absurd (writesOn_of_leftovers hleft hfree) hwritten
  · cases hmessage : thread.message? with
    | none => rfl
    | some m =>
        refine absurd (.inr (.inr fun delivery hdelivery => ?_)) (hstill t)
        obtain ⟨w, hw⟩ := World.exists_deliver ht hlive hmessage (hadvance t) hdelivery
        have hnext : d.world.next (.deliver t delivery) = some w := hw
        exact ⟨{ d with world := w }, by simp [Desk.next, Desk.happen, hnext]⟩

/-- Nothing ever gets stuck, whatever calls run at the same time and whichever are cancelled or
dropped. While a call is not over, or a text remains to be written, some call can go on, or a text
can be. A call that waits for a lock has only locks that come before it, and so never waits for one
that it has. A call that has the writer of the trace waits for no lock. -/
theorem no_deadlock {e : Endpoint} {shared : Shared} {calls : List Call} {d : Desk Outcome}
    (h : (ofCalls e shared calls).Reaches d) :
    ((∃ thread ∈ d.world.threads, thread.isOver = false) ∨ d.leftovers ≠ [] →
      (∃ t, d.GoesOn t) ∨ d.WritesOn) ∧
    (∀ t thread lock access, d.world.threads[t]? = some thread → thread.Awaits lock access →
      (∀ other a, (t, a) ∈ (d.world.locks other).holders → other.rank < lock.rank) ∧
      ∀ a, (t, a) ∉ (d.world.locks lock).holders) ∧
    ∀ t thread, d.writer = some (.operation t) → d.world.threads[t]? = some thread →
      thread.isOver = false ∧ ∀ lock access, ¬ thread.Awaits lock access := by
  have hdesk := h.calls_kept
  obtain ⟨held, hkept⟩ := hdesk.world
  have hends : ∀ t g outcome, endsOf e shared.options calls t g outcome → g.held = [] := by
    rintro t g outcome ⟨call, -, hleft⟩
    exact hleft.1
  refine ⟨fun hunfinished => ?_, fun t thread lock access ht hawaits => ?_,
    fun t thread hwriter ht => ?_⟩
  · refine Classical.byContradiction fun hstuck => ?_
    obtain ⟨hstill, hwritten⟩ := not_or.1 hstuck
    obtain ⟨hleft, hresting⟩ := hdesk.resting (not_exists.1 hstill) hwritten
    rcases hunfinished with ⟨thread, hmem, hover⟩ | hleftovers
    · obtain ⟨t, ht⟩ := List.getElem?_of_mem hmem
      exact Bool.false_ne_true (hover.symm.trans (hresting.isOver hkept hends ht))
    · exact hleftovers hleft
  · have hbefore : ∀ other a, (t, a) ∈ (d.world.locks other).holders → other.rank < lock.rank :=
      fun other a hmem =>
        hkept.rank_lt_of_awaits ht hawaits ((hkept.locking.holders other t a).1 hmem)
    exact ⟨hbefore, fun a hmem => Nat.lt_irrefl _ (hbefore lock a hmem)⟩
  · obtain ⟨other, hother, huses⟩ := World.usesWriter_iff.1 (hdesk.writer t hwriter)
    rw [ht] at hother
    cases hother
    obtain ⟨hlive, touch, next, hrest⟩ := Thread.of_usesWriter huses
    exact ⟨by simp [Thread.isOver, Thread.result?, hlive, hrest],
      Thread.not_awaits_of_rest hrest (by simp)⟩

/-- An operation is dropped while it writes, another one waits for the writer inside the lock of the
session, and a third waits for that lock. Nobody waits for a lock that it has, and what goes on is
the write of the first. -/
theorem no_deadlock_leftover : ∃ (d : Desk Outcome) (thread : Thread Outcome),
    (ofCalls Sample.endpoint { Sample.shared "" with sink := ⟨some .working, []⟩ }
      [.execute Sample.request, .execute Sample.request, .isLoggedOn true]).Reaches d ∧
    d.world.threads[2]? = some thread ∧ thread.Awaits .session .shared ∧
    d.world.usesWriter 1 = true ∧ (d.world.locks .session).holders = [(1, .exclusive)] ∧
    (∀ a, (2, a) ∉ (d.world.locks .session).holders) ∧ ((∃ t, d.GoesOn t) ∨ d.WritesOn) := by
  have hrun : ((ofCalls Sample.endpoint { Sample.shared "" with sink := ⟨some .working, []⟩ }
      [.execute Sample.request, .execute Sample.request, .isLoggedOn true]).run
      ((Sample.advances 0 11).map .happen ++ [.take 0, .happen (.advance 0), .take 0, .abandon 0] ++
        (Sample.advances 1 11 ++ Sample.advances 2 1).map .happen)).map (fun d =>
        (d.world.threads[2]?.bind Thread.awaited?, d.world.usesWriter 1,
        (d.world.locks .session).holders)) =
      some (some (.session, .shared), true, [(1, .exclusive)]) := by
    decide +kernel
  obtain ⟨d, hd, hend⟩ := Option.map_eq_some_iff.1 hrun
  simp only [Prod.mk.injEq] at hend
  obtain ⟨hawaited, huses, hholders⟩ := hend
  obtain ⟨thread, ht, hawaited⟩ := Option.bind_eq_some_iff.1 hawaited
  have hawaits := thread.awaits_of_awaited? hawaited
  have hreaches := Reaches.of_run hd
  obtain ⟨hgoes, hlocks, -⟩ := no_deadlock hreaches
  have hover : thread.isOver = false := by
    obtain ⟨hlive, -, cancellable, next, hrest⟩ := hawaits
    simp [Thread.isOver, Thread.result?, hlive, hrest]
  exact ⟨d, thread, hreaches, ht, hawaits, huses, hholders, (hlocks 2 thread _ _ ht hawaits).2,
    hgoes (.inl ⟨thread, List.mem_of_getElem? ht, hover⟩)⟩

end Desk

end HmcClient.Client
