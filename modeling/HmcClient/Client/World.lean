import HmcClient.Client.Steps

/-!
# Many operations at once

The operations of one client that run at the same time, and everything that can happen to them. A
`World` holds the cells, the locks, and what is left to do of every operation. `World.next` makes
one thing happen: an operation takes its next step, a message is answered, an operation is
cancelled or is dropped altogether. Any list of such events is a run, so what holds after every
list holds of every interleaving.

A wait is two events. With the first it begins: the operation joins the queue of a lock, or its
message is sent. With the second it ends. A lock lets in the operations of its queue in their
order, readers together and writers alone, so a writer that waits holds up the readers behind it. A
cancelled operation that comes to a cancellable wait, or is in one, leaves it, and nothing else can
then happen there.

An operation can be dropped while it waits. It then vanishes with its place in queues and its hold
on locks. The log tells what has happened to the cells and the messages, the latest first.
-/

namespace HmcClient.Client

/-! ## Turnstiles -/

/-- Who holds a lock, and who waits for it in which order. Operations are told by their number. -/
structure Turnstile where
  holders : List (Nat × Access)
  queue : List (Nat × Access)
  deriving DecidableEq, Repr

namespace Turnstile

/-- A lock that nobody wants. -/
def free : Turnstile := ⟨[], []⟩

/-- Whether one more can be let in. -/
def admits (s : Turnstile) : Access → Bool
  | .shared => s.holders.all fun h => h.2 == .shared
  | .exclusive => s.holders.isEmpty

/-- Joins the queue at its end. -/
def join (s : Turnstile) (t : Nat) (access : Access) : Turnstile :=
  { s with queue := s.queue ++ [(t, access)] }

/-- Lets in the first of the queue, if it is this one and can be let in. -/
def enter? (s : Turnstile) (t : Nat) : Option Turnstile :=
  match s.queue with
  | (first, access) :: rest =>
    if first = t ∧ s.admits access then some ⟨(t, access) :: s.holders, rest⟩ else none
  | [] => none

/-- Leaves the queue. -/
def leave (s : Turnstile) (t : Nat) : Turnstile :=
  { s with queue := s.queue.filter fun w => w.1 != t }

/-- Gives back one hold. -/
def exit (s : Turnstile) (t : Nat) : Turnstile :=
  { s with holders := s.holders.eraseP fun h => h.1 == t }

/-- Forgets an operation. -/
def forget (s : Turnstile) (t : Nat) : Turnstile :=
  ⟨s.holders.filter fun h => h.1 != t, s.queue.filter fun w => w.1 != t⟩

end Turnstile

/-! ## Worlds -/

variable {α : Type}

/-- An operation on its way. -/
structure Thread (α : Type) where
  /-- What is left to do. -/
  rest : Program Steps α
  /-- Whether its first step is a wait that has begun. -/
  waiting : Bool
  cancelled : Bool
  dropped : Bool

namespace Thread

/-- An operation at its start. -/
def start (p : Program Steps α) : Thread α := ⟨p, false, false, false⟩

/-- What the operation has given. -/
def result? (thread : Thread α) : Option α :=
  match thread.rest with
  | .done a => some a
  | .perform .. => none

/-- Whether nothing more will come of the operation. -/
def isOver (thread : Thread α) : Bool := thread.dropped || thread.result?.isSome

/-- The message whose answer the operation waits for. -/
def message? (thread : Thread α) : Option Message :=
  match thread.rest with
  | .perform (.exchange message _) _ => if thread.waiting then some message else none
  | _ => none

end Thread

/-- What the log tells. -/
inductive Entry where
  | touched (t : Nat) (touch : Touch)
  | admitted (t : Nat) (lock : Lock) (access : Access)
  | released (t : Nat) (lock : Lock)
  | sent (t : Nat) (message : Message)
  | delivered (t : Nat) (message : Message) (delivery : Delivery)
  | cancelled (t : Nat)
  /-- A wait has ended because the operation was cancelled. -/
  | gaveUp (t : Nat)
  | dropped (t : Nat)
  deriving BEq, Repr

/-- The operations of a client and what they share. -/
structure World (α : Type) where
  shared : Shared
  locks : Lock → Turnstile
  threads : List (Thread α)
  log : List Entry

/-- What can happen. -/
inductive Event where
  /-- An operation takes its next step, or begins or ends a wait for which nothing is missing. -/
  | advance (t : Nat)
  /-- A message is answered. -/
  | deliver (t : Nat) (delivery : Delivery)
  | cancel (t : Nat)
  | drop (t : Nat)
  /-- The files of the machine change. -/
  | change (files : Files)
  deriving Repr

namespace World

/-- A world in which operations start. -/
def start (shared : Shared) (operations : List (Program Steps α)) : World α :=
  ⟨shared, fun _ => .free, operations.map .start, []⟩

/-- The world with another state of an operation. -/
def setThread (w : World α) (t : Nat) (thread : Thread α) : World α :=
  { w with threads := w.threads.set t thread }

/-- The world with another state of a lock. -/
def setLock (w : World α) (lock : Lock) (s : Turnstile) : World α :=
  { w with locks := fun other => if other = lock then s else w.locks other }

/-- The world with one more entry in the log. -/
def note (w : World α) (entry : Entry) : World α := { w with log := entry :: w.log }

/-- An operation has the answer to its first step. -/
def resume (w : World α) (t : Nat) (thread : Thread α) (rest : Program Steps α) : World α :=
  w.setThread t { thread with rest := rest, waiting := false }

/-- The next step of an operation. -/
def takeStep (w : World α) (t : Nat) (thread : Thread α) :
    (step : Step) → (step.Answer → Program Steps α) → Option (World α)
  | .touch touch, next =>
    let (answer, shared) := touch.apply w.shared
    some ((resume { w with shared := shared } t thread (next answer)).note (.touched t touch))
  | .release lock, next =>
    some (((w.resume t thread (next ())).setLock lock ((w.locks lock).exit t)).note
      (.released t lock))
  | .acquire lock access cancellable, next =>
    if cancellable && thread.cancelled then
      some (((w.resume t thread (next true)).setLock lock ((w.locks lock).leave t)).note (.gaveUp t))
    else if thread.waiting then do
      let s ← (w.locks lock).enter? t
      return ((w.resume t thread (next false)).setLock lock s).note (.admitted t lock access)
    else
      some ((w.setThread t { thread with waiting := true }).setLock lock
        ((w.locks lock).join t access))
  | .exchange message cancellable, next =>
    if cancellable && thread.cancelled then
      some ((w.resume t thread (next .cancelled)).note (.gaveUp t))
    else if thread.waiting then none
    else some ((w.setThread t { thread with waiting := true }).note (.sent t message))
  | .pause interval cancellable, next =>
    if cancellable && thread.cancelled then
      some ((w.resume t thread (next true)).note (.gaveUp t))
    else some (resume { w with shared := w.shared.after interval } t thread (next false))

/-- An operation goes on. -/
def advance (w : World α) (t : Nat) : Option (World α) := do
  let thread ← w.threads[t]?
  if thread.dropped then none
  else
    match thread.rest with
    | .done _ => none
    | .perform step next => w.takeStep t thread step next

/-- The message of an operation is answered. -/
def deliver (w : World α) (t : Nat) (delivery : Delivery) : Option (World α) := do
  let thread ← w.threads[t]?
  match thread.rest with
  | .perform (.exchange message cancellable) next =>
    if thread.dropped || !thread.waiting || (cancellable && thread.cancelled) ||
        delivery = .cancelled then none
    else some ((w.resume t thread (next delivery)).note (.delivered t message delivery))
  | _ => none

/-- An operation is cancelled. -/
def cancel (w : World α) (t : Nat) : Option (World α) := do
  let thread ← w.threads[t]?
  return (w.setThread t { thread with cancelled := true }).note (.cancelled t)

/-- An operation that waits is dropped. -/
def drop (w : World α) (t : Nat) : Option (World α) := do
  let thread ← w.threads[t]?
  match thread.rest with
  | .perform step _ =>
    if thread.dropped || !step.isWait then none
    else
      let w := w.setThread t { thread with dropped := true, waiting := false }
      some ({ w with locks := fun lock => (w.locks lock).forget t }.note (.dropped t))
  | .done _ => none

/-- One event happens; `none` if it cannot. -/
def next (w : World α) : Event → Option (World α)
  | .advance t => w.advance t
  | .deliver t delivery => w.deliver t delivery
  | .cancel t => w.cancel t
  | .drop t => w.drop t
  | .change files => some { w with shared := { w.shared with files := files } }

/-- Events happen one after the other. -/
def run (w : World α) (events : List Event) : Option (World α) := events.foldlM next w

/-- The world can come to another one. -/
inductive Reaches : World α → World α → Prop where
  | refl (w : World α) : Reaches w w
  | step {w w' w'' : World α} (event : Event) (h : w.next event = some w') (rest : Reaches w' w'') :
    Reaches w w''

end World

end HmcClient.Client
