import HmcClient.Client.Shared
import HmcClient.Exchange.Header
import HmcClient.Program

/-!
# The steps of client operations

What an operation of the client asks for, one thing at a time. Most steps are done at once:
touching a cell, giving back a lock. Three can take long and are called *waits*: to be let into a
lock, to get the answer to a message, and to let time pass. Between two waits nothing of the
outside world can come in, so what can happen to an operation is told by what can happen at its
waits.

Each cell has a lock for many readers or one writer. The lock is a step of its own, so that an
operation that holds a lock over a wait can be seen to do so.

A wait says whether it can be cancelled. `Client.guarded` makes every wait of an operation
cancellable: when one is, the locks taken since are given back and the rest of the operation is
left undone.
-/

namespace HmcClient.Client

/-! ## Locks and messages -/

/-- The cells that have a lock. -/
inductive Lock where
  | session
  | options
  | connection
  | statistics
  deriving DecidableEq, Repr

/-- How a lock is held. -/
inductive Access where
  /-- Together with other readers. -/
  | shared
  /-- By nobody else. -/
  | exclusive
  deriving DecidableEq, Repr

/-- A request as it is sent. -/
structure Message where
  request : Request
  headers : Headers
  /-- The session it belongs to. -/
  token : Option String
  /-- How the certificate of its receiver is checked. -/
  verification : Verification
  deriving BEq, Repr

/-- What becomes of a message. -/
inductive Delivery where
  /-- It is answered. -/
  | answered (status : Nat) (headers : Headers) (body : List UInt8)
  /-- The body of the answer ends early. -/
  | brokenOff (status : Nat)
  /-- There is no answer. -/
  | lost
  /-- The wait for the answer is cancelled. -/
  | cancelled
  deriving DecidableEq, Repr

/-! ## Steps -/

/-- One step of an operation. -/
inductive Step where
  | touch (t : Touch)
  | release (lock : Lock)
  | acquire (lock : Lock) (access : Access) (cancellable : Bool)
  | exchange (message : Message) (cancellable : Bool)
  | pause (interval : Duration) (cancellable : Bool)
  deriving BEq, Repr

namespace Step

/-- What a step gives. To be let in and to pause tell whether the wait was cancelled. -/
abbrev Answer : Step → Type
  | touch t => t.Answer
  | release _ => Unit
  | acquire .. => Bool
  | exchange .. => Delivery
  | pause .. => Bool

/-- Whether a step can take long. -/
def isWait : Step → Bool
  | touch _ | release _ => false
  | acquire .. | exchange .. | pause .. => true

end Step

/-- The steps of client operations. -/
abbrev Steps : Signature := ⟨Step, Step.Answer⟩

/-- An operation of the client that cannot fail. -/
abbrev Action (α : Type) := Program Steps α

/-- An operation of the client. -/
abbrev Task (α : Type) := ExceptT Failure (Program Steps) α

variable {α : Type}

/-! ## Locks -/

/-- Does something to a cell. -/
def touch (t : Touch) : Action t.Answer := Program.ask (S := Steps) (.touch t)

/-- Does something while a lock is held. -/
def locked (lock : Lock) (access : Access) (body : Action α) : Action α := do
  let _ ← Program.ask (S := Steps) (.acquire lock access false)
  let result ← body
  Program.ask (S := Steps) (.release lock)
  return result

/-- Reads a cell under its lock. -/
def readCell (lock : Lock) (t : Touch) : Action t.Answer := locked lock .shared (touch t)

/-! ## Cancellation -/

/-- Gives back locks. -/
def releaseAll : List Lock → Action Unit
  | [] => .done ()
  | lock :: rest => .perform (.release lock) fun _ => releaseAll rest

/-- The operation with every wait cancellable, and `none` if one is cancelled. `held` are the locks
that have been taken so far. -/
def guarded (held : List Lock) : Action α → Action (Option α)
  | .done a => .done (some a)
  | .perform (.touch t) next => .perform (.touch t) fun answer => guarded held (next answer)
  | .perform (.release lock) next =>
    .perform (.release lock) fun _ => guarded (held.erase lock) (next ())
  | .perform (.acquire lock access _) next =>
    .perform (.acquire lock access true) fun
      | true => .bind (releaseAll held) fun _ => .done none
      | false => guarded (lock :: held) (next false)
  | .perform (.exchange message _) next =>
    .perform (.exchange message true) fun
      | .cancelled => .bind (releaseAll held) fun _ => .done none
      | delivery => guarded held (next delivery)
  | .perform (.pause interval _) next =>
    .perform (.pause interval true) fun
      | true => .bind (releaseAll held) fun _ => .done none
      | false => guarded held (next false)

/-- Work done for a request: it is left undone if the request is cancelled. -/
def untilCancelled (r : Request) (work : Task α) : Task α :=
  if r.cancellable then ExceptT.mk do
    match ← guarded [] work.run with
    | some result => return result
    | none => return .error (.ofCause (.cancelled r.method r.url.render))
  else work

end HmcClient.Client
