import HmcClient.Client.Steps

/-!
# One operation after the other

How an operation runs if nothing else runs at the same time. Every lock lets it in at once, and
messages are answered by a console of any kind, given as a function. A console that never answers
leaves two ways out: the operation is cancelled, or the message counts as lost.

The operation may be cancelled from the start; then it leaves at its first cancellable wait.
-/

namespace HmcClient.Client

/-- How a console of states `σ` answers messages; `none` is never. -/
abbrev Answering (σ : Type) := Message → σ → Option Delivery × σ

/-- A client with nothing running, and a console. -/
structure Alone (σ : Type) where
  shared : Shared
  console : σ
  /-- Whether the operation is cancelled. -/
  cancelled : Bool

namespace Alone

variable {σ α : Type}

/-- What becomes of a message. -/
def exchange (answering : Answering σ) (message : Message) (cancellable : Bool) (s : Alone σ) :
    Delivery × Alone σ :=
  if cancellable && s.cancelled then (.cancelled, s)
  else
    match answering message s.console with
    | (some delivery, console) => (delivery, { s with console := console })
    | (none, console) =>
      if cancellable then (.cancelled, { s with console := console, cancelled := true })
      else (.lost, { s with console := console })

/-- Answers a step. -/
def handle (answering : Answering σ) : (step : Step) → Alone σ → step.Answer × Alone σ
  | .touch t, s =>
    let (answer, shared) := t.apply s.shared
    (answer, { s with shared := shared })
  | .release _, s => ((), s)
  | .acquire _ _ cancellable, s => (cancellable && s.cancelled, s)
  | .exchange message cancellable, s => s.exchange answering message cancellable
  | .pause interval cancellable, s =>
    if cancellable && s.cancelled then (true, s)
    else (false, { s with shared := s.shared.after interval })

/-- Runs an operation. -/
def run (answering : Answering σ) (operation : Action α) (s : Alone σ) : α × Alone σ :=
  Program.run (handle answering) operation s

end Alone

end HmcClient.Client
