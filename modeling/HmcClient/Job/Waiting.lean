import HmcClient.Exchange.Talk
import HmcClient.Job.Basic

/-!
# Operations on jobs

A job can be looked at, cancelled and deleted, and it can be waited for. Waiting looks at the job,
stops if the job is at its end, and otherwise pauses and looks again. It only ever reads: whatever
ends the wait, the job itself goes on.

After a look at an unfinished job two things can end the wait before the next one. If the next look
would come later than the time limit, the wait has timed out. If the wait is cancelled before or
during the pause, it ends with the pause.

The number of rounds is an argument, because nothing else bounds a wait without a limit. Running
out of rounds is an end of its own, and not one that a caller sees as a failure.
-/

namespace HmcClient.Job

/-- Looks at a job. -/
def fetch (e : Endpoint) (uri : String) (cancellable : Bool) : Operation Job := do
  let job ← Talk.expect { e.get uri with cancellable := cancellable } (·.document codec [200])
  return { job with uri := uri }

/-- Looks at a job. -/
def query (e : Endpoint) (uri : String) : Operation Job := fetch e uri false

/-- Asks the console to cancel a job. -/
def cancel (e : Endpoint) (uri : String) : Operation Unit :=
  Talk.expect (e.post (uri ++ "/operations/cancel")) (·.nothing [204])

/-- Deletes the record of a job. -/
def delete (e : Endpoint) (uri : String) : Operation Unit :=
  Talk.expect (e.delete uri) (·.nothing [204])

/-! ## Waiting -/

/-- How a wait ends. -/
inductive WaitEnd where
  /-- The job is at its end. -/
  | finished (job : Job)
  | failed (failure : Failure)
  /-- The time of the next look is beyond the longest span. -/
  | overflowed
  /-- The rounds were used up. -/
  | unfinished
  deriving BEq, Repr

/-- The end of a wait that has no time for another look; `none` if there is time. -/
def tooLate? (uri : String) (s : PollSettings) (elapsed : Duration) : Option WaitEnd :=
  match s.timeout with
  | none => none
  | some limit =>
    match elapsed.add? s.interval with
    | none => some .overflowed
    | some next =>
      if limit.nanoseconds < next.nanoseconds then
        some (.failed (.ofCause (.jobTimedOut limit uri)))
      else none

/-- Waits for a job from a moment on, for at most a number of rounds. -/
def waitFrom (e : Endpoint) (uri : String) (s : PollSettings) (cancellable : Bool)
    (start : Duration) : Nat → Program Talk WaitEnd
  | 0 => return .unfinished
  | rounds + 1 => do
    match ← (fetch e uri cancellable).run with
    | .error failure => return .failed failure
    | .ok job =>
      if job.status.isTerminal then return .finished job
      let now ← Program.ask (S := Talk) .now
      match tooLate? uri s ⟨now.nanoseconds - start.nanoseconds⟩ with
      | some ending => return ending
      | none =>
        if ← Program.ask (S := Talk) (.pause s.interval cancellable) then
          return .failed (.ofCause (.jobWaitCancelled uri))
        waitFrom e uri s cancellable start rounds

/-- Waits for a job. -/
def wait (e : Endpoint) (uri : String) (s : PollSettings) (cancellable : Bool) (rounds : Nat) :
    Program Talk WaitEnd := do
  let start ← Program.ask (S := Talk) .now
  waitFrom e uri s cancellable start rounds

/-- The end of a wait that must end in success. -/
def WaitEnd.successful : WaitEnd → WaitEnd
  | finished job =>
    match job.outcome with
    | .ok job => finished job
    | .error failure => failed failure
  | other => other

/-- Waits for a job and fails unless it succeeds. -/
def waitForSuccess (e : Endpoint) (handle : JobHandle) (s : PollSettings) (rounds : Nat) :
    Program Talk WaitEnd := do
  return (← wait e handle.uri s false rounds).successful

end HmcClient.Job
