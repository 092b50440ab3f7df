import HmcClient.Exchange.Talk

/-!
# Scripted answers

A console that is a list of answers. Every request is written down and takes the next answer,
whatever it asks for. Time is a number that moves only when an answer is delayed or an operation
pauses, so a run takes no time and is always the same.

A cancelled operation notices in its pauses. A cancellation at the very moment at which a pause
ends comes too late for that pause, unless the pause has no length.
-/

namespace HmcClient

/-- An answer and how long it takes. -/
structure ScriptedAnswer where
  answer : Result Response
  delay : Duration
  deriving Repr

/-- Answers to come, and what has happened so far. -/
structure Script where
  answers : List ScriptedAnswer
  /-- The session that is held throughout. -/
  session : Option String
  clock : Duration
  /-- When the running operation is cancelled. -/
  cancelledAt : Option Duration
  /-- The requests, the last one first. -/
  requests : List Request
  deriving Repr

namespace Script

/-- A script of which nothing has happened yet. -/
def new (answers : List ScriptedAnswer) (session : Option String) : Script :=
  ⟨answers, session, ⟨0⟩, none, []⟩

/-- The script after some time. -/
def after (s : Script) (d : Duration) : Script :=
  { s with clock := ⟨s.clock.nanoseconds + d.nanoseconds⟩ }

/-- What an operation gets for an answer: a regular one as it is, any other as the fault it
reports. -/
def settle (answer : Result Response) : Result Response := do
  let response ← answer
  if response.isExpected then return response else throw response.failure

/-- The failure if there are no answers left. -/
def exhausted (r : Request) : Failure :=
  .new .execute ("no scripted response for " ++ r.method ++ " " ++ r.url.render)

/-- Answers a request. -/
def execute (r : Request) (s : Script) : Result Response × Script :=
  let s := { s with requests := r :: s.requests }
  match s.answers with
  | [] => (.error (exhausted r), s)
  | next :: rest => (settle next.answer, { s with answers := rest }.after next.delay)

/-- The moment at which a pause is cancelled, if it is. -/
def interruption? (s : Script) (interval : Duration) : Option Duration :=
  s.cancelledAt.filter fun t =>
    t.nanoseconds ≤ s.clock.nanoseconds ||
      t.nanoseconds < s.clock.nanoseconds + interval.nanoseconds

/-- Lets time pass. -/
def pause (interval : Duration) (cancellable : Bool) (s : Script) : Bool × Script :=
  match if cancellable then s.interruption? interval else none with
  | some t => (true, { s with clock := ⟨max s.clock.nanoseconds t.nanoseconds⟩ })
  | none => (false, s.after interval)

/-- Answers an effect. -/
def handle : (effect : Talk.Effect) → Script → Talk.Answer effect × Script
  | .execute r, s => s.execute r
  | .sessionId, s => (s.session, s)
  | .now, s => (s.clock, s)
  | .pause interval cancellable, s => s.pause interval cancellable

/-- Runs an operation. -/
def run {α : Type} (p : Program Talk α) (s : Script) : α × Script := p.run handle s

/-- The number of rounds that are enough for a wait: each takes an answer, and one finds none
left. -/
def rounds (s : Script) : Nat := s.answers.length + 1

end Script

end HmcClient
