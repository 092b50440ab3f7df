import HmcClient.Client.Session
import HmcClient.Client.Trace
import HmcClient.Trust.Anchors

/-!
# What operations share

All operations of one client work on the same few cells: the session, the options, the check of the
console's certificate that goes with them, the statistics and the trace. `Shared` holds their
contents, together with what the machine has: its way to tell which certificates can be trust
anchors, its files, and its clock.

`Touch` lists everything that an operation does to the cells. A touch is done at once and cannot
fail; who may touch a cell, and when, is a matter of the locks and not of this module.
-/

namespace HmcClient

/-! ## Statistics -/

/-- What is counted. -/
structure Statistics where
  totalRequests : Nat
  /-- Requests to which no answer came. -/
  failedRequests : Nat
  logons : Nat
  /-- When the last request ended. -/
  lastRequest : Option Duration
  deriving DecidableEq, Repr

namespace Statistics

/-- Nothing counted. -/
def zero : Statistics := ⟨0, 0, 0, none⟩

/-- Counts a request that ended. -/
def countRequest (s : Statistics) (answered : Bool) (now : Duration) : Statistics :=
  { s with
    totalRequests := s.totalRequests + 1
    failedRequests := if answered then s.failedRequests else s.failedRequests + 1
    lastRequest := some now }

/-- Counts a logon. -/
def countLogon (s : Statistics) : Statistics := { s with logons := s.logons + 1 }

end Statistics

/-! ## Cells -/

/-- The contents of the cells. -/
structure Shared where
  session : Session
  options : Options
  verification : Verification
  statistics : Statistics
  sink : Sink
  usable : AnchorTest
  files : Files
  clock : Duration

namespace Shared

/-- The cells of a new client. Its options decide how certificates are checked, which can fail, and
whether it is traced from the start. -/
def new (usable : AnchorTest) (files : Files) (o : Options) : Result Shared := do
  let verification ← Verification.ofOptions usable files o
  return ⟨.none, o, verification, .zero, .initial o.trace, usable, files, ⟨0⟩⟩

/-- The cells after some time. -/
def after (s : Shared) (d : Duration) : Shared :=
  { s with clock := ⟨s.clock.nanoseconds + d.nanoseconds⟩ }

end Shared

/-! ## Touches -/

/-- What an operation does to the cells. -/
inductive Touch where
  | session
  | install (data : LogonData)
  | clear
  | options
  | setOptions (o : Options)
  | verification
  | setVerification (v : Verification)
  /-- Works out the check that options ask for, from the files as they are now. -/
  | verify (o : Options)
  | isTraced
  | trace (text : String)
  | redirectTrace (writer : Option Writer)
  | countRequest (answered : Bool)
  | countLogon
  | statistics
  | now
  deriving DecidableEq, Repr

namespace Touch

/-- What a touch gives back. -/
abbrev Answer : Touch → Type
  | session => Session
  | options => Options
  | verification => Verification
  | verify _ => Result Verification
  | isTraced => Bool
  | statistics => Statistics
  | now => Duration
  | install _ | clear | setOptions _ | setVerification _ | trace _ | redirectTrace _
  | countRequest _ | countLogon => Unit

/-- Does a touch. -/
def apply : (t : Touch) → Shared → t.Answer × Shared
  | session, s => (s.session, s)
  | install data, s => ((), { s with session := .ofLogon data })
  | clear, s => ((), { s with session := .none })
  | options, s => (s.options, s)
  | setOptions o, s => ((), { s with options := o })
  | verification, s => (s.verification, s)
  | setVerification v, s => ((), { s with verification := v })
  | verify o, s => (Verification.ofOptions s.usable s.files o, s)
  | isTraced, s => (s.sink.isEnabled, s)
  | trace text, s => ((), { s with sink := s.sink.write text })
  | redirectTrace writer, s => ((), { s with sink := s.sink.redirect writer })
  | countRequest answered, s =>
    ((), { s with statistics := s.statistics.countRequest answered s.clock })
  | countLogon, s => ((), { s with statistics := s.statistics.countLogon })
  | statistics, s => (s.statistics, s)
  | now, s => (s.clock, s)

end Touch

end HmcClient
