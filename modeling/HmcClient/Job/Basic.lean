import HmcClient.Exchange.Reading

/-!
# Jobs

What the console does in the background after it has accepted a request. A job record tells the
status and, at the end, what came of it. Two statuses are final. A job succeeded if it is complete
and the operation behind it was answered with a status of success; every other final job is a
failure with the reason that the console gives.
-/

namespace HmcClient

/-! ## Status -/

/-- Where a job stands. -/
inductive JobStatus where
  | running
  | cancelPending
  | canceled
  | complete
  /-- A status without a meaning to the client. -/
  | unknown
  deriving DecidableEq, Repr

namespace JobStatus

/-- Whether nothing more happens to the job. -/
def isTerminal : JobStatus → Bool
  | canceled | complete => true
  | _ => false

/-- The word for a status. -/
def render : JobStatus → String
  | running => "running"
  | cancelPending => "cancel-pending"
  | canceled => "canceled"
  | complete => "complete"
  | unknown => "unknown"

/-- The status that a word stands for. -/
def ofText (word : String) : JobStatus :=
  if word = "running" then running
  else if word = "cancel-pending" then cancelPending
  else if word = "canceled" then canceled
  else if word = "complete" then complete
  else unknown

/-- A status is a word, or an object whose only member has the word as its name and is null. -/
def codec : Codec JobStatus where
  decode
    | _, .string word => word.map ofText
    | _ + 1, .object [(some word, .null)] => some (ofText word)
    | _, _ => none
  encode status := .string status.render

end JobStatus

/-! ## Records -/

/-- A job as the console reports it. -/
structure Job where
  /-- Where the job was asked for; the record itself does not say. -/
  uri : String
  status : JobStatus
  statusCode : Option Nat
  reasonCode : Option Int
  results : Option Json
  deriving BEq, Repr

namespace Job

/-- How a job record is read and written; the URI is not part of it. -/
def codec : Codec Job :=
  ((((Record.make Job (Job.mk "")).required "status" JobStatus.codec (·.status)).optional
    "job-status-code" .nat16 (·.statusCode)).optional
    "job-reason-code" .int64 (·.reasonCode)).optional
    "job-results" .value (·.results) |>.codec

/-- The message among the results. -/
def resultMessage (job : Job) : Option String := do (← (← job.results).get? "message").text?

/-- Whether the job is complete and the operation behind it was a success. -/
def succeeded (job : Job) : Bool :=
  job.status == .complete && job.statusCode.any fun code => 200 ≤ code && code < 300

/-- What a failed job is reported with: its own message, or else its status. -/
def failureMessage (job : Job) : String :=
  match job.resultMessage.filter (!·.isEmpty), job.statusCode with
  | some message, _ => message
  | none, some code =>
    "job " ++ job.uri ++ " " ++ job.status.render ++ " with status " ++ toString code
  | none, none => "job " ++ job.uri ++ " " ++ job.status.render

/-- The job if it succeeded, else the failure it stands for. -/
def outcome (job : Job) : Result Job :=
  if job.succeeded then .ok job
  else
    .error { Failure.server (job.reasonCode.getD Failure.unknownReason) job.failureMessage with
      status := job.statusCode }

end Job

/-! ## Polling -/

/-- How a job is waited for. -/
structure PollSettings where
  /-- The pause between two looks at the job. -/
  interval : Duration
  /-- How long to wait at most; none waits for ever. -/
  timeout : Option Duration
  deriving DecidableEq, Repr

namespace PollSettings

/-- A look every five seconds, for ever. -/
def default : PollSettings := ⟨.ofSeconds 5, none⟩

/-- The settings with a pause. -/
def withInterval (s : PollSettings) (interval : Duration) : PollSettings :=
  { s with interval := interval }

/-- The settings with a limit. -/
def withTimeout (s : PollSettings) (timeout : Duration) : PollSettings :=
  { s with timeout := some timeout }

end PollSettings

end HmcClient
