import HmcClient.Exchange.Message

/-!
# What an answer means for an operation

An operation knows which statuses it accepts and what the body should hold. Each function of this
module is one way to expect an answer. They agree in how they refuse: an answer whose status is not
accepted is the console's fault report if the status is 400 or more, and otherwise is called
unexpected. Partial content (206) is accepted wherever full content (200) is.
-/

namespace HmcClient

/-! ## Short documents -/

/-- The document that announces a created object. -/
structure CreatedObject where
  objectUri : String
  deriving DecidableEq, Repr

/-- How the announcement of a created object is read and written. -/
def CreatedObject.codec : Codec CreatedObject :=
  (Record.make CreatedObject CreatedObject.mk).defaulted
    "object-uri" .text "" (·.objectUri) |>.codec

/-- The document that announces a job. -/
structure JobHandle where
  uri : String
  message : Option String
  deriving DecidableEq, Repr

/-- How the announcement of a job is read and written. -/
def JobHandle.codec : Codec JobHandle :=
  ((Record.make JobHandle JobHandle.mk).defaulted "job-uri" .text "" (·.uri)).elided
    "message" .text (·.message) |>.codec

namespace Response

/-! ## Acceptance -/

/-- Whether a status is accepted by an operation that names the statuses `ok`. -/
def accepts (ok : List Nat) (status : Nat) : Bool :=
  ok.contains status || (status == 206 && ok.contains 200)

/-- The failure for a status that is not accepted. -/
def unexpected (r : Response) : Failure :=
  if 400 ≤ r.status then r.failure
  else (Failure.ofCause (.unexpectedStatus r.status)).withStatus r.status

/-- A failure of the client about this answer. -/
def fault (r : Response) (cause : Cause) : Failure := (Failure.ofCause cause).withStatus r.status

/-! ## Expectations -/

/-- The document in the body. -/
def document {α : Type} (c : Codec α) (ok : List Nat) (r : Response) : Result α :=
  if !accepts ok r.status then .error r.unexpected
  else if r.body.isEmpty then .error (r.fault .emptyBody)
  else
    match Document.read? r.body >>= c.read? with
    | some value => .ok value
    | none => .error (r.fault .undecodableBody)

/-- The members of any object. -/
def membersCodec : Codec Members where
  decode
    | depth, .object members =>
      match (Document.object members).value? depth with
      | some (.object found) => some found
      | _ => none
    | _, _ => none
  encode := .object

/-- The items of a collection: a member of the document with the collection's name. Without one the
collection is empty. -/
def items {α : Type} (c : Codec α) (collection : String) (r : Response) : Result (List α) := do
  let members ← r.document membersCodec [200]
  match members.get? collection with
  | none => return []
  | some value =>
    match c.list.ofValue? value with
    | some found => return found
    | none => throw (r.fault .undecodableBody)

/-- Nothing but the status. -/
def nothing (ok : List Nat) (r : Response) : Result Unit :=
  if accepts ok r.status then .ok () else .error r.unexpected

/-- The URI of a created object. -/
def createdUri (r : Response) : Result String := do
  let created ← r.document CreatedObject.codec [201]
  if created.objectUri.isEmpty then throw (r.fault .noObjectUri)
  return created.objectUri

/-- A started job. -/
def startedJob (r : Response) : Result JobHandle := do
  let job ← r.document JobHandle.codec [202]
  if job.uri.isEmpty then throw (r.fault .noJobUri)
  return job

/-- Nothing if the operation is done already, else the job that does it. -/
def startedJob? (r : Response) : Result (Option JobHandle) :=
  if r.status = 200 ∨ r.status = 204 then .ok none else r.startedJob.map some

end Response

end HmcClient
