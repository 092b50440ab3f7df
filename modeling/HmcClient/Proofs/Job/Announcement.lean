import HmcClient.Proofs.Exchange.Dump
import HmcClient.Proofs.Exchange.Partial
import HmcClient.Proofs.Exchange.Reading
import HmcClient.Proofs.Json.Keeping
import HmcClient.Proofs.Json.Text
import HmcClient.Resource.Partition

/-!
# Accepted answers that name no job

An operation that takes time is accepted with status 202, and the answer announces the job. If it
names none, that is a violation of its own, with a kind of failure for it. The body goes through two
other hands first, though: an empty one is refused before it is looked at, and a document is refused
that is no announcement at all.

So it depends on how the URI is missing. It may be left out or be the empty text; the announcement
may also be an array that is too short to hold one. All of these are found to name no job. If the
URI is null, which would be none elsewhere, the document is no announcement; and without a document
nothing is announced either. Both are faults of the body then.
-/

namespace HmcClient

variable {α σ : Type} {names : List String} {members : List (Option String × Document)}
  {given : Given} {uri : String} {message : Option String}

/-! ## What stands under a name -/

namespace Document

/-- What stands under a name in an object, in the order in which it is written. -/
def valuesOf (name : String) : List (Option String × Document) → List Document
  | [] => []
  | (other, d) :: rest => if other = some name then d :: valuesOf name rest else valuesOf name rest

/-- Whether the names in an object are all texts. -/
def Named (members : List (Option String × Document)) : Prop := ∀ member ∈ members, member.1 ≠ none

end Document

open Document (valuesOf Named)

namespace Record

theorem declared?_cons (name : String) (d : Document) (rest : List (Option String × Document)) :
    declared? names ((some name, d) :: rest) = (declared? names rest).bind fun found =>
      if name ∈ names then
        if (found.lookup name).isSome then none else some ((name, d) :: found)
      else some found := by
  show ((declared? names rest).bind fun found => if names.contains name then _ else _) = _
  simp only [List.contains_eq_mem, decide_eq_true_eq]

theorem valuesOf_declared? {found : List (String × Document)}
    (h : declared? names members = some found) :
    Named members ∧ ∀ name ∈ names, valuesOf name members = (found.lookup name).toList := by
  induction members generalizing found with
  | nil =>
      obtain rfl := Option.some.inj h
      exact ⟨fun _ hmember => absurd hmember List.not_mem_nil, fun _ _ => rfl⟩
  | cons member rest ih =>
      obtain ⟨_ | other, d⟩ := member
      · cases h
      rw [declared?_cons, Option.bind_eq_some_iff] at h
      obtain ⟨later, hlater, h⟩ := h
      obtain ⟨hnamed, hvalues⟩ := ih hlater
      refine ⟨List.forall_mem_cons.2 ⟨Option.some_ne_none _, hnamed⟩, fun name hname => ?_⟩
      rw [valuesOf]
      by_cases heq : other = name
      · subst heq
        rw [if_pos hname] at h
        split at h
        · cases h
        · next hfree =>
            obtain rfl := Option.some.inj h
            have hnone : later.lookup other = none := Option.not_isSome_iff_eq_none.1 hfree
            rw [if_pos rfl, hvalues other hname, hnone, List.lookup_cons_self]
            rfl
      · have hlookup : found.lookup name = later.lookup name := by
          split at h
          · split at h
            · cases h
            · obtain rfl := Option.some.inj h
              rw [List.lookup_cons, beq_false_of_ne (Ne.symm heq)]
          · rw [Option.some.inj h]
        rw [if_neg fun h => heq (Option.some.inj h), hvalues name hname, hlookup]

theorem exists_declared? (hnamed : Named members)
    (honce : ∀ name ∈ names, (valuesOf name members).length ≤ 1) :
    ∃ found, declared? names members = some found := by
  induction members with
  | nil => exact ⟨[], rfl⟩
  | cons member rest ih =>
      obtain ⟨hmember, hrest⟩ := List.forall_mem_cons.1 hnamed
      obtain ⟨_ | other, d⟩ := member
      · exact absurd rfl hmember
      have hshorter : ∀ name ∈ names, (valuesOf name rest).length ≤ 1 := by
        intro name hname
        have hlength := honce name hname
        rw [valuesOf] at hlength
        split at hlength
        · rw [List.length_cons] at hlength
          omega
        · exact hlength
      obtain ⟨later, hlater⟩ := ih hrest hshorter
      rw [declared?_cons, hlater, Option.bind_some]
      split
      · next hother =>
          have hlength := honce other hother
          rw [valuesOf, if_pos rfl, List.length_cons, (valuesOf_declared? hlater).2 other hother]
            at hlength
          have hfree : later.lookup other = none := by
            cases hlookup : later.lookup other with
            | none => rfl
            | some e =>
                rw [hlookup, Option.toList_some, List.length_singleton] at hlength
                omega
          rw [hfree]
          exact ⟨_, rfl⟩
      · exact ⟨_, rfl⟩

end Record

/-! ## Announcements -/

/-- Whether a list of documents gives the URI of a job; without one it is empty. -/
inductive UriIn : List Document → String → Prop where
  | missing : UriIn [] ""
  | text (uri : String) : UriIn [.string (some uri)] uri

/-- Whether a list of documents gives the message that comes with a job. -/
inductive MessageIn : List Document → Option String → Prop where
  | missing : MessageIn [] none
  | null : MessageIn [.null] none
  | text (message : String) : MessageIn [.string (some message)] (some message)

/-- What a document announces, as an object or as an array. -/
inductive Announces : Document → JobHandle → Prop where
  | object {members : List (Option String × Document)} {uri : String} {message : Option String}
    (hnamed : Named members) (huri : UriIn (valuesOf "job-uri" members) uri)
    (hmessage : MessageIn (valuesOf "message" members) message) :
    Announces (.object members) ⟨uri, message⟩
  | array {items : List Document} {uri : String} {message : Option String}
    (huri : UriIn (items.take 1) uri) (hmessage : MessageIn (items.drop 1) message) :
    Announces (.array items) ⟨uri, message⟩

namespace JobHandle

theorem readDefaulted_iff : Field.readDefaulted "job-uri" .text "" given = some uri ↔
    UriIn (given.field "job-uri").toList uri := by
  rw [Field.readDefaulted]
  cases given.field "job-uri" with
  | none =>
      constructor
      · intro h
        obtain rfl := Option.some.inj h
        exact .missing
      · rintro ⟨⟩
        rfl
  | some d =>
      constructor
      · intro h
        cases d with
        | string text =>
            obtain rfl : text = some uri := h
            exact .text uri
        | null | bool | number | array | object => cases h
      · rintro ⟨⟩
        rfl

theorem readOptional_iff : Record.readOptional "message" .text given = some message ↔
    MessageIn (given.field "message").toList message := by
  rw [Record.readOptional]
  cases given.field "message" with
  | none =>
      constructor
      · intro h
        obtain rfl := Option.some.inj h
        exact .missing
      · rintro ⟨⟩
        rfl
  | some d =>
      constructor
      · intro h
        cases d with
        | null =>
            obtain rfl := Option.some.inj h
            exact .null
        | string text =>
            obtain ⟨text, rfl, rfl⟩ := Option.map_eq_some_iff.1 h
            exact .text text
        | bool | number | array | object => cases h
      · rintro (_ | _ | _)
        · rfl
        · rfl

/-- The fields of an announcement. -/
def record : Record JobHandle JobHandle :=
  ((Record.make JobHandle JobHandle.mk).defaulted "job-uri" .text "" (·.uri)).elided
    "message" .text (·.message)

theorem read_iff : record.read given = some ⟨uri, message⟩ ↔
    UriIn (given.field "job-uri").toList uri ∧ MessageIn (given.field "message").toList message := by
  have hread : record.read given = (Field.readDefaulted "job-uri" .text "" given).bind fun uri =>
      (Record.readOptional "message" .text given).map (JobHandle.mk uri) := by
    rw [record, Record.elided, Record.read_add_eq, Record.read_defaulted_eq, Record.read_make_eq]
    cases Field.readDefaulted "job-uri" .text "" given <;> rfl
  rw [hread, ← readDefaulted_iff, ← readOptional_iff]
  simp only [Option.bind_eq_some_iff, Option.map_eq_some_iff, JobHandle.mk.injEq]
  constructor
  · rintro ⟨_, huri, _, hmessage, rfl, rfl⟩
    exact ⟨huri, hmessage⟩
  · rintro ⟨huri, hmessage⟩
    exact ⟨uri, huri, message, hmessage, rfl, rfl⟩

/-- An announcement is read from exactly the documents that announce it. -/
theorem read?_iff {d : Document} {job : JobHandle} : codec.read? d = some job ↔ Announces d job := by
  obtain ⟨uri, message⟩ := job
  cases d with
  | object members =>
      have hread : codec.read? (.object members) =
          (Record.declared? record.names members).bind fun found =>
            record.read ⟨126, fun name => found.lookup name, []⟩ := by
        show (Record.ofObject? record.names 126 members).bind record.read = _
        rw [Record.ofObject?]
        cases Record.declared? record.names members <;> rfl
      rw [hread, Option.bind_eq_some_iff]
      constructor
      · rintro ⟨found, hfound, h⟩
        obtain ⟨hnamed, hvalues⟩ := Record.valuesOf_declared? hfound
        obtain ⟨huri, hmessage⟩ := read_iff.1 h
        refine .object hnamed ?_ ?_
        · rw [hvalues "job-uri" (by decide)]
          exact huri
        · rw [hvalues "message" (by decide)]
          exact hmessage
      · rintro ⟨hnamed, huri, hmessage⟩
        have honce : ∀ name ∈ record.names, (valuesOf name members).length ≤ 1 := by
          have huriOnce : (valuesOf "job-uri" members).length ≤ 1 := by
            generalize valuesOf "job-uri" members = found at huri
            cases huri <;> simp
          have hmessageOnce : (valuesOf "message" members).length ≤ 1 := by
            generalize valuesOf "message" members = found at hmessage
            cases hmessage <;> simp
          intro name hname
          rcases List.mem_pair.1 hname with rfl | rfl
          · exact huriOnce
          · exact hmessageOnce
        obtain ⟨found, hfound⟩ := Record.exists_declared? hnamed honce
        have hvalues := (Record.valuesOf_declared? hfound).2
        rw [hvalues "job-uri" (by decide)] at huri
        rw [hvalues "message" (by decide)] at hmessage
        exact ⟨found, hfound, read_iff.2 ⟨huri, hmessage⟩⟩
  | array items =>
      have hread : codec.read? (.array items) =
          (Record.ofArray? record.names 126 items).bind record.read := rfl
      have hiff : Announces (.array items) ⟨uri, message⟩ ↔
          UriIn (items.take 1) uri ∧ MessageIn (items.drop 1) message := by
        constructor
        · rintro ⟨⟩
          exact ⟨‹_›, ‹_›⟩
        · rintro ⟨huri, hmessage⟩
          exact .array huri hmessage
      rw [hread, hiff]
      -- A handle has two members, so no array of more items is one.
      rcases items with _ | ⟨a, _ | ⟨b, _ | ⟨c, rest⟩⟩⟩
      · exact read_iff
      · exact read_iff
      · exact read_iff
      · constructor
        · intro h
          cases h
        · rintro ⟨-, ⟨⟩⟩
  | null | bool | number | string =>
      constructor
      · intro h
        cases h
      · intro h
        cases h

end JobHandle

/-! ## Answers -/

/-- How a result is a failure, if it is one. -/
def Result.failure? : Result α → Option Failure
  | .error f => some f
  | .ok _ => none

/-- How an accepted answer can lack the URI of a job. -/
inductive Lack where
  | noBody
  | nullUri
  | noUri

/-- The kind of failure for it. -/
def Lack.kind : Lack → FailureKind
  | noBody => .emptyResponse
  | nullUri => .unmarshal
  | noUri => .emptyJobUri

/-- Whether a body is an object that is an announcement but for its URI. -/
structure Wants (body : List UInt8) (members : List (Option String × Document)) : Prop where
  read : Document.read? body = some (.object members)
  named : Named members
  message : ∃ message, MessageIn (valuesOf "message" members) message

/-- Whether a body lacks the URI of a job. -/
def Lacks (body : List UInt8) : Lack → Prop
  | .noBody => body = []
  | .nullUri => ∃ members, Wants body members ∧ valuesOf "job-uri" members = [.null]
  | .noUri => ∃ members, Wants body members ∧
      (valuesOf "job-uri" members = [] ∨ valuesOf "job-uri" members = [.string (some "")])

namespace Response

/-- Whether an answer is accepted and announces a job without a URI. -/
def NamesNoJob (r : Response) : Prop :=
  r.status = 202 ∧ ∃ d message, Document.read? r.body = some d ∧ Announces d ⟨"", message⟩

/-- What an answer must be refused as that was to announce a job. -/
structure Refuses (r : Response) (refusal : Option Failure) : Prop where
  noJob : r.NamesNoJob → refusal =
    some ⟨.emptyJobUri, 1008, "accepted response carries no job URI", some 202⟩
  of_noJob : ∀ f, refusal = some f → f.kind = .emptyJobUri → r.NamesNoJob
  lacking : ∀ lack, r.status = 202 → Lacks r.body lack →
    ∃ f, refusal = some f ∧ f.kind = lack.kind ∧ f.status = some 202

theorem unexpected_kind (r : Response) : r.unexpected.kind ≠ .emptyJobUri := by
  rw [unexpected]
  split
  · obtain ⟨reason, hkind, -⟩ := Failure.ofBody_eq r.body
    intro h
    cases hkind.symm.trans h
  · intro h
    cases h

theorem startedJob_empty {r : Response} (h : r.status = 202) (hbody : r.body = []) :
    r.startedJob = .error (r.fault .emptyBody) := by
  have haccepts : accepts [202] r.status = true := by rw [h]; rfl
  rw [startedJob, document, haccepts, hbody]
  rfl

theorem decode?_iff {body : List UInt8} {job : JobHandle} :
    Expectation.startedJob.decode? body = some job ↔
      ∃ d, Document.read? body = some d ∧ Announces d job := by
  rw [Expectation.decode?]
  show (Document.read? body).bind JobHandle.codec.read? = some job ↔ _
  simp only [Option.bind_eq_some_iff, JobHandle.read?_iff]

theorem read?_ne_nil {body : List UInt8} {d : Document} (h : Document.read? body = some d) :
    body ≠ [] := by
  rintro rfl
  cases h

theorem NamesNoJob.startedJob_eq {r : Response} (h : r.NamesNoJob) :
    r.startedJob = .error (r.fault .noJobUri) := by
  obtain ⟨hstatus, d, message, hd, hannounces⟩ := h
  have hdecode := decode?_iff.2 ⟨d, hd, hannounces⟩
  have hanswers := startedJob_answers r
  generalize r.startedJob = result at hanswers
  cases hanswers with
  | refused hrefused => exact absurd hstatus hrefused
  | unread _ ha => cases ha
  | empty _ _ hbody => exact absurd hbody (read?_ne_nil hd)
  | undecodable _ _ hnone => exact nomatch hdecode.symm.trans hnone
  | lacking _ _ hjob hmissing =>
      obtain rfl := Option.some.inj (hdecode.symm.trans hjob)
      cases hmissing
      rfl
  | decoded _ _ hjob hmissing =>
      obtain rfl := Option.some.inj (hdecode.symm.trans hjob)
      cases hmissing

theorem namesNoJob_of_startedJob {r : Response} {f : Failure} (h : r.startedJob = .error f)
    (hkind : f.kind = .emptyJobUri) : r.NamesNoJob := by
  have hanswers := startedJob_answers r
  rw [h] at hanswers
  cases hanswers with
  | refused => exact absurd hkind r.unexpected_kind
  | empty | undecodable => cases hkind
  | @lacking job cause hstatus _ hjob hmissing =>
      obtain ⟨d, hd, hannounces⟩ := decode?_iff.1 hjob
      obtain ⟨uri, message⟩ := job
      have hempty : uri.isEmpty = true := by
        by_contra huri
        exact nomatch (if_neg huri).symm.trans hmissing
      obtain rfl : uri = "" := String.isEmpty_iff.1 hempty
      exact ⟨hstatus, d, message, hd, hannounces⟩

/-- An object with null for the URI is no announcement. -/
theorem startedJob_null {r : Response} (h : r.status = 202)
    (hbody : Document.read? r.body = some (.object members))
    (hnull : valuesOf "job-uri" members = [.null]) :
    r.startedJob = .error (r.fault .undecodableBody) := by
  have hnone : ∀ job, Expectation.startedJob.decode? r.body ≠ some job := by
    intro job hjob
    obtain ⟨d, hd, hannounces⟩ := decode?_iff.1 hjob
    obtain rfl := Option.some.inj (hbody.symm.trans hd)
    cases hannounces with
    | object hnamed huri hmessage =>
        rw [hnull] at huri
        cases huri
  have hanswers := startedJob_answers r
  generalize r.startedJob = result at hanswers
  cases hanswers with
  | refused hrefused => exact absurd h hrefused
  | unread _ ha => cases ha
  | empty _ _ hempty => exact absurd hempty (read?_ne_nil hbody)
  | undecodable => rfl
  | lacking _ _ hjob => exact absurd hjob (hnone _)
  | decoded _ _ hjob => exact absurd hjob (hnone _)

theorem namesNoJob_of_lacks {r : Response} (h : r.status = 202) (hlacks : Lacks r.body .noUri) :
    r.NamesNoJob := by
  obtain ⟨members, ⟨hread, hnamed, message, hmessage⟩, huri⟩ := hlacks
  refine ⟨h, _, message, hread, .object hnamed ?_ hmessage⟩
  rcases huri with huri | huri
  · rw [huri]
    exact .missing
  · rw [huri]
    exact .text ""

theorem startedJob_refuses (r : Response) : r.Refuses (Result.failure? r.startedJob) where
  noJob h := by
    rw [h.startedJob_eq, ← h.1]
    rfl
  of_noJob f hf hkind := by
    cases hresult : r.startedJob with
    | ok job =>
        rw [hresult] at hf
        cases hf
    | error g =>
        rw [hresult] at hf
        obtain rfl := Option.some.inj hf
        exact namesNoJob_of_startedJob hresult hkind
  lacking lack hstatus hlacks := by
    cases lack with
    | noBody =>
        rw [startedJob_empty hstatus hlacks, ← hstatus]
        exact ⟨_, rfl, rfl, rfl⟩
    | nullUri =>
        obtain ⟨members, hwants, hnull⟩ := hlacks
        rw [startedJob_null hstatus hwants.read hnull, ← hstatus]
        exact ⟨_, rfl, rfl, rfl⟩
    | noUri =>
        rw [(namesNoJob_of_lacks hstatus hlacks).startedJob_eq, ← hstatus]
        exact ⟨_, rfl, rfl, rfl⟩

theorem startedJob?_refuses (r : Response) : r.Refuses (Result.failure? r.startedJob?) := by
  rw [startedJob?]
  split
  · next hdone =>
      refine ⟨fun h => absurd h.1 (by omega), ?_, fun _ hstatus _ => absurd hstatus (by omega)⟩
      intro _ hfailed
      cases hfailed
  · have hfailure : Result.failure? (r.startedJob.map some) = Result.failure? r.startedJob := by
      cases r.startedJob <;> rfl
    rw [hfailure]
    exact r.startedJob_refuses

end Response

/-! ## Operations -/

/-- The operations that a console may answer with a job. -/
inductive JobStarter where
  | start (uri : String)
  | stop (uri : String)
  | update (uri : String) (changes : StorageGroupModify)

namespace JobStarter

/-- The request of the operation. -/
def request (e : Endpoint) : JobStarter → Request
  | start uri => e.post (Partition.operationUri uri "start")
  | stop uri => e.post (Partition.operationUri uri "stop")
  | update uri changes => e.postJson (uri ++ "/operations/modify") changes.body

/-- How the operation fails, if it does. -/
def failure? (e : Endpoint) (handler : Talk.Handler σ) (s : σ) : JobStarter → Option Failure
  | start uri => Result.failure? ((Partition.start e uri).run.run handler s).1
  | stop uri => Result.failure? ((Partition.stop e uri).run.run handler s).1
  | update uri changes => Result.failure? ((StorageGroup.update e uri changes).run.run handler s).1

end JobStarter

theorem Talk.failure?_expect {request : Request} (read : Response → Result α)
    {handler : Talk.Handler σ} {s : σ} {r : Response}
    (h : (handler (.execute request) s).1 = .ok r) :
    Result.failure? ((Talk.expect request read).run.run handler s).1 =
      Result.failure? (read r) := by
  rw [Talk.run_expect, h]
  rfl

theorem JobStarter.refuses {o : JobStarter} {e : Endpoint} {handler : Talk.Handler σ} {s : σ}
    {r : Response} (h : (handler (.execute (o.request e)) s).1 = .ok r) :
    r.Refuses (o.failure? e handler s) := by
  have hjob := Talk.failure?_expect (·.startedJob) h
  have hmaybe := Talk.failure?_expect (·.startedJob?) h
  cases o with
  | start uri | stop uri => exact (congrArg r.Refuses hjob).mpr r.startedJob_refuses
  | update uri changes => exact (congrArg r.Refuses hmaybe).mpr r.startedJob?_refuses

/-- How answers are refused for want of a job's URI, by both ways to expect a job and so by every
operation that does. It is for want of the URI if and only if the answer is accepted and announces a
job without one, and then always in the same words. An accepted answer that lacks the URI is so
refused if its document leaves the URI out or empty; it is refused as empty if it has no body, and
as no announcement if the URI is null. -/
theorem Response.jobless_refused (r : Response) :
    r.Refuses (Result.failure? r.startedJob) ∧ r.Refuses (Result.failure? r.startedJob?) ∧
      ∀ (σ : Type) (o : JobStarter) (e : Endpoint) (handler : Talk.Handler σ) (s : σ),
        (handler (.execute (o.request e)) s).1 = .ok r → r.Refuses (o.failure? e handler s) :=
  ⟨r.startedJob_refuses, r.startedJob?_refuses, fun _ _ _ _ _ h => JobStarter.refuses h⟩

namespace Sample

def hmc : Endpoint :=
  ⟨⟨"https", "", none, some (.name "hmc"), none, .segments [""], none, none⟩⟩

/-- Gives the same answer to every request. -/
def answering (r : Response) : Talk.Handler Unit
  | .execute _, s => (.ok r, s)
  | .sessionId, s => (none, s)
  | .now, s => (⟨0⟩, s)
  | .pause .., s => (false, s)

/-- An accepted answer with null for the URI of the job. -/
def nullJob : Response :=
  ⟨202, (Json.object [("job-uri", .null), ("message", .string "soon")]).bytes⟩

theorem nullJob_lacks : Lacks nullJob.body .nullUri := by
  have hread : Document.read? nullJob.body = some (.object
      [(some "job-uri", .null), (some "message", .string (some "soon"))]) :=
    Document.read?_bytes ⟨trivial, trivial, trivial⟩
  refine ⟨_, ⟨hread, ?_, some "soon", .text "soon"⟩, rfl⟩
  intro member hmember
  rcases List.mem_pair.1 hmember with rfl | rfl <;> simp

end Sample

/-- The start of a partition is accepted with a job whose URI is null. -/
theorem Response.jobless_refused_null :
    ∃ f, (JobStarter.start "/api/partitions/1").failure? Sample.hmc
        (Sample.answering Sample.nullJob) () = some f ∧
      f.kind = .unmarshal ∧ f.status = some 202 := by
  obtain ⟨-, -, hstarter⟩ := Sample.nullJob.jobless_refused
  have hrefuses := hstarter Unit (.start "/api/partitions/1") Sample.hmc
    (Sample.answering Sample.nullJob) () rfl
  exact hrefuses.lacking .nullUri rfl Sample.nullJob_lacks

/-- Not every accepted answer without the URI of a job is refused for want of it. -/
theorem Response.jobless_misnamed :
    ¬ ∀ (r : Response) (lack : Lack), r.status = 202 → Lacks r.body lack →
      ∃ f, Result.failure? r.startedJob = some f ∧ f.kind = .emptyJobUri ∧
        f.status = some 202 := by
  intro h
  obtain ⟨f, hf, hkind, -⟩ := h ⟨202, []⟩ .noBody rfl rfl
  have hempty : Result.failure? (Response.startedJob ⟨202, []⟩) =
      some ⟨.emptyResponse, 1002, "response body is empty", some 202⟩ := rfl
  obtain rfl := Option.some.inj (hempty.symm.trans hf)
  cases hkind

end HmcClient
