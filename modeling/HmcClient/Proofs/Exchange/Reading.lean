import HmcClient.Exchange.Reading

/-!
# Every expectation sorts answers alike

There are six ways to expect an answer, and each looks at it in its own way. Here they are one type,
so that what they have in common can be said once: which statuses one accepts, what it gives without
looking at the body, what it reads in the body, and what it finds missing in what it has read.

`Answers` tells the six ways in which an expectation can be answered and what comes of each, in
these words alone. That every expectation is answered in one of them is shown case by case, and it
is the only place that opens the functions of `Response`. What can be said of failures follows: an
answer with a status that is not accepted is refused as the console's fault or as an unexpected one,
and an accepted answer fails only by its body. Both carry the status of the answer. The kind of a
failure never depends on the reason that the console gives, so a reason that is also a code of the
client does no harm.
-/

namespace HmcClient

/-- A way to expect an answer that gives a value. -/
inductive Expectation : Type → Type 1 where
  | document {α : Type} (c : Codec α) (ok : List Nat) : Expectation α
  | items {α : Type} (c : Codec α) (collection : String) : Expectation (List α)
  | nothing (ok : List Nat) : Expectation Unit
  | createdUri : Expectation String
  | startedJob : Expectation JobHandle
  | startedJob? : Expectation (Option JobHandle)

namespace Expectation

variable {α : Type}

/-- What an expectation makes of an answer. -/
def read : Expectation α → Response → Result α
  | document c ok, r => r.document c ok
  | items c collection, r => r.items c collection
  | nothing ok, r => r.nothing ok
  | createdUri, r => r.createdUri
  | startedJob, r => r.startedJob
  | startedJob?, r => r.startedJob?

/-- Whether a status is accepted. -/
def Accepts : Expectation α → Nat → Prop
  | document _ ok, status | nothing ok, status => status ∈ ok ∨ status = 206 ∧ 200 ∈ ok
  | items .., status => status = 200 ∨ status = 206
  | createdUri, status => status = 201
  | startedJob, status => status = 202
  | startedJob?, status => status = 200 ∨ status = 202 ∨ status = 204

instance : (x : Expectation α) → (status : Nat) → Decidable (x.Accepts status)
  | document _ ok, status | nothing ok, status =>
    inferInstanceAs (Decidable (status ∈ ok ∨ status = 206 ∧ 200 ∈ ok))
  | items .., status => inferInstanceAs (Decidable (status = 200 ∨ status = 206))
  | createdUri, status => inferInstanceAs (Decidable (status = 201))
  | startedJob, status => inferInstanceAs (Decidable (status = 202))
  | startedJob?, status => inferInstanceAs (Decidable (status = 200 ∨ status = 202 ∨ status = 204))

/-- What is given for an accepted status whatever the body is. -/
def unread? : Expectation α → Nat → Option α
  | nothing _, _ => some ()
  | startedJob?, status => if status = 202 then none else some none
  | _, _ => none

/-- The items of a collection among the members of an object. -/
def itemsOf? (c : Codec α) (collection : String) (members : Members) : Option (List α) :=
  match members.get? collection with
  | none => some []
  | some value => c.list.ofValue? value

/-- What a body says. -/
def decode? : Expectation α → List UInt8 → Option α
  | document c _, body => Document.read? body >>= c.read?
  | items c collection, body =>
    Document.read? body >>= Response.membersCodec.read? >>= itemsOf? c collection
  | nothing _, _ => none
  | createdUri, body => (Document.read? body >>= CreatedObject.codec.read?).map (·.objectUri)
  | startedJob, body => Document.read? body >>= JobHandle.codec.read?
  | startedJob?, body => (Document.read? body >>= JobHandle.codec.read?).map some

/-- What is found missing in what a body says. -/
def missing? : Expectation α → α → Option Cause
  | createdUri, uri => if uri.isEmpty then some .noObjectUri else none
  | startedJob, job | startedJob?, some job => if job.uri.isEmpty then some .noJobUri else none
  | _, _ => none

/-- What can come of an answer. -/
inductive Answers (x : Expectation α) (r : Response) : Result α → Prop where
  | refused (hstatus : ¬ x.Accepts r.status) : Answers x r (.error r.unexpected)
  | unread {a : α} (hstatus : x.Accepts r.status) (ha : x.unread? r.status = some a) :
    Answers x r (.ok a)
  | empty (hstatus : x.Accepts r.status) (hread : x.unread? r.status = none) (hbody : r.body = []) :
    Answers x r (.error (r.fault .emptyBody))
  | undecodable (hstatus : x.Accepts r.status) (hread : x.unread? r.status = none)
    (hbody : x.decode? r.body = none) : Answers x r (.error (r.fault .undecodableBody))
  | lacking {a : α} {cause : Cause} (hstatus : x.Accepts r.status)
    (hread : x.unread? r.status = none) (hbody : x.decode? r.body = some a)
    (hmissing : x.missing? a = some cause) : Answers x r (.error (r.fault cause))
  | decoded {a : α} (hstatus : x.Accepts r.status) (hread : x.unread? r.status = none)
    (hbody : x.decode? r.body = some a) (hmissing : x.missing? a = none) : Answers x r (.ok a)

end Expectation

namespace Response

open Expectation

variable {α β : Type} {r : Response}

theorem fault_kind {cause : Cause} : (r.fault cause).kind = cause.kind := rfl

theorem accepts_iff {ok : List Nat} {status : Nat} :
    accepts ok status = true ↔ status ∈ ok ∨ status = 206 ∧ 200 ∈ ok := by
  simp [accepts]

theorem document_answers (c : Codec α) (ok : List Nat) (r : Response) :
    Answers (.document c ok) r (r.document c ok) := by
  rw [document]
  split
  · next hstatus =>
      refine .refused fun h => ?_
      rw [accepts_iff.2 h] at hstatus
      cases hstatus
  next hstatus =>
    have haccepts : (Expectation.document c ok).Accepts r.status :=
      accepts_iff.1 (by simpa using hstatus)
    split
    · next hbody => exact .empty haccepts rfl (List.isEmpty_iff.1 hbody)
    · split
      · next a ha => exact .decoded haccepts rfl ha rfl
      · next hnone => exact .undecodable haccepts rfl hnone

/-- What looks at a document first, and goes on only if it has read one. -/
theorem answers_of_document {x : Expectation β} {c : Codec α} {ok : List Nat} {next : α → Result β}
    (haccepts : x.Accepts r.status ↔ (Expectation.document c ok).Accepts r.status)
    (hread : x.unread? r.status = none)
    (hnone : Document.read? r.body >>= c.read? = none → x.decode? r.body = none)
    (hnext : ∀ a, x.Accepts r.status → Document.read? r.body >>= c.read? = some a →
      Answers x r (next a)) :
    Answers x r (r.document c ok >>= next) := by
  generalize hresult : r.document c ok = result
  have hdocument := document_answers c ok r
  rw [hresult] at hdocument
  cases hdocument with
  | refused hstatus => exact .refused fun h => hstatus (haccepts.1 h)
  | unread _ ha => cases ha
  | empty hstatus _ hbody => exact .empty (haccepts.2 hstatus) hread hbody
  | undecodable hstatus _ hbody => exact .undecodable (haccepts.2 hstatus) hread (hnone hbody)
  | lacking _ _ _ hmissing => cases hmissing
  | decoded hstatus _ hbody _ => exact hnext _ (haccepts.2 hstatus) hbody

theorem items_answers (c : Codec α) (collection : String) (r : Response) :
    Answers (.items c collection) r (r.items c collection) := by
  refine answers_of_document (by simp [Accepts]) rfl (fun hnone => ?_)
    fun members hstatus hbody => ?_
  · rw [decode?, hnone]
    rfl
  · have hdecode : (Expectation.items c collection).decode? r.body =
        itemsOf? c collection members := by
      rw [decode?, hbody]
      rfl
    rw [itemsOf?] at hdecode
    split
    · next hget =>
        rw [hget] at hdecode
        exact .decoded hstatus rfl hdecode rfl
    · next value hget =>
        rw [hget] at hdecode
        dsimp only at hdecode
        split
        · next found hfound => exact .decoded hstatus rfl (hdecode.trans hfound) rfl
        · next hnone => exact .undecodable hstatus rfl (hdecode.trans hnone)

theorem nothing_answers (ok : List Nat) (r : Response) :
    Answers (.nothing ok) r (r.nothing ok) := by
  rw [nothing]
  split
  · next hstatus => exact .unread (accepts_iff.1 hstatus) rfl
  · next hstatus => exact .refused fun h => hstatus (accepts_iff.2 h)

theorem createdUri_answers (r : Response) : Answers .createdUri r r.createdUri := by
  refine answers_of_document (by simp [Accepts]) rfl (fun hnone => ?_)
    fun created hstatus hbody => ?_
  · rw [decode?, hnone]
    rfl
  · have hdecode : Expectation.createdUri.decode? r.body = some created.objectUri := by
      rw [decode?, hbody]
      rfl
    dsimp only
    split
    · next huri => exact .lacking hstatus rfl hdecode (if_pos huri)
    · next huri => exact .decoded hstatus rfl hdecode (if_neg huri)

theorem startedJob_answers (r : Response) : Answers .startedJob r r.startedJob := by
  refine answers_of_document (by simp [Accepts]) rfl id fun job hstatus hbody => ?_
  dsimp only
  split
  · next huri => exact .lacking hstatus rfl hbody (if_pos huri)
  · next huri => exact .decoded hstatus rfl hbody (if_neg huri)

theorem startedJob?_answers (r : Response) : Answers .startedJob? r r.startedJob? := by
  rw [startedJob?]
  split
  · next hstatus =>
      have haccepts : Expectation.startedJob?.Accepts r.status := by
        rw [Accepts]
        omega
      exact .unread haccepts (if_neg (by omega))
  next hstatus =>
    have haccepts : Expectation.startedJob.Accepts r.status ↔
        Expectation.startedJob?.Accepts r.status := by
      simp only [Accepts]
      omega
    have hread : Expectation.startedJob.Accepts r.status →
        Expectation.startedJob?.unread? r.status = none := fun h => if_pos h
    have hdecode : ∀ job?, Expectation.startedJob.decode? r.body = job? →
        Expectation.startedJob?.decode? r.body = job?.map some := by
      rintro _ rfl
      rfl
    generalize hresult : r.startedJob = result
    have hanswers := startedJob_answers r
    rw [hresult] at hanswers
    cases hanswers with
    | refused hstatus => exact .refused fun h => hstatus (haccepts.2 h)
    | unread _ ha => cases ha
    | empty hstatus _ hbody => exact .empty (haccepts.1 hstatus) (hread hstatus) hbody
    | undecodable hstatus _ hbody =>
        exact .undecodable (haccepts.1 hstatus) (hread hstatus) (hdecode _ hbody)
    | lacking hstatus _ hbody hmissing =>
        exact .lacking (haccepts.1 hstatus) (hread hstatus) (hdecode _ hbody) hmissing
    | decoded hstatus _ hbody hmissing =>
        exact .decoded (haccepts.1 hstatus) (hread hstatus) (hdecode _ hbody) hmissing

end Response

namespace Expectation

variable {α : Type} {x : Expectation α} {r : Response}

/-- Every expectation is answered in one of the six ways. -/
theorem answers (x : Expectation α) (r : Response) : x.Answers r (x.read r) := by
  cases x with
  | document c ok => exact r.document_answers c ok
  | items c collection => exact r.items_answers c collection
  | nothing ok => exact r.nothing_answers ok
  | createdUri => exact r.createdUri_answers
  | startedJob => exact r.startedJob_answers
  | startedJob? => exact r.startedJob?_answers

theorem kind_of_missing? {a : α} {cause : Cause} (h : x.missing? a = some cause) :
    cause.kind = .emptyResponse ∨ cause.kind = .emptyJobUri := by
  have hif : ∀ {c : Prop} [Decidable c] {other : Cause},
      (if c then some other else none) = some cause → cause = other := by
    intro c _ other h
    split at h
    · exact (Option.some.inj h).symm
    · cases h
  cases x with
  | createdUri =>
      obtain rfl := hif h
      exact .inl rfl
  | startedJob =>
      obtain rfl := hif h
      exact .inr rfl
  | startedJob? =>
      cases a with
      | none => cases h
      | some job =>
          obtain rfl := hif h
          exact .inr rfl
  | _ => cases h

/-- A failure over an accepted answer is about its body, and the body had to be read. -/
theorem Answers.of_accepted {f : Failure} (h : x.Answers r (.error f))
    (hstatus : x.Accepts r.status) :
    x.unread? r.status = none ∧ ∃ cause : Cause, f = r.fault cause ∧
      (cause.kind = .emptyResponse ∨ cause.kind = .unmarshal ∨ cause.kind = .emptyJobUri) := by
  cases h with
  | refused hrefused => exact absurd hstatus hrefused
  | empty _ hread _ => exact ⟨hread, _, rfl, .inl rfl⟩
  | undecodable _ hread _ => exact ⟨hread, _, rfl, .inr (.inl rfl)⟩
  | lacking _ hread _ hmissing =>
      refine ⟨hread, _, rfl, ?_⟩
      rcases kind_of_missing? hmissing with hkind | hkind
      · exact .inl hkind
      · exact .inr (.inr hkind)

theorem Answers.of_not_accepted {f : Failure} (h : x.Answers r (.error f))
    (hstatus : ¬ x.Accepts r.status) : f = r.unexpected := by
  cases h with
  | refused => rfl
  | empty haccepts | undecodable haccepts | lacking haccepts => exact absurd haccepts hstatus

end Expectation

/-- What the console's fault is: what the body reports, or unknown. -/
theorem Failure.ofBody_eq (body : List UInt8) :
    ∃ reason, (Failure.ofBody body).kind = .server reason ∧ (Failure.ofBody body).reason = reason ∧
      match Document.read? body >>= Envelope.codec.read? with
      | some e => reason = e.reason ∧ (Failure.ofBody body).message = e.message
      | none => reason = -1 ∧ (Failure.ofBody body).message = "Unknown error." := by
  rw [Failure.ofBody]
  cases Document.read? body >>= Envelope.codec.read? with
  | some e => exact ⟨e.reason, rfl, rfl, rfl, rfl⟩
  | none => exact ⟨-1, rfl, rfl, rfl, rfl⟩

namespace Expectation

variable {α : Type}

/-- How every expectation sorts answers. It gives a value only if the status is accepted, and then
what it has read in the body unless it ignores that. A failure has the status of the answer. It is
the console's fault, with the reason and the message of the body or as an unknown one, exactly if
the status is not accepted and is at least 400; it is a bad request exactly if the status is not
accepted and is less. Over an accepted answer it says that the body is empty or cannot be read, or
that it names no job. -/
theorem read_sorted (x : Expectation α) (r : Response) :
    (∀ a, x.read r = .ok a → x.Accepts r.status ∧
      (x.unread? r.status = some a ∨ x.unread? r.status = none ∧ x.decode? r.body = some a)) ∧
    ∀ f, x.read r = .error f →
      f.status = some r.status ∧
      ((∃ reason, f.kind = .server reason) ↔ ¬ x.Accepts r.status ∧ 400 ≤ r.status) ∧
      (∀ reason, f.kind = .server reason → f.reason = reason ∧
        match Document.read? r.body >>= Envelope.codec.read? with
        | some e => reason = e.reason ∧ f.message = e.message
        | none => reason = -1 ∧ f.message = "Unknown error.") ∧
      (f.kind = .badRequest ↔ ¬ x.Accepts r.status ∧ r.status < 400) ∧
      (x.Accepts r.status → x.unread? r.status = none ∧
        (f.kind = .emptyResponse ∨ f.kind = .unmarshal ∨ f.kind = .emptyJobUri)) := by
  have hanswers := x.answers r
  refine ⟨fun a ha => ?_, fun f hf => ?_⟩
  · rw [ha] at hanswers
    cases hanswers with
    | unread hstatus hread => exact ⟨hstatus, .inl hread⟩
    | decoded hstatus hread hbody _ => exact ⟨hstatus, .inr ⟨hread, hbody⟩⟩
  rw [hf] at hanswers
  by_cases hstatus : x.Accepts r.status
  · obtain ⟨hread, cause, rfl, hkind⟩ := hanswers.of_accepted hstatus
    have hclient : ∀ reason, (r.fault cause).kind ≠ .server reason := by
      intro reason hserver
      rw [Response.fault_kind] at hserver
      simp [hserver] at hkind
    have hbad : (r.fault cause).kind ≠ .badRequest := by
      intro hbad
      rw [Response.fault_kind] at hbad
      simp [hbad] at hkind
    exact ⟨rfl, ⟨fun ⟨reason, h⟩ => absurd h (hclient reason), fun h => absurd hstatus h.1⟩,
      fun reason h => absurd h (hclient reason), ⟨fun h => absurd h hbad,
      fun h => absurd hstatus h.1⟩, fun _ => ⟨hread, hkind⟩⟩
  · obtain rfl := hanswers.of_not_accepted hstatus
    rw [Response.unexpected]
    split
    · next hfault =>
        obtain ⟨reason, hkind, hreason, hbody⟩ := Failure.ofBody_eq r.body
        refine ⟨rfl, ⟨fun _ => ⟨hstatus, hfault⟩, fun _ => ⟨reason, hkind⟩⟩, ?_, ?_,
          fun h => absurd h hstatus⟩
        · intro other hother
          obtain rfl := FailureKind.server.inj (hkind.symm.trans hother)
          exact ⟨hreason, hbody⟩
        · exact ⟨fun h => (nomatch hkind.symm.trans h), fun h => absurd hfault (by omega)⟩
    · next hless =>
        have hkind : ∀ reason, ((Failure.ofCause (.unexpectedStatus r.status)).withStatus
            r.status).kind ≠ .server reason := fun _ h => nomatch h
        exact ⟨rfl, ⟨fun ⟨reason, h⟩ => absurd h (hkind reason), fun h => absurd h.2 hless⟩,
          fun reason h => absurd h (hkind reason), ⟨fun _ => ⟨hstatus, by omega⟩, fun _ => rfl⟩,
          fun h => absurd h hstatus⟩

/-- The console refuses with a reason that is also a code of the client and with another status in
the body. The failure is the console's, and its status is that of the answer. -/
theorem read_sorted_refused :
    let x := Expectation.document CreatedObject.codec [200]
    let r : Response := ⟨409,
      "\x7b\"reason\":1001,\"message\":\"busy\",\"http-status\":500\x7d".toUTF8.toList⟩
    ∃ f, x.read r = .error f ∧ f.status = some 409 ∧ f.kind = .server 1001 ∧
      f.message = "busy" := by
  intro x r
  have hread : ∃ f, x.read r = .error f := ⟨_, rfl⟩
  obtain ⟨f, hf⟩ := hread
  obtain ⟨hstatus, hserver, hreason, -⟩ := (x.read_sorted r).2 f hf
  obtain ⟨reason, hkind⟩ := hserver.2 ⟨by decide, by decide⟩
  have hbody := (hreason reason hkind).2
  have hdecode : Document.read? r.body >>= Envelope.codec.read? =
      some ⟨1001, "busy", some 500, none⟩ := by decide +kernel
  rw [hdecode] at hbody
  obtain ⟨rfl, hmessage⟩ := hbody
  exact ⟨f, hf, hstatus, hkind, hmessage⟩

end Expectation

end HmcClient
