import HmcClient.Exchange.Header

/-!
# Which requests can be sent

A request that belongs to a session has two headers whose values come from outside: its content type
and the token. Each of them can be refused, the content type first, and nothing else can. What
comes back is regular or rejects the session, or is neither, and never both.
-/

namespace HmcClient

/-- Whether a text can be sent as the value of a header. -/
def Sendable (value : String) : Prop := (Utf8.encode value).all Header.isSendable = true

instance (value : String) : Decidable (Sendable value) :=
  inferInstanceAs (Decidable (_ = true))

/-- What stands in the way of sending a request: its content type, or the session. -/
theorem Headers.ofRequest_cases (userAgent : String) (r : Request) (token : Option String) :
    (Sendable r.effectiveContentType ∧
        ∃ headers, Headers.ofRequest userAgent r token = .ok headers) ∨
      (¬ Sendable r.effectiveContentType ∧
        Headers.ofRequest userAgent r token =
          .error (.ofCause (.invalidHeader "content-type"))) ∨
      (Sendable r.effectiveContentType ∧ ∃ id, token = some id ∧ ¬ Sendable id ∧
        Headers.ofRequest userAgent r token = .error (.ofCause (.invalidHeader "session"))) := by
  have hsendable : ∀ what name value, (Sendable value ∧
      Header.sendable what name value = .ok (Header.ofText name value)) ∨
      (¬ Sendable value ∧
        Header.sendable what name value = .error (.ofCause (.invalidHeader what))) := by
    intro what name value
    by_cases h : Sendable value
    · exact .inl ⟨h, if_pos h⟩
    · exact .inr ⟨h, if_neg h⟩
  unfold Headers.ofRequest
  rcases hsendable "content-type" "content-type" r.effectiveContentType with
    ⟨htype, hheader⟩ | ⟨htype, hheader⟩
  · rw [hheader]
    cases token with
    | none => exact .inl ⟨htype, _, rfl⟩
    | some id =>
        rcases hsendable "session" Header.sessionName id with ⟨hid, hheader⟩ | ⟨hid, hheader⟩
        · refine .inl ⟨htype, ?_⟩
          simp only [hheader]
          exact ⟨_, rfl⟩
        · refine .inr (.inr ⟨htype, id, rfl, hid, ?_⟩)
          simp only [hheader]
          rfl
  · rw [hheader]
    exact .inr (.inl ⟨htype, rfl⟩)

theorem Headers.sendable_of_ofRequest {userAgent : String} {r : Request} {token : Option String}
    {headers : Headers} (h : Headers.ofRequest userAgent r token = .ok headers) :
    Sendable r.effectiveContentType := by
  rcases Headers.ofRequest_cases userAgent r token with ⟨htype, -⟩ | ⟨-, hbad⟩ | ⟨htype, -⟩
  · exact htype
  · rw [h] at hbad
    cases hbad
  · exact htype

theorem Headers.ofRequest_ne_error {userAgent : String} {r : Request} {token : Option String}
    {failure : Failure} (htype : Sendable r.effectiveContentType)
    (htoken : ∀ id, token = some id → Sendable id) :
    Headers.ofRequest userAgent r token ≠ .error failure := by
  rcases Headers.ofRequest_cases userAgent r token with
    ⟨-, headers, hheaders⟩ | ⟨hbad, -⟩ | ⟨-, id, hid, hbad, -⟩
  · rw [hheaders]
    exact fun h => nomatch h
  · exact absurd htype hbad
  · exact absurd (htoken id hid) hbad

theorem Headers.ofRequest_unsendable {userAgent : String} {r : Request} {id : String}
    (htype : Sendable r.effectiveContentType) (hid : ¬ Sendable id) :
    Headers.ofRequest userAgent r (some id) = .error (.ofCause (.invalidHeader "session")) := by
  have hcontentType : Header.sendable "content-type" "content-type" r.effectiveContentType =
      .ok (Header.ofText "content-type" r.effectiveContentType) := if_pos htype
  have hsession : Header.sendable "session" Header.sessionName id =
      .error (.ofCause (.invalidHeader "session")) := if_neg hid
  rw [Headers.ofRequest, hcontentType]
  simp only [hsession]
  rfl

/-- A regular answer rejects no session. -/
theorem Response.not_rejects_of_expected {response : Response} (h : response.isExpected = true) :
    response.rejectsSession = false := by
  simp only [Response.isExpected, isExpectedStatus, expectedStatuses, List.contains_eq_mem,
    List.mem_cons, List.not_mem_nil, or_false, decide_eq_true_eq] at h
  simp only [Response.rejectsSession, needsLogon, Bool.or_eq_false_iff, Bool.and_eq_false_iff,
    beq_eq_false_iff_ne]
  omega

end HmcClient
