import HmcClient.Failure
import HmcClient.Proofs.Json.Record

/-!
# Envelopes carry failures

An envelope keeps the reason, the message and the status of a failure, whatever characters the
message has and however large the reason is. What it does not keep is the kind: a body says what the
console found wrong, so every failure that is read from one has the console's kind, also where the
reason is a code of the client's own.
-/

namespace HmcClient

namespace Envelope

/-- The members of an envelope's document. -/
def entries (e : Envelope) : List (String × Json) :=
  [("reason", .int e.reason), ("message", .string e.message)] ++
    Json.memberOf "http-status" .nat e.httpStatus ++
    Json.memberOf "request-uri" .string e.requestUri

/-- Whether the numbers of an envelope have the width that they are read with. -/
structure InRange (e : Envelope) : Prop where
  reason_least : Width.minInt64 ≤ e.reason
  reason_greatest : e.reason ≤ Width.maxInt64
  status : ∀ status ∈ e.httpStatus, status ≤ Width.maxNat16

theorem encode_eq (e : Envelope) : codec.encode e = .object (Members.ofList e.entries) := by
  obtain ⟨reason, message, _ | status, _ | uri⟩ := e <;> rfl

theorem entries_nodup (e : Envelope) : (e.entries.map Prod.fst).Nodup := by
  obtain ⟨reason, message, _ | status, _ | uri⟩ := e <;> simp [entries, Json.memberOf]

theorem InRange.exact {e : Envelope} (h : e.InRange) : Json.MembersExact e.entries := by
  rw [Json.membersExact_iff]
  intro member hmember
  rcases List.mem_append.1 hmember with hmember | hmember
  · rcases List.mem_append.1 hmember with hmember | hmember
    · simp only [List.mem_cons, List.not_mem_nil, or_false] at hmember
      rcases hmember with rfl | rfl
      · have hgreatest := h.reason_greatest
        exact ⟨h.reason_least, by unfold Width.maxInt64 at hgreatest; unfold Width.maxNat64; omega⟩
      · trivial
    · obtain ⟨status, hstatus, rfl⟩ := Json.mem_memberOf hmember
      have hle := h.status status hstatus
      unfold Width.maxNat16 at hle
      exact ⟨by unfold Width.minInt64; omega, by unfold Width.maxNat64; omega⟩
  · obtain ⟨uri, -, rfl⟩ := Json.mem_memberOf hmember
    trivial

/-- An envelope is read back from the document that is written for it. -/
theorem read?_object {e : Envelope} (he : e.InRange) {members : List (String × Json)}
    (h : members.Perm e.entries) : codec.read? (.ofValue (.object members)) = some e := by
  have hnodup : (members.map Prod.fst).Nodup := (h.map Prod.fst).nodup_iff.2 e.entries_nodup
  obtain ⟨given, hread, hfield⟩ := Record.decode_object _ hnodup 126
  refine Eq.trans hread ?_
  have hlookup (name : String)
      (hname : name ∈ ["reason", "message", "http-status", "request-uri"]) :
      given.field name = (e.entries.lookup name).map Document.ofValue := by
    rw [hfield name hname, Members.lookup_perm h hnodup]
  obtain ⟨reason, message, status, uri⟩ := e
  have hstatus : ∀ n ∈ status, Codec.nat16.option.decode given.depth
      (.ofValue (Codec.nat16.encode n)) = some (some n) := fun n hn =>
    congrArg (Option.map some) (Codec.decode_nat (he.status n hn) given.depth)
  refine Record.read_elided (b := uri) (Record.read_elided (b := status) (Record.read_required
    (b := message) (Record.read_required (b := reason) rfl ?_
      (Codec.decode_integer ⟨he.reason_least, he.reason_greatest⟩ given.depth)) ?_
      (Codec.decode_text message given.depth)) ?_ hstatus) ?_ fun _ _ => rfl
  · rw [hlookup _ (by decide)]; rfl
  · rw [hlookup _ (by decide)]; rfl
  · rw [hlookup _ (by decide)]; cases status <;> cases uri <;> rfl
  · rw [hlookup _ (by decide)]; cases status <;> cases uri <;> rfl

/-- Whether a body is the text of an envelope's document. A document may name its members in any
order. -/
def WrittenAs (e : Envelope) (body : List UInt8) : Prop := ∃ written members,
  codec.encode e = .object written ∧ members.Perm written ∧
    body = Utf8.encode (Json.object members).render

theorem InRange.read? {e : Envelope} (he : e.InRange) {body : List UInt8} (h : e.WrittenAs body) :
    Document.read? body >>= codec.read? = some e := by
  obtain ⟨written, members, hwritten, hperm, rfl⟩ := h
  obtain rfl : Members.ofList e.entries = written :=
    Json.object.inj ((encode_eq e).symm.trans hwritten)
  have hentries : members.Perm e.entries := hperm.trans (Members.ofList_perm e.entries_nodup)
  have hexact : (Json.object members).Exact :=
    Json.membersExact_iff.2 fun member hmem =>
      Json.membersExact_iff.1 he.exact member (hentries.mem_iff.1 hmem)
  rw [Json.encode_render, Document.read?_bytes hexact]
  exact read?_object he hentries

end Envelope

namespace Failure

/-- The failures that are built from a kind or from the console's reason, with or without a status:
the reason has 64 bits, the status 16. -/
inductive Built : Failure → Prop
  | new (kind : FailureKind) (message : String)
      (h : Width.minInt64 ≤ kind.code ∧ kind.code ≤ Width.maxInt64) : Built (new kind message)
  | server (reason : Int) (message : String)
      (h : Width.minInt64 ≤ reason ∧ reason ≤ Width.maxInt64) : Built (server reason message)
  | withStatus {f : Failure} (status : Nat) (h : status ≤ Width.maxNat16) (hf : Built f) :
      Built (f.withStatus status)

theorem Built.inRange {f : Failure} (hf : f.Built) : f.envelope.InRange := by
  induction hf with
  | new kind message h => exact ⟨h.1, h.2, nofun⟩
  | server reason message h => exact ⟨h.1, h.2, nofun⟩
  | withStatus status h hf ih =>
      refine ⟨ih.reason_least, ih.reason_greatest, fun n hn => ?_⟩
      obtain rfl := Option.some.inj hn
      exact h

/-- The reason of a failure is the code of its kind. -/
theorem Built.reason_eq {f : Failure} (hf : f.Built) : f.reason = f.kind.code := by
  induction hf with
  | new kind message h => rfl
  | server reason message h => rfl
  | withStatus status h hf ih => exact ih

/-- A failure that is written as an envelope and read back keeps its reason, message and status, and
its kind is the console's. So it comes back as it was exactly if it was the console's before, and
never with a kind of the client's. -/
theorem ofBody_envelope {f : Failure} (hf : f.Built) :
    f.envelope.WrittenAs (Utf8.encode (Envelope.codec.encode f.envelope).render) ∧
      ∀ body, f.envelope.WrittenAs body →
        (ofBody body).reason = f.reason ∧ (ofBody body).message = f.message ∧
          (ofBody body).status = f.status ∧ (ofBody body).kind = .server f.reason ∧
          (ofBody body = f ↔ ∃ reason, f.kind = .server reason) ∧
          ∀ kind, (∀ reason, kind ≠ .server reason) → (ofBody body).kind ≠ kind := by
  refine ⟨⟨_, _, Envelope.encode_eq f.envelope, .refl _, rfl⟩, fun body hbody => ?_⟩
  have hback : ofBody body = ⟨.server f.reason, f.reason, f.message, f.status⟩ := by
    rw [ofBody, hf.inRange.read? hbody]
    rfl
  rw [hback]
  refine ⟨rfl, rfl, rfl, rfl, ⟨fun h => ?_, fun ⟨reason, hkind⟩ => ?_⟩, fun kind hkind h => ?_⟩
  · exact ⟨f.reason, congrArg (·.kind) h.symm⟩
  · have hown : f.kind = .server f.reason := by rw [hf.reason_eq, hkind]; rfl
    rw [← hown]
  · exact hkind f.reason h.symm

/-- A fault that the client found comes back as one of the console's, with the client's code. -/
theorem ofBody_envelope_own_code :
    ((new .emptyJobUri "no \"job\" URI").withStatus 202).Built ∧
      (ofBody (Utf8.encode (Envelope.codec.encode
        ((new .emptyJobUri "no \"job\" URI").withStatus 202).envelope).render)).kind =
          .server 1008 := by
  have hf : ((new .emptyJobUri "no \"job\" URI").withStatus 202).Built :=
    .withStatus 202 (by decide) (.new .emptyJobUri _ (by decide))
  obtain ⟨hwritten, hback⟩ := ofBody_envelope hf
  exact ⟨hf, (hback _ hwritten).2.2.2.1⟩

end Failure

end HmcClient
