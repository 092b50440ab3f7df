import HmcClient.Client.Session
import HmcClient.Exchange.Dump
import HmcClient.Proofs.Exchange.Redaction

/-!
# What the trace shows of the answer to a logon

The answer to a logon is read twice. The client reads it as a record, which may be an object or an
array and ignores members that it does not declare. The trace reads it as a value, which needs every
leaf, and hides what stands in members with secret names.

The two readings meet only where the answer is an object that has a value: then the session id
stands in a member with a secret name, and the dump is the same for any other id in its place. An
array has no names, so the id is shown. An answer without a value, because of a number out of range
or half a surrogate pair in a member that the client ignores, is shown as it came. Both kinds open
sessions, so this is all that can be said of the answers that the client accepts.
-/

namespace HmcClient

/-! ## How a record gets its fields -/

namespace Record

variable {R α β : Type}

theorem exists_of_read_add {r : Record R (β → α)} {name : String} {readField : Given → Option β}
    {writeField : R → List (String × Json)} {given : Given} {a : α}
    (h : (r.add name readField writeField).read given = some a) :
    ∃ f b, r.read given = some f ∧ readField given = some b ∧ f b = a := by
  obtain ⟨f, hf, h⟩ := Option.bind_eq_some_iff.1 h
  obtain ⟨b, hb, h⟩ := Option.bind_eq_some_iff.1 h
  exact ⟨f, b, hf, hb, Option.some.inj h⟩

/-- What a record is read from: the declared members of an object, or the items of an array. -/
theorem exists_given {r : Record R R} {depth : Nat} {d : Document} {a : R}
    (h : r.codec.decode (depth + 1) d = some a) :
    ∃ given, r.read given = some a ∧
      ((∃ members, d = .object members ∧ ofObject? r.names depth members = some given) ∨
        ∃ items, d = .array items ∧ ofArray? r.names depth items = some given) := by
  cases d with
  | object members =>
      obtain ⟨given, hgiven, h⟩ := Option.bind_eq_some_iff.1 h
      exact ⟨given, h, .inl ⟨members, rfl, hgiven⟩⟩
  | array items =>
      obtain ⟨given, hgiven, h⟩ := Option.bind_eq_some_iff.1 h
      exact ⟨given, h, .inr ⟨items, rfl, hgiven⟩⟩
  | null | bool _ | number _ | string _ => cases h

theorem exists_of_declared? {names : List String} {members : List (Option String × Document)}
    {found : List (String × Document)} (h : declared? names members = some found) {name : String}
    {d : Document} (hd : found.lookup name = some d) :
    ∃ before after, members = before ++ (some name, d) :: after := by
  induction members generalizing found with
  | nil =>
      obtain rfl := Option.some.inj h
      cases hd
  | cons member rest ih =>
      obtain ⟨other, e⟩ := member
      obtain ⟨other, rfl, hrest⟩ := Option.bind_eq_some_iff.1 h
      obtain ⟨others, hothers, h⟩ := Option.bind_eq_some_iff.1 hrest
      have hlater : others.lookup name = some d → ∃ before after,
          (some other, e) :: rest = before ++ (some name, d) :: after := by
        intro hd
        obtain ⟨before, after, hrest⟩ := ih hothers hd
        exact ⟨(some other, e) :: before, after, congrArg _ hrest⟩
      split at h
      · split at h
        · cases h
        · obtain rfl := Option.some.inj h
          rw [List.lookup_cons] at hd
          split at hd
          · next hname =>
              obtain rfl := beq_iff_eq.1 hname
              obtain rfl := Option.some.inj hd
              exact ⟨[], rest, rfl⟩
          · exact hlater hd
      · obtain rfl := Option.some.inj h
        exact hlater hd

end Record

namespace LogonData

/-- The answer to a logon as an object: the session id and the members around it. -/
def object (before after : List (Option String × Document)) (id : String) : Document :=
  .object (before ++ (some "api-session", .string (some id)) :: after)

/-- The session id that is read stands in the field for it. -/
theorem of_read? {d : Document} {data : LogonData} (h : codec.read? d = some data) :
    (∃ before after, d = object before after data.sessionId) ∨
      ∃ items, d = .array (.string (some data.sessionId) :: items) := by
  obtain ⟨given, hread, hshape⟩ := Record.exists_given h
  obtain ⟨_, _, hread₅, -, hdata⟩ := Record.exists_of_read_add hread
  obtain ⟨_, _, hread₄, -, rfl⟩ := Record.exists_of_read_add hread₅
  obtain ⟨_, _, hread₃, -, rfl⟩ := Record.exists_of_read_add hread₄
  obtain ⟨_, _, hread₂, -, rfl⟩ := Record.exists_of_read_add hread₃
  obtain ⟨_, _, hread₁, -, rfl⟩ := Record.exists_of_read_add hread₂
  obtain ⟨_, id, hread₀, hid, rfl⟩ := Record.exists_of_read_add hread₁
  obtain rfl := Option.some.inj hread₀
  obtain rfl : id = data.sessionId := congrArg (·.sessionId) hdata
  obtain ⟨e, he, hid⟩ := Option.bind_eq_some_iff.1 hid
  obtain rfl : e = .string (some data.sessionId) := by
    cases e with
    | string s => exact congrArg Document.string hid
    | null | bool _ | number _ | array _ | object _ => cases hid
  rcases hshape with ⟨members, rfl, hgiven⟩ | ⟨items, rfl, hgiven⟩
  · obtain ⟨found, hfound, hgiven⟩ := Option.bind_eq_some_iff.1 hgiven
    obtain rfl := Option.some.inj hgiven
    obtain ⟨before, after, rfl⟩ := Record.exists_of_declared? hfound he
    exact .inl ⟨before, after, rfl⟩
  · rw [Record.ofArray?] at hgiven
    split at hgiven
    · cases hgiven
    · obtain rfl := Option.some.inj hgiven
      cases items with
      | nil => cases he
      | cons item items =>
          obtain rfl := Option.some.inj he
          exact .inr ⟨items, rfl⟩

theorem conceal_object (before after : List (Option String × Document)) (id : String) :
    (object before after id).conceal = (object before after Redaction.mark).conceal := by
  have hsecret : Redaction.isSecret "api-session" = true := by decide
  rw [object, object, Document.conceal, Document.conceal, Document.concealMembers_append,
    Document.concealMembers_append, Document.concealMembers_secret hsecret,
    Document.concealMembers_secret hsecret]

/-- Whether the answer has a value does not depend on the id. -/
theorem exists_value_object {depth : Nat} {before after : List (Option String × Document)}
    {id : String} {v : Json} (h : (object before after id).value? depth = some v)
    (other : String) : ∃ w, (object before after other).value? depth = some w := by
  have hmembers : ∀ {depth entries} (front : List (Option String × Document)),
      Document.memberValues? depth (front ++ (some "api-session", .string (some id)) :: after) =
        some entries → ∃ others, Document.memberValues? depth
          (front ++ (some "api-session", .string (some other)) :: after) = some others := by
    intro depth entries front hfront
    induction front generalizing entries with
    | nil =>
        obtain ⟨entries, hafter, -⟩ := Option.bind_eq_some_iff.1 hfront
        rw [List.nil_append, Document.memberValues?, hafter]
        exact ⟨_, rfl⟩
    | cons member front ih =>
        obtain ⟨name, d⟩ := member
        obtain ⟨name, rfl, hrest⟩ := Option.bind_eq_some_iff.1 hfront
        obtain ⟨w, hw, hrest⟩ := Option.bind_eq_some_iff.1 hrest
        obtain ⟨entries, hentries, -⟩ := Option.bind_eq_some_iff.1 hrest
        obtain ⟨others, hothers⟩ := ih hentries
        rw [List.cons_append, Document.memberValues?, hw, hothers]
        exact ⟨_, rfl⟩
  rw [object, Document.value?] at h ⊢
  split at h
  · cases h
  · next hdepth =>
      obtain ⟨entries, hentries, -⟩ := Option.map_eq_some_iff.1 h
      obtain ⟨others, hothers⟩ := hmembers before hentries
      rw [if_neg hdepth, hothers]
      exact ⟨_, rfl⟩

end LogonData

theorem Logon.read?_of_opened {r : Response} {data : LogonData} (h : Logon.opened r = .ok data) :
    ∃ d, Document.read? r.body = some d ∧ LogonData.codec.read? d = some data := by
  have hdocument : r.document LogonData.codec [200, 201] = .ok data := by
    unfold Logon.opened at h
    cases hdocument : r.document LogonData.codec [200, 201] with
    | error failure => rw [hdocument] at h; cases h
    | ok found =>
        rw [hdocument] at h
        change (if found.sessionId.isEmpty then _ else _) = _ at h
        split at h
        · cases h
        · exact h
  unfold Response.document at hdocument
  split at hdocument
  · cases hdocument
  · split at hdocument
    · cases hdocument
    · split at hdocument
      · next found hfound =>
          obtain rfl := Except.ok.inj hdocument
          exact Option.bind_eq_some_iff.1 hfound
      · cases hdocument

namespace Dump

theorem isEmpty_of_read? {body : List UInt8} {d : Document} (h : Document.read? body = some d) :
    body.isEmpty = false := by
  cases body with
  | nil => cases h
  | cons b rest => rfl

/-- A document that has a value is shown as that value with its secrets hidden. -/
theorem responseBody_of_value {body : List UInt8} {d : Document} {v : Json}
    (h : Document.read? body = some d) (hv : d.value? Document.maxDepth = some v) :
    responseBody body = (Redaction.redact v).render ++ "\n" := by
  have hread : Json.read? body = some v := by rw [Json.read?, h]; exact hv
  rw [responseBody, isEmpty_of_read? h, if_neg Bool.false_ne_true, hread]

theorem responseBody_of_no_value {body : List UInt8} {d : Document}
    (h : Document.read? body = some d) (hv : d.value? Document.maxDepth = none) :
    responseBody body = Utf8.decodeLossy body ++ "\n" := by
  have hread : Json.read? body = none := by rw [Json.read?, h]; exact hv
  rw [responseBody, isEmpty_of_read? h, if_neg Bool.false_ne_true, hread]

/-- Documents that have values and differ in nothing but their secrets are shown alike. -/
theorem responseBody_congr {body other : List UInt8} {d e : Document} {v w : Json}
    (hd : Document.read? body = some d) (hv : d.value? Document.maxDepth = some v)
    (he : Document.read? other = some e) (hw : e.value? Document.maxDepth = some w)
    (h : d.conceal = e.conceal) : responseBody body = responseBody other := by
  have hshown : Redaction.redact v = Redaction.redact w := by
    have hvalue := Document.value?_conceal hv
    rw [h, Document.value?_conceal hw] at hvalue
    exact (Option.some.inj hvalue).symm
  rw [responseBody_of_value hd hv, responseBody_of_value he hw, hshown]

/-- The three ways in which the answer to a logon is shown. -/
inductive Shows (status : Nat) (hs : Headers) (data : LogonData) (body : List UInt8) : Prop where
  /-- An object that has a value: any other id in its place is shown alike. -/
  | hidden (before after : List (Option String × Document))
      (hread : Document.read? body = some (LogonData.object before after data.sessionId))
      (hsame : ∀ other id, Document.read? other = some (LogonData.object before after id) →
        response status hs other = response status hs body)
  /-- An array that has a value: the id is its first item. -/
  | listed (items : List Json)
      (hread : Json.read? body = some (.array (.string data.sessionId :: items)))
      (hbody : responseBody body =
        (Json.array (.string data.sessionId :: Redaction.redactItems items)).render ++ "\n")
  /-- A document without a value: all of it is shown. -/
  | raw (hread : Json.read? body = none)
      (hbody : responseBody body = Utf8.decodeLossy body ++ "\n")

theorem shows_of_opened {r : Response} {data : LogonData} (h : Logon.opened r = .ok data)
    (hs : Headers) : Shows r.status hs data r.body := by
  obtain ⟨d, hread, hdata⟩ := Logon.read?_of_opened h
  have hjson : Json.read? r.body = d.value? Document.maxDepth := by
    rw [Json.read?, hread]
    rfl
  cases hvalue : d.value? Document.maxDepth with
  | none => exact .raw (hjson.trans hvalue) (responseBody_of_no_value hread hvalue)
  | some v =>
      have hbody := responseBody_of_value hread hvalue
      rcases LogonData.of_read? hdata with ⟨before, after, rfl⟩ | ⟨items, rfl⟩
      · refine .hidden before after hread fun other id hother => ?_
        obtain ⟨w, hw⟩ := LogonData.exists_value_object hvalue id
        have hconceal : (LogonData.object before after id).conceal =
            (LogonData.object before after data.sessionId).conceal := by
          rw [LogonData.conceal_object, LogonData.conceal_object before after data.sessionId]
        rw [response, response, responseBody_congr hother hw hread hvalue hconceal]
      · have hitems := hvalue
        rw [Document.value?, if_neg (by decide), Option.map_eq_some_iff] at hitems
        obtain ⟨vs, hvs, rfl⟩ := hitems
        obtain ⟨rest, -, hvs⟩ := Option.bind_eq_some_iff.1 hvs
        obtain rfl := Option.some.inj hvs
        exact .listed rest (hjson.trans hvalue) hbody

theorem shows_of_opened_members :
    let r : Response := ⟨200, Utf8.encode "\x7b\"api-session\": \"T1\", \"since\": [7]\x7d"⟩
    let data : LogonData := ⟨"T1", "", "", none, none, none⟩
    Logon.opened r = .ok data ∧ Shows r.status [] data r.body := by
  intro r data
  have hdata : (Logon.opened r).toOption = some data := by decide +kernel
  have h : Logon.opened r = .ok data := by
    cases hopened : Logon.opened r with
    | error failure => rw [hopened] at hdata; cases hdata
    | ok found => rw [hopened] at hdata; exact congrArg Except.ok (Option.some.inj hdata)
  exact ⟨h, shows_of_opened h []⟩

/-- An array opens a session like an object does, and its dump tells which. -/
theorem array_opened_and_shown :
    let body (id : String) := Utf8.encode ("[\"" ++ id ++ "\"]")
    Logon.opened ⟨200, body "T1"⟩ = .ok ⟨"T1", "", "", none, none, none⟩ ∧
      Logon.opened ⟨200, body "T2"⟩ = .ok ⟨"T2", "", "", none, none, none⟩ ∧
      response 200 [] (body "T1") ≠ response 200 [] (body "T2") := by
  refine ⟨rfl, rfl, ?_⟩
  decide +kernel

end Dump

end HmcClient
