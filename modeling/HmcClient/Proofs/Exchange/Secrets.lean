import HmcClient.Exchange.Dump
import HmcClient.Proofs.Exchange.Redaction
import Mathlib.Data.List.Forall2

/-!
# What the dump of a request hides

A dump hides three things: what stands under a secret name, at any depth of the document that is
sent, the bytes of a raw body, and the value of the session header. That it hides them is a
statement about two requests. If nothing but these differs, the two dumps are one text, so no part
of a secret can be told from it.

That it hides nothing else is the converse. Two documents with one redaction are alike
(`redact_eq_iff`), and redaction leaves alone all that is not below a secret name: a place in a
document is named by the way to it, and unless the way leads through a secret name, what is found
there afterwards is the redaction of what was there (`at?_redact`), which looks the same from
outside.
-/

namespace HmcClient

/-! ## Documents -/

namespace Redaction

mutual

/-- Whether two documents differ only in what stands under secret names. -/
inductive Alike : Json → Json → Prop
  | null : Alike .null .null
  | bool (b : Bool) : Alike (.bool b) (.bool b)
  | number (n : Number) : Alike (.number n) (.number n)
  | string (s : String) : Alike (.string s) (.string s)
  | array {vs ws : List Json} (items : ItemsAlike vs ws) : Alike (.array vs) (.array ws)
  | object {ms ns : Members} (members : MembersAlike ms ns) : Alike (.object ms) (.object ns)

inductive ItemsAlike : List Json → List Json → Prop
  | nil : ItemsAlike [] []
  | cons {v w : Json} {vs ws : List Json} (head : Alike v w) (rest : ItemsAlike vs ws) :
      ItemsAlike (v :: vs) (w :: ws)

/-- The members of two objects, one by one. They have the same names, and any values under a secret
one. -/
inductive MembersAlike : Members → Members → Prop
  | nil : MembersAlike [] []
  | secret {name : String} (hsecret : isSecret name = true) (v w : Json) {ms ns : Members}
      (rest : MembersAlike ms ns) : MembersAlike ((name, v) :: ms) ((name, w) :: ns)
  | plain (name : String) {v w : Json} {ms ns : Members} (value : Alike v w)
      (rest : MembersAlike ms ns) : MembersAlike ((name, v) :: ms) ((name, w) :: ns)

end

mutual

theorem redact_eq_of_alike {v w : Json} (h : Alike v w) : redact v = redact w := by
  cases h with
  | null | bool | number | string => rfl
  | array items => rw [redact, redact, redactItems_eq_of_alike items]
  | object members => rw [redact, redact, redactMembers_eq_of_alike members]

theorem redactItems_eq_of_alike {vs ws : List Json} (h : ItemsAlike vs ws) :
    redactItems vs = redactItems ws := by
  cases h with
  | nil => rfl
  | cons head rest =>
      rw [redactItems, redactItems, redact_eq_of_alike head, redactItems_eq_of_alike rest]

theorem redactMembers_eq_of_alike {ms ns : Members} (h : MembersAlike ms ns) :
    redactMembers ms = redactMembers ns := by
  cases h with
  | nil => rfl
  | secret hsecret v w rest =>
      rw [redactMembers, redactMembers, if_pos hsecret, if_pos hsecret,
        redactMembers_eq_of_alike rest]
  | plain name value rest =>
      rw [redactMembers, redactMembers, redact_eq_of_alike value, redactMembers_eq_of_alike rest]

end

mutual

theorem alike_of_redact_eq {v w : Json} (h : redact v = redact w) : Alike v w := by
  -- Redaction keeps the kind of a document, so only pairs of one kind are left.
  match v, w with
  | .array vs, .array ws =>
      rw [redact, redact, Json.array.injEq] at h
      exact .array (itemsAlike_of_redact_eq h)
  | .object ms, .object ns =>
      rw [redact, redact, Json.object.injEq] at h
      exact .object (membersAlike_of_redact_eq h)
  | .null, w =>
      cases w <;> cases h
      exact .null
  | .bool b, w =>
      cases w <;> cases h
      exact .bool _
  | .number n, w =>
      cases w <;> cases h
      exact .number _
  | .string s, w =>
      cases w <;> cases h
      exact .string _

theorem itemsAlike_of_redact_eq {vs ws : List Json} (h : redactItems vs = redactItems ws) :
    ItemsAlike vs ws := by
  match vs, ws with
  | [], [] => exact .nil
  | v :: vs, w :: ws =>
      rw [redactItems, redactItems, List.cons.injEq] at h
      exact .cons (alike_of_redact_eq h.1) (itemsAlike_of_redact_eq h.2)

theorem membersAlike_of_redact_eq {ms ns : Members} (h : redactMembers ms = redactMembers ns) :
    MembersAlike ms ns := by
  match ms, ns with
  | [], [] => exact .nil
  | (name, v) :: ms, (other, w) :: ns =>
      rw [redactMembers, redactMembers, List.cons.injEq, Prod.mk.injEq] at h
      obtain ⟨⟨rfl, hvalue⟩, hrest⟩ := h
      -- Under a secret name both sides show the mark, and `hvalue` says nothing of the values.
      by_cases hsecret : isSecret name = true
      · exact .secret hsecret v w (membersAlike_of_redact_eq hrest)
      · rw [if_neg hsecret, if_neg hsecret] at hvalue
        exact .plain name (alike_of_redact_eq hvalue) (membersAlike_of_redact_eq hrest)

end

theorem redact_eq_iff {v w : Json} : redact v = redact w ↔ Alike v w :=
  ⟨alike_of_redact_eq, redact_eq_of_alike⟩

mutual

/-- Whether no member of a document has a secret name. -/
def Secretless : Json → Prop
  | .array items => ItemsSecretless items
  | .object members => MembersSecretless members
  | .null | .bool _ | .number _ | .string _ => True

def ItemsSecretless : List Json → Prop
  | [] => True
  | v :: rest => Secretless v ∧ ItemsSecretless rest

def MembersSecretless : Members → Prop
  | [] => True
  | (name, v) :: rest => isSecret name = false ∧ Secretless v ∧ MembersSecretless rest

end

mutual

theorem redact_of_secretless {v : Json} (h : Secretless v) : redact v = v := by
  match v with
  | .array items => rw [redact, redactItems_of_secretless h]
  | .object members => rw [redact, redactMembers_of_secretless h]
  | .null | .bool _ | .number _ | .string _ => rfl

theorem redactItems_of_secretless {items : List Json} (h : ItemsSecretless items) :
    redactItems items = items := by
  match items with
  | [] => rfl
  | v :: rest => rw [redactItems, redact_of_secretless h.1, redactItems_of_secretless h.2]

theorem redactMembers_of_secretless {members : Members} (h : MembersSecretless members) :
    redactMembers members = members := by
  match members with
  | [] => rfl
  | (name, v) :: rest =>
      obtain ⟨hname, hv, hrest⟩ := h
      rw [redactMembers, hname, if_neg Bool.false_ne_true, redact_of_secretless hv,
        redactMembers_of_secretless hrest]

end

mutual

theorem redact_alike (v : Json) : Alike (redact v) v := by
  match v with
  | .array items => exact .array (redactItems_alike items)
  | .object members => exact .object (redactMembers_alike members)
  | .null => exact .null
  | .bool b => exact .bool b
  | .number n => exact .number n
  | .string s => exact .string s

theorem redactItems_alike (items : List Json) : ItemsAlike (redactItems items) items := by
  match items with
  | [] => exact .nil
  | v :: rest => exact .cons (redact_alike v) (redactItems_alike rest)

theorem redactMembers_alike (members : Members) :
    MembersAlike (redactMembers members) members := by
  match members with
  | [] => exact .nil
  | (name, v) :: rest =>
      rw [redactMembers]
      by_cases hsecret : isSecret name = true
      · exact .secret hsecret _ v (redactMembers_alike rest)
      · rw [if_neg hsecret]
        exact .plain name (redact_alike v) (redactMembers_alike rest)

end

theorem redact_redact (v : Json) : redact (redact v) = redact v :=
  redact_eq_of_alike (redact_alike v)

theorem redactItems_eq_map (items : List Json) : redactItems items = items.map redact := by
  induction items with
  | nil => rfl
  | cons v rest ih => rw [redactItems, ih, List.map_cons]

theorem redactMembers_eq_map (members : Members) :
    redactMembers members = members.map fun m => (m.1, shown m.1 m.2) := by
  induction members with
  | nil => rfl
  | cons member rest ih => rw [redactMembers_cons, ih, List.map_cons]

theorem get?_redactMembers (members : Members) (name : String) :
    Members.get? (redactMembers members) name = (Members.get? members name).map (shown name) := by
  induction members with
  | nil => rfl
  | cons member rest ih =>
      obtain ⟨other, v⟩ := member
      simp only [redactMembers_cons, Members.get?, List.lookup_cons]
      cases h : name == other with
      | true =>
          obtain rfl := beq_iff_eq.mp h
          rfl
      | false => exact ih

end Redaction

/-! ## Places in a document -/

namespace Json

/-- A step into a document: to an item of an array or to a member of an object. -/
inductive Step where
  | item (index : Nat)
  | member (name : String)

def Step.isSecret : Step → Bool
  | item _ => false
  | member name => Redaction.isSecret name

def child? : Json → Step → Option Json
  | .array items, .item index => items[index]?
  | .object members, .member name => Members.get? members name
  | _, _ => none

/-- What is found at the end of a way. -/
def at? (v : Json) : List Step → Option Json
  | [] => some v
  | step :: way => (v.child? step).bind fun w => at? w way

/-- What a document looks like from outside: a scalar as such, an array by its length and an object
by the names of its members. -/
inductive Face where
  | null
  | bool (b : Bool)
  | number (n : Number)
  | string (s : String)
  | array (length : Nat)
  | object (names : List String)

def face : Json → Face
  | .null => .null
  | .bool b => .bool b
  | .number n => .number n
  | .string s => .string s
  | .array items => .array items.length
  | .object members => .object (members.map (·.1))

end Json

namespace Redaction

open Json (Step)

theorem face_redact (v : Json) : (redact v).face = v.face := by
  match v with
  | .array items => rw [redact, redactItems_eq_map, Json.face, List.length_map, Json.face]
  | .object members =>
      rw [redact, redactMembers_eq_map, Json.face, List.map_map, Json.face]
      rfl
  | .null | .bool _ | .number _ | .string _ => rfl

/-- What a step leads to in a redacted document. -/
def seen (step : Step) (v : Json) : Json := if step.isSecret then .string mark else redact v

theorem child?_redact (v : Json) (step : Step) :
    (redact v).child? step = (v.child? step).map (seen step) := by
  match v, step with
  | .array items, .item index =>
      rw [redact, redactItems_eq_map]
      exact List.getElem?_map
  | .object members, .member name => exact get?_redactMembers members name
  | .array _, .member _ | .object _, .item _ => rfl
  | .null, _ | .bool _, _ | .number _, _ | .string _, _ => rfl

/-- At the end of a way without secrets stands the redaction of what was there. -/
theorem at?_redact {way : List Step} (h : ∀ step ∈ way, step.isSecret = false) (v : Json) :
    (redact v).at? way = (v.at? way).map redact := by
  induction way generalizing v with
  | nil => rfl
  | cons step way ih =>
      obtain ⟨hstep, hway⟩ := List.forall_mem_cons.mp h
      have hseen : seen step = redact := funext fun _ => if_neg (Bool.not_eq_true _ ▸ hstep)
      rw [Json.at?, Json.at?, child?_redact, hseen]
      cases v.child? step with
      | none => rfl
      | some w => exact ih hway w

theorem at?_append (v : Json) (way more : List Step) :
    v.at? (way ++ more) = (v.at? way).bind (·.at? more) := by
  induction way generalizing v with
  | nil => rfl
  | cons step way ih =>
      rw [List.cons_append, Json.at?, Json.at?]
      cases v.child? step with
      | none => rfl
      | some w => exact ih w

/-- A secret itself is still there, and is the mark. -/
theorem at?_redact_secret {way : List Step} (h : ∀ step ∈ way, step.isSecret = false)
    {last : Step} (hlast : last.isSecret = true) (v : Json) :
    (redact v).at? (way ++ [last]) = (v.at? (way ++ [last])).map fun _ => .string mark := by
  have hseen : seen last = fun _ => .string mark := funext fun _ => if_pos hlast
  rw [at?_append, at?_append, at?_redact h]
  cases v.at? way with
  | none => rfl
  | some w =>
      simp only [Option.map_some, Option.bind_some, Json.at?, child?_redact, hseen]
      cases w.child? last <;> rfl

theorem face_at?_redact {way : List Step} (h : ∀ step ∈ way, step.isSecret = false) (v : Json) :
    ((redact v).at? way).map Json.face = (v.at? way).map Json.face := by
  rw [at?_redact h, Option.map_map]
  exact congrArg (fun f => (v.at? way).map f) (funext face_redact)

theorem face_at?_eq_of_redact_eq {v w : Json} (h : redact v = redact w) {way : List Step}
    (hway : ∀ step ∈ way, step.isSecret = false) :
    (v.at? way).map Json.face = (w.at? way).map Json.face := by
  rw [← face_at?_redact hway v, h, face_at?_redact hway w]

end Redaction

/-! ## Requests -/

/-- Whether two bodies differ only in secrets: in values under secret names, or in the bytes of a
raw body. -/
inductive Body.Alike : Body → Body → Prop
  | empty : Alike .empty .empty
  | json {v w : Json} (value : Redaction.Alike v w) : Alike (.json v) (.json w)
  | raw {bytes others : List UInt8} (length : bytes.length = others.length) :
      Alike (.raw bytes) (.raw others)

/-- Whether two requests differ only in secrets of their bodies. -/
structure Request.Alike (r q : Request) : Prop where
  method : r.method = q.method
  url : r.url = q.url
  body : r.body.Alike q.body

/-- Whether two header fields have one name and, but for the session, one value. -/
structure Header.Alike (h k : Header) : Prop where
  name : h.name = k.name
  value : h.name ≠ Header.sessionName → h.value = k.value

def Headers.Alike (hs ks : Headers) : Prop := List.Forall₂ Header.Alike hs ks

namespace Dump

def headerLine (h : Header) : String :=
  let shown := if h.name == Header.sessionName then Redaction.mark else h.text?.getD "<binary>"
  h.name ++ ": " ++ shown ++ "\r\n"

theorem headerLine_eq_of_alike {h k : Header} (hk : h.Alike k) : headerLine h = headerLine k := by
  simp only [headerLine, ← hk.name]
  by_cases hsession : h.name = Header.sessionName
  · simp only [beq_iff_eq.mpr hsession, if_true]
  · simp only [Header.text?, hk.value hsession]

theorem names_eq_of_alike {hs ks : Headers} (h : hs.Alike ks) : hs.names = ks.names := by
  have hnames : hs.map (·.name) = ks.map (·.name) := by
    induction h with
    | nil => rfl
    | cons head rest ih => rw [List.map_cons, List.map_cons, head.name, ih]
  rw [Headers.names, Headers.names, hnames]

theorem lines_eq_of_alike {hs ks : Headers} (h : hs.Alike ks) (name : String) :
    (hs.filter (·.name == name)).map headerLine = (ks.filter (·.name == name)).map headerLine := by
  induction h with
  | nil => rfl
  | @cons h k hs ks head rest ih =>
      rw [List.filter_cons, List.filter_cons, head.name]
      split
      · rw [List.map_cons, List.map_cons, headerLine_eq_of_alike head, ih]
      · exact ih

theorem headerLines_eq_of_alike {hs ks : Headers} (h : hs.Alike ks) :
    headerLines hs = headerLines ks := by
  show String.join (hs.grouped.map headerLine) = String.join (ks.grouped.map headerLine)
  -- The fields are grouped by their names, which are the same, so it is enough to compare groups.
  rw [Headers.grouped, Headers.grouped, List.map_flatMap, List.map_flatMap, names_eq_of_alike h]
  simp only [lines_eq_of_alike h]

theorem requestBody_eq_of_alike {b c : Body} (h : b.Alike c) : requestBody b = requestBody c := by
  cases h with
  | empty => rfl
  | json value => rw [requestBody, requestBody, Redaction.redact_eq_of_alike value]
  | raw length => rw [requestBody, requestBody, length]

theorem request_eq_of_alike {r q : Request} {hs ks : Headers} (h : r.Alike q)
    (hheaders : hs.Alike ks) : request r hs = request q ks := by
  rw [request, request, h.method, h.url, headerLines_eq_of_alike hheaders,
    requestBody_eq_of_alike h.body]

/-! ## The whole -/

open Redaction in
/-- What the dump of a request hides, and that it hides nothing else. -/
structure HidesOnlySecrets : Prop where
  /-- Requests and headers that differ only in secrets have one dump. -/
  dump : ∀ r q : Request, r.Alike q → ∀ hs ks : Headers, hs.Alike ks → request r hs = request q ks
  /-- Documents have one redaction exactly if they differ only in secrets. -/
  documents : ∀ v w, redact v = redact w ↔ Alike v w
  /-- To redact twice is to redact once. -/
  twice : ∀ v, redact (redact v) = redact v
  /-- A document without secret names is left as it is. -/
  secretless : ∀ v, Secretless v → redact v = v
  /-- What is not below a secret name is found where it was, and looks as it did: a scalar is the
  same, an array is as long, and an object has the same members. -/
  kept : ∀ v (way : List Json.Step), (∀ step ∈ way, step.isSecret = false) →
    (redact v).at? way = (v.at? way).map redact ∧
      ((redact v).at? way).map Json.face = (v.at? way).map Json.face
  /-- What a secret name holds, if there is such a member, is the mark. -/
  marked : ∀ v (way : List Json.Step), (∀ step ∈ way, step.isSecret = false) →
    ∀ last : Json.Step, last.isSecret = true →
      (redact v).at? (way ++ [last]) = (v.at? (way ++ [last])).map fun _ => .string mark
  /-- Documents with one redaction look the same everywhere outside their secrets. -/
  agree : ∀ v w, redact v = redact w → ∀ way : List Json.Step,
    (∀ step ∈ way, step.isSecret = false) →
      (v.at? way).map Json.face = (w.at? way).map Json.face

theorem request_hides_only_secrets : HidesOnlySecrets where
  dump _ _ h _ _ hheaders := request_eq_of_alike h hheaders
  documents _ _ := Redaction.redact_eq_iff
  twice := Redaction.redact_redact
  secretless _ h := Redaction.redact_of_secretless h
  kept v _ h := ⟨Redaction.at?_redact h v, Redaction.face_at?_redact h v⟩
  marked v _ h _ hlast := Redaction.at?_redact_secret h hlast v
  agree _ _ h _ hway := Redaction.face_at?_eq_of_redact_eq h hway

/-- A request that holds a password in an array and anything below the name of a session. -/
def Sample.nested (password : String) (session : Json) : Request :=
  (Request.post ⟨"https", "", none, some (.name "hmc"), none, .segments ["x"], none, none⟩).withJson
    (.object [("api-session", session),
      ("users", .array [.object [("password", .string password)], .object [("name", .nat 1)]])])

/-- Neither the password nor what stands below the name of a session, nor the session itself, can be
told from the dump. -/
theorem request_hides_nested_secrets :
    request (Sample.nested "s3cret" .null) [.ofText "x-api-session" "T1"] =
      request (Sample.nested "n3w" (.array [.object [("name", .nat 2)]]))
        [.ofText "x-api-session" "T2"] := by
  refine request_hides_only_secrets.dump _ _ ⟨rfl, rfl, .json (.object ?_)⟩ _ _
    (.cons ⟨rfl, fun h => absurd rfl h⟩ .nil)
  exact .secret (by decide) _ _ (.plain _ (.array (.cons (.object (.secret (by decide) _ _ .nil))
    (.cons (.object (.plain _ (.number _) .nil)) .nil))) .nil)

end Dump

end HmcClient
