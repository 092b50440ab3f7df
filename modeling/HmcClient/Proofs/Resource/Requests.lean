import HmcClient.Proofs.Json.Keeping
import HmcClient.Resource.Adapter
import HmcClient.Resource.Nic
import HmcClient.Resource.Partition
import HmcClient.Resource.StorageGroup

/-!
# What requests ask for

A document that creates or changes something is written from a value of named fields. A field that
is set becomes a member, a field that is not set becomes none. Only changes of a partition may bring
members of their own, and these take the place of fields of the same name.

The fields of each type are listed here with what they ask for. Each document is shown to be written
along its list (`RequestType.writes_fields`); what then stands under a name is the same argument for
all of them.
-/

namespace HmcClient

/-! ## What fields ask for -/

/-- Which values stand for what is meant. -/
abbrev Meaning := Json → Prop

/-- Fields under the names that the console gives them, each with what it means if it is set. -/
abbrev Fields := List (String × Option Meaning)

/-- Whether members tell what fields mean, and beside that what extra members tell. -/
structure Tells (fields : Fields) (extra members : Members) : Prop where
  /-- No name stands twice. -/
  once : (members.map Prod.fst).Nodup
  /-- A field that is set has its value, unless an extra member has its name. -/
  set : ∀ name meaning, (name, some meaning) ∈ fields → extra.get? name = none →
    ∃ v, members.get? name = some v ∧ meaning v
  /-- A field that is not set has no member, unless an extra member has its name. -/
  unset : ∀ name, (name, none) ∈ fields → extra.get? name = none → members.get? name = none
  /-- The extra members stand as they are. -/
  added : ∀ name v, extra.get? name = some v → members.get? name = some v
  /-- Whatever stands under the name of no extra member is a field that is set. -/
  nothingElse : ∀ name v, members.get? name = some v → extra.get? name = none →
    ∃ meaning, (name, some meaning) ∈ fields

namespace Meaning

/-- A text. -/
def text (s : String) : Meaning := fun v => v = .string s

/-- A natural number. -/
def number (n : Nat) : Meaning := fun v => v = .number (.integer n)

/-- A truth value. -/
def flag (b : Bool) : Meaning := fun v => v = .bool b

/-- A number of gibibytes. What is no finite number means nothing. -/
def size (x : Binary64) : Meaning := fun v => x.isFinite = true → v = .number (.float x)

/-- Several things in their order. -/
def items (meanings : List Meaning) : Meaning := fun v =>
  ∃ values, v = .array values ∧ List.Forall₂ (fun meaning v => meaning v) meanings values

/-- Fields and nothing else. -/
def object (fields : Fields) : Meaning := fun v =>
  ∃ members, v = .object members ∧ Tells fields [] members

@[simp]
theorem text_string (s : String) : text s (.string s) := rfl

@[simp]
theorem number_nat (n : Nat) : number n (.nat n) := rfl

@[simp]
theorem flag_bool (b : Bool) : flag b (.bool b) := rfl

@[simp]
theorem size_ofBinary64 (x : Binary64) : size x (.ofBinary64 x) := fun hfinite => if_pos hfinite

theorem items_map {α : Type} {means : α → Meaning} {write : α → Json} {items : List α}
    (h : ∀ a ∈ items, means a (write a)) :
    Meaning.items (items.map means) (.array (items.map write)) :=
  ⟨_, rfl, List.forall₂_map_left_iff.2 (List.forall₂_map_right_iff.2 (List.forall₂_same.2 h))⟩

end Meaning

/-- Whether entries are written along fields: one for each field that is set, in the same order. -/
inductive Writes : Fields → List (String × Json) → Prop where
  | nil : Writes [] []
  | set {name : String} {meaning : Meaning} {v : Json} {fields : Fields}
      {entries : List (String × Json)} (h : meaning v) (rest : Writes fields entries) :
      Writes ((name, some meaning) :: fields) ((name, v) :: entries)
  | unset {name : String} {fields : Fields} {entries : List (String × Json)}
      (rest : Writes fields entries) : Writes ((name, none) :: fields) entries

namespace Writes

variable {fields : Fields} {entries : List (String × Json)} {extra : Members} {name : String}

theorem sublist (h : Writes fields entries) :
    (entries.map Prod.fst).Sublist (fields.map Prod.fst) := by
  induction h with
  | nil => exact .slnil
  | set _ _ ih => exact ih.cons_cons _
  | unset _ ih => exact ih.cons _

theorem mem_of_set (h : Writes fields entries) {meaning : Meaning}
    (hset : (name, some meaning) ∈ fields) : ∃ v, (name, v) ∈ entries ∧ meaning v := by
  induction h with
  | nil => cases hset
  | set hv _ ih =>
      rcases List.mem_cons.1 hset with heq | hset
      · cases heq
        exact ⟨_, List.mem_cons_self, hv⟩
      · obtain ⟨v, hmem, hmeaning⟩ := ih hset
        exact ⟨v, List.mem_cons_of_mem _ hmem, hmeaning⟩
  | unset _ ih =>
      rcases List.mem_cons.1 hset with heq | hset
      · cases heq
      · exact ih hset

theorem set_of_mem (h : Writes fields entries) {v : Json} (hmem : (name, v) ∈ entries) :
    ∃ meaning, (name, some meaning) ∈ fields := by
  induction h with
  | nil => cases hmem
  | set _ _ ih =>
      rcases List.mem_cons.1 hmem with heq | hmem
      · cases heq
        exact ⟨_, List.mem_cons_self⟩
      · exact (ih hmem).imp fun _ => List.mem_cons_of_mem _
  | unset _ ih => exact (ih hmem).imp fun _ => List.mem_cons_of_mem _

/-- Under the name of a field that is not set nothing is written: the name is that of no other
field. -/
theorem lookup_of_unset (h : Writes fields entries) (hnames : (fields.map Prod.fst).Nodup)
    (hunset : (name, none) ∈ fields) : entries.lookup name = none := by
  cases hlookup : entries.lookup name with
  | none => rfl
  | some v =>
      obtain ⟨meaning, hset⟩ := h.set_of_mem (Members.mem_of_lookup hlookup)
      cases List.inj_on_of_nodup_map hnames hset hunset rfl

/-- What is written along fields, and extra members after it, tells what is asked for. -/
theorem tells (h : Writes fields entries) (hnames : (fields.map Prod.fst).Nodup)
    (hextra : extra.Ascending) : Tells fields extra (Members.ofList (entries ++ extra)) := by
  have hentries : (entries.map Prod.fst).Nodup := h.sublist.nodup hnames
  have hget := Members.get?_ofList_append hentries hextra
  exact {
    once := (Members.ascending_ofList _).nodup
    set := fun name meaning hset hnone => by
      obtain ⟨v, hmem, hv⟩ := h.mem_of_set hset
      exact ⟨v, by rw [hget, hnone, Option.none_or, Members.lookup_of_mem hentries hmem], hv⟩
    unset := fun name hunset hnone => by
      rw [hget, hnone, Option.none_or, h.lookup_of_unset hnames hunset]
    added := fun name v hv => by rw [hget, hv, Option.some_or]
    nothingElse := fun name v hv hnone => by
      rw [hget, hnone, Option.none_or] at hv
      exact h.set_of_mem (Members.mem_of_lookup hv) }

/-- Without extra members. -/
theorem object_tells (h : Writes fields entries) (hnames : (fields.map Prod.fst).Nodup) :
    Meaning.object fields (.ofEntries entries) := by
  have htells := h.tells hnames List.Pairwise.nil
  rw [List.append_nil] at htells
  exact ⟨_, rfl, htells⟩

/-! How the entries of the documents are made up. -/

@[simp]
theorem nil_iff : Writes [] entries ↔ entries = [] := by
  constructor
  · rintro ⟨⟩
    rfl
  · rintro rfl
    exact .nil

@[simp]
theorem cons_iff {meaning : Meaning} {v : Json} :
    Writes ((name, some meaning) :: fields) ((name, v) :: entries) ↔
      meaning v ∧ Writes fields entries := by
  constructor
  · rintro ⟨⟩
    exact ⟨‹_›, ‹_›⟩
  · rintro ⟨hv, hrest⟩
    exact .set hv hrest

@[simp]
theorem unset_iff : Writes ((name, none) :: fields) entries ↔ Writes fields entries := by
  constructor
  · rintro ⟨⟩
    assumption
  · exact .unset

@[simp]
theorem memberOf_append_iff {α : Type} {o : Option α} {means : α → Meaning} {write : α → Json} :
    Writes ((name, o.map means) :: fields) (Json.memberOf name write o ++ entries) ↔
      (∀ a ∈ o, means a (write a)) ∧ Writes fields entries := by
  cases o with
  | none => simp [Json.memberOf]
  | some a => simp [Json.memberOf]

@[simp]
theorem memberOf_iff {α : Type} {o : Option α} {means : α → Meaning} {write : α → Json} :
    Writes [(name, o.map means)] (Json.memberOf name write o) ↔ ∀ a ∈ o, means a (write a) := by
  rw [← List.append_nil (Json.memberOf name write o), memberOf_append_iff, nil_iff]
  exact and_iff_left rfl

end Writes

/-! ## The documents -/

/-- What a request about a volume asks for. -/
def VolumeRequest.fields (v : VolumeRequest) : Fields := [
  ("operation", some (.text (match v.operation with
    | .create => "create"
    | .modify => "modify"
    | .delete => "delete"))),
  ("element-uri", v.elementUri.map .text),
  ("name", v.name.map .text),
  ("description", v.description.map .text),
  ("size", v.size.map .size),
  ("usage", v.usage.map .text)]

/-- What a list of volumes asks for; an empty one is as good as none. -/
def VolumeRequest.listed (volumes : List VolumeRequest) : Option Meaning :=
  if volumes.isEmpty then none else some (.items (volumes.map fun v => .object v.fields))

theorem VolumeRequest.names_nodup (v : VolumeRequest) : (v.fields.map Prod.fst).Nodup := by
  simp only [fields, List.map_cons, List.map_nil]
  decide

theorem VolumeRequest.object_body (v : VolumeRequest) : Meaning.object v.fields v.body := by
  have hword : Meaning.text (match v.operation with
      | .create => "create"
      | .modify => "modify"
      | .delete => "delete") (.string v.operation.render) := by
    cases v.operation <;> rfl
  exact Writes.object_tells (by simp [fields, hword]) v.names_nodup

@[simp]
theorem VolumeRequest.writes_listed (volumes : List VolumeRequest) :
    Writes [("storage-volumes", listed volumes)] (members volumes) := by
  cases volumes with
  | nil => exact .unset .nil
  | cons v rest => exact .set (Meaning.items_map fun v _ => v.object_body) .nil

/-- What the use of a crypto domain asks for. -/
def CryptoDomain.fields (d : CryptoDomain) : Fields := [
  ("domain-index", some (.number d.index)),
  ("access-mode", some (.text d.accessMode))]

theorem CryptoDomain.object_encode (d : CryptoDomain) :
    Meaning.object d.fields (codec.encode d) := by
  have hwrites : Writes d.fields
      [("domain-index", .nat d.index), ("access-mode", .string d.accessMode)] := by
    simp [fields]
  exact hwrites.object_tells (by decide : ["domain-index", "access-mode"].Nodup)

/-- The types that are written as the documents of requests. -/
inductive RequestType where
  | partitionCreate
  | partitionUpdate
  | nicCreate
  | nicUpdate
  | hipersocketCreate
  | storageGroupCreate
  | storageGroupModify
  | cryptoConfig
  deriving DecidableEq, Repr

namespace RequestType

/-- The values of a type. -/
abbrev Value : RequestType → Type
  | partitionCreate => PartitionCreate
  | partitionUpdate => PartitionUpdate
  | nicCreate => NicCreate
  | nicUpdate => NicUpdate
  | hipersocketCreate => HipersocketCreate
  | storageGroupCreate => StorageGroupCreate
  | storageGroupModify => StorageGroupModify
  | cryptoConfig => CryptoConfig

/-- The document of a value. -/
def body : (t : RequestType) → t.Value → Json
  | partitionCreate => PartitionCreate.body
  | partitionUpdate => PartitionUpdate.body
  | nicCreate => NicCreate.body
  | nicUpdate => NicUpdate.body
  | hipersocketCreate => HipersocketCreate.body
  | storageGroupCreate => StorageGroupCreate.body
  | storageGroupModify => StorageGroupModify.body
  | cryptoConfig => CryptoConfig.codec.encode

/-- The members that a value brings of its own. -/
def extra : (t : RequestType) → t.Value → Members
  | partitionUpdate => PartitionUpdate.extra
  | partitionCreate | nicCreate | nicUpdate | hipersocketCreate | storageGroupCreate
  | storageGroupModify | cryptoConfig => fun _ => []

/-- What a value asks for. -/
def fields : (t : RequestType) → t.Value → Fields
  | partitionCreate, p => [
      ("name", some (.text p.name)),
      ("description", p.description.map .text),
      ("short-name", p.shortName.map .text),
      ("type", p.type.map .text),
      ("ifl-processors", p.iflProcessors.map .number),
      ("cp-processors", p.cpProcessors.map .number),
      ("processor-mode", p.processorMode.map .text),
      ("initial-memory", some (.number p.initialMemory)),
      ("maximum-memory", some (.number p.maximumMemory))]
  | partitionUpdate, u => [
      ("description", u.description.map .text),
      ("ifl-processors", u.iflProcessors.map .number),
      ("cp-processors", u.cpProcessors.map .number),
      ("initial-memory", u.initialMemory.map .number),
      ("maximum-memory", u.maximumMemory.map .number),
      ("boot-device", u.bootDevice.map .text),
      ("boot-iso-ins-file", u.bootIsoInsFile.map .text),
      ("boot-timeout", u.bootTimeout.map .number)]
  | nicCreate, n => [
      ("name", some (.text n.name)),
      ("description", n.description.map .text),
      ("device-number", n.deviceNumber.map .text),
      ("virtual-switch-uri", n.virtualSwitchUri.map .text),
      ("network-adapter-port-uri", n.networkAdapterPortUri.map .text)]
  | nicUpdate, u => [
      ("name", u.name.map .text),
      ("description", u.description.map .text),
      ("device-number", u.deviceNumber.map .text)]
  | hipersocketCreate, h => [
      ("name", some (.text h.name)),
      ("description", h.description.map .text),
      ("port-description", h.portDescription.map .text),
      ("maximum-transmission-unit-size", h.maximumTransmissionUnitSize.map .number)]
  | storageGroupCreate, g => [
      ("name", some (.text g.name)),
      ("cpc-uri", some (.text g.cpcUri)),
      ("type", some (.text g.type)),
      ("description", g.description.map .text),
      ("shared", g.shared.map .flag),
      ("max-partitions", g.maxPartitions.map .number),
      ("storage-volumes", VolumeRequest.listed g.volumes)]
  | storageGroupModify, m => [
      ("name", m.name.map .text),
      ("description", m.description.map .text),
      ("storage-volumes", VolumeRequest.listed m.volumes)]
  | cryptoConfig, c => [
      ("crypto-adapter-uris", some (.items (c.adapterUris.map .text))),
      ("crypto-domain-configurations",
        some (.items (c.domains.map fun d => .object d.fields)))]

theorem names_nodup (t : RequestType) (x : t.Value) : ((t.fields x).map Prod.fst).Nodup := by
  cases t
  all_goals
    simp only [fields, List.map_cons, List.map_nil]
    decide

/-- Each document is written along the fields of its value, and then brings what is extra. -/
theorem writes_fields (t : RequestType) (x : t.Value) : ∃ entries,
    t.body x = .ofEntries (entries ++ t.extra x) ∧ Writes (t.fields x) entries := by
  cases t with
  | partitionUpdate => exact ⟨_, rfl, by simp [fields]⟩
  | cryptoConfig =>
      refine ⟨[("crypto-adapter-uris", .array (x.adapterUris.map .string)),
        ("crypto-domain-configurations", .array (x.domains.map CryptoDomain.codec.encode))],
        rfl, ?_⟩
      have huris := Meaning.items_map fun (uri : String) (_ : uri ∈ x.adapterUris) =>
        Meaning.text_string uri
      have hdomains := Meaning.items_map fun (d : CryptoDomain) (_ : d ∈ x.domains) =>
        d.object_encode
      exact .set huris (.set hdomains .nil)
  | partitionCreate | nicCreate | nicUpdate | hipersocketCreate | storageGroupCreate
  | storageGroupModify =>
      refine ⟨_, congrArg Json.ofEntries (List.append_nil _).symm, ?_⟩
      simp [fields]

/-- The document of a request tells what the value asks for, whatever the request: it has a member
for each field that is set, with exactly its value, none for a field that is not set, the members
that the value brings of its own, and nothing else. Only a member that the value brings can stand in
the place of a field. -/
theorem body_tells (t : RequestType) (x : t.Value) (hextra : (t.extra x).Ascending) (r : Request) :
    ∃ members, (r.withJson (t.body x)).body = .json (.object members) ∧
      Tells (t.fields x) (t.extra x) members := by
  obtain ⟨entries, hbody, hwrites⟩ := t.writes_fields x
  refine ⟨Members.ofList (entries ++ t.extra x), ?_, hwrites.tells (t.names_nodup x) hextra⟩
  rw [hbody]
  rfl

/-- A change of where a partition boots, with a property that is no field. -/
def sampleUpdate : PartitionUpdate where
  description := none
  iflProcessors := none
  cpProcessors := none
  initialMemory := none
  maximumMemory := none
  bootDevice := some "ftp"
  bootIsoInsFile := none
  bootTimeout := some 60
  extra := [("acceptable-status", .array [.string "active"])]

/-- A request to some resource. -/
def sampleRequest : Request :=
  .post ⟨"https", "", none, some (.name "hmc"), none, .segments ["api", "p"], none, none⟩

theorem body_tells_update :
    Members.Ascending sampleUpdate.extra ∧ ∃ members : Members,
      (sampleRequest.withJson sampleUpdate.body).body = .json (.object members) ∧
        members.get? "boot-device" = some (.string "ftp") ∧
        members.get? "boot-timeout" = some (.number (.integer 60)) ∧
        members.get? "acceptable-status" = some (.array [.string "active"]) ∧
        members.get? "description" = none := by
  have hextra : Members.Ascending sampleUpdate.extra := List.pairwise_singleton ..
  obtain ⟨members, hbody, htells⟩ := body_tells partitionUpdate sampleUpdate hextra sampleRequest
  have hdevice : ("boot-device", some (.text "ftp")) ∈ fields partitionUpdate sampleUpdate := by
    simp [fields, sampleUpdate]
  have htimeout : ("boot-timeout", some (.number 60)) ∈ fields partitionUpdate sampleUpdate := by
    simp [fields, sampleUpdate]
  have hdescription : ("description", none) ∈ fields partitionUpdate sampleUpdate := by
    simp [fields, sampleUpdate]
  obtain ⟨_, hftp, rfl⟩ := htells.set _ _ hdevice rfl
  obtain ⟨_, hminute, rfl⟩ := htells.set _ _ htimeout rfl
  exact ⟨hextra, members, hbody, hftp, hminute, htells.added "acceptable-status" _ rfl,
    htells.unset _ hdescription rfl⟩

/-- A member that the value brings stands in the place of a field that is set. And a size that is no
number is null. -/
theorem field_overridden :
    PartitionUpdate.body { sampleUpdate with extra := [("boot-device", .string "none")] } =
        .object [("boot-device", .string "none"), ("boot-timeout", .number (.integer 60))] ∧
      StorageGroupModify.body ⟨none, none, [.create .nan "data"]⟩ =
        .object [("storage-volumes", .array [.object [("operation", .string "create"),
          ("size", .null), ("usage", .string "data")]])] :=
  ⟨rfl, rfl⟩

end RequestType

end HmcClient
