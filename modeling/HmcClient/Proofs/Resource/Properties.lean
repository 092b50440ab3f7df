import HmcClient.Proofs.Json.Keeping
import HmcClient.Resource.Adapter
import HmcClient.Resource.Cpc
import HmcClient.Resource.Nic
import HmcClient.Resource.Partition
import HmcClient.Resource.StorageGroup
import HmcClient.Resource.VirtualSwitch

/-!
# Properties of resources lose nothing

The types that hold all that is told of a resource keep what they do not declare. Their fields are
listed here, and each codec is shown to be made of its list. The rest is the same for all of them.
-/

namespace HmcClient

/-- The types that keep unknown properties. -/
inductive PropertiesType where
  | cpc
  | partition
  | nic
  | adapter
  | networkPort
  | storagePort
  | virtualSwitch
  | storageGroup
  | storageVolume
  deriving DecidableEq, Repr

open Json (ShownExactly ShownRounded)

namespace PropertiesType

/-- The values of a type. -/
abbrev Value : PropertiesType → Type
  | cpc => CpcProperties
  | partition => PartitionProperties
  | nic => NicProperties
  | adapter => AdapterProperties
  | networkPort => NetworkPort
  | storagePort => StoragePort
  | virtualSwitch => VirtualSwitchProperties
  | storageGroup => StorageGroupProperties
  | storageVolume => StorageVolume

/-- How a type is read and written. -/
def codec : (t : PropertiesType) → Codec t.Value
  | cpc => CpcProperties.codec
  | partition => PartitionProperties.codec
  | nic => NicProperties.codec
  | adapter => AdapterProperties.codec
  | networkPort => NetworkPort.codec
  | storagePort => StoragePort.codec
  | virtualSwitch => VirtualSwitchProperties.codec
  | storageGroup => StorageGroupProperties.codec
  | storageVolume => StorageVolume.codec

/-- What a value keeps beside its fields. -/
def extra : (t : PropertiesType) → t.Value → Members
  | cpc => CpcProperties.extra
  | partition => PartitionProperties.extra
  | nic => NicProperties.extra
  | adapter => AdapterProperties.extra
  | networkPort => NetworkPort.extra
  | storagePort => StoragePort.extra
  | virtualSwitch => VirtualSwitchProperties.extra
  | storageGroup => StorageGroupProperties.extra
  | storageVolume => StorageVolume.extra

/-- The declared fields of a type. -/
def fields : (t : PropertiesType) → List (Field t.Value)
  | cpc => [
      .required "object-uri" .text ShownExactly (·.objectUri),
      .required "name" .text ShownExactly (·.name),
      .optional "description" .text ShownExactly (·.description),
      .optional "status" .text ShownExactly (·.status),
      .optional "dpm-enabled" .bool ShownExactly (·.dpmEnabled),
      .optional "se-version" .text ShownExactly (·.seVersion),
      .optional "machine-type" .text ShownExactly (·.machineType),
      .optional "machine-model" .text ShownExactly (·.machineModel)]
  | partition => [
      .required "object-uri" .text ShownExactly (·.objectUri),
      .required "name" .text ShownExactly (·.name),
      .optional "description" .text ShownExactly (·.description),
      .optional "status" .text ShownExactly (·.status),
      .optional "type" .text ShownExactly (·.type),
      .optional "short-name" .text ShownExactly (·.shortName),
      .optional "ifl-processors" .nat32 ShownExactly (·.iflProcessors),
      .optional "cp-processors" .nat32 ShownExactly (·.cpProcessors),
      .optional "initial-memory" .nat64 ShownExactly (·.initialMemory),
      .optional "maximum-memory" .nat64 ShownExactly (·.maximumMemory),
      .optional "boot-device" .text ShownExactly (·.bootDevice),
      .optional "boot-iso-image-name" .text ShownExactly (·.bootIsoImageName),
      .defaulted "nic-uris" (.list .text) ShownExactly [] (·.nicUris),
      .defaulted "storage-group-uris" (.list .text) ShownExactly [] (·.storageGroupUris)]
  | nic => [
      .required "element-uri" .text ShownExactly (·.elementUri),
      .required "name" .text ShownExactly (·.name),
      .optional "description" .text ShownExactly (·.description),
      .optional "type" .text ShownExactly (·.type),
      .optional "device-number" .text ShownExactly (·.deviceNumber),
      .optional "mac-address" .text ShownExactly (·.macAddress),
      .optional "virtual-switch-uri" .text ShownExactly (·.virtualSwitchUri),
      .optional "network-adapter-port-uri" .text ShownExactly (·.networkAdapterPortUri)]
  | adapter => [
      .required "object-uri" .text ShownExactly (·.objectUri),
      .required "name" .text ShownExactly (·.name),
      .optional "description" .text ShownExactly (·.description),
      .optional "adapter-id" .text ShownExactly (·.adapterId),
      .optional "adapter-family" .text ShownExactly (·.adapterFamily),
      .optional "type" .text ShownExactly (·.type),
      .optional "status" .text ShownExactly (·.status),
      .defaulted "network-port-uris" (.list .text) ShownExactly [] (·.networkPortUris),
      .defaulted "storage-port-uris" (.list .text) ShownExactly [] (·.storagePortUris)]
  | networkPort => [
      .required "element-uri" .text ShownExactly (·.elementUri),
      .required "name" .text ShownExactly (·.name),
      .optional "description" .text ShownExactly (·.description),
      .optional "index" .nat32 ShownExactly (·.index)]
  | storagePort => [
      .required "element-uri" .text ShownExactly (·.elementUri),
      .required "name" .text ShownExactly (·.name),
      .optional "description" .text ShownExactly (·.description),
      .optional "index" .nat32 ShownExactly (·.index),
      .optional "fabric-id" .text ShownExactly (·.fabricId)]
  | virtualSwitch => [
      .required "object-uri" .text ShownExactly (·.objectUri),
      .required "name" .text ShownExactly (·.name),
      .optional "description" .text ShownExactly (·.description),
      .optional "type" .text ShownExactly (·.type),
      .optional "backing-adapter-uri" .text ShownExactly (·.backingAdapterUri),
      .optional "port" .nat32 ShownExactly (·.port),
      .defaulted "connected-vnic-uris" (.list .text) ShownExactly [] (·.connectedVnicUris)]
  | storageGroup => [
      .required "object-uri" .text ShownExactly (·.objectUri),
      .required "name" .text ShownExactly (·.name),
      .optional "description" .text ShownExactly (·.description),
      .optional "type" .text ShownExactly (·.type),
      .optional "shared" .bool ShownExactly (·.shared),
      .optional "fulfillment-state" .text ShownExactly (·.fulfillmentState),
      .optional "cpc-uri" .text ShownExactly (·.cpcUri),
      .defaulted "storage-volume-uris" (.list .text) ShownExactly [] (·.storageVolumeUris)]
  | storageVolume => [
      .required "element-uri" .text ShownExactly (·.elementUri),
      .required "name" .text ShownExactly (·.name),
      .optional "fulfillment-state" .text ShownExactly (·.fulfillmentState),
      .optional "size" .float ShownRounded (·.size),
      .optional "usage" .text ShownExactly (·.usage)]

/-- The names that a type declares. -/
def names (t : PropertiesType) : List String := t.fields.map (·.name)

/-! ## What the codecs are made of -/

/-! What holds of all that two readings give, one after the other. -/

theorem forall_bind_eq_some {α β : Type} {o : Option α} {next : α → Option β} {P : β → Prop} :
    (∀ b, o.bind next = some b → P b) ↔ ∀ a, o = some a → ∀ b, next a = some b → P b := by
  constructor
  · rintro h a rfl b hb
    exact h b hb
  · intro h b hb
    obtain ⟨a, ha, hb⟩ := Option.bind_eq_some_iff.1 hb
    exact h a ha b hb

theorem forall_map_eq_some {α β : Type} {o : Option α} {f : α → β} {P : β → Prop} :
    (∀ b, o.map f = some b → P b) ↔ ∀ a, o = some a → P (f a) := by
  constructor
  · rintro h a rfl
    exact h _ rfl
  · intro h b hb
    obtain ⟨a, ha, rfl⟩ := Option.map_eq_some_iff.1 hb
    exact h a ha

/-- Each codec reads and writes the fields that are listed for it, and keeps the rest. -/
theorem codec_lists (t : PropertiesType) : ∃ r : Record t.Value t.Value,
    t.codec = r.codecKeeping ∧ r.Lists t.fields t.extra := by
  cases t <;> refine ⟨_, rfl, rfl, fun _ => rfl, fun given => ?_, fun given x hreads hextra => ?_⟩
  case cpc.refine_1 | partition.refine_1 | nic.refine_1 | adapter.refine_1 | networkPort.refine_1
      | storagePort.refine_1 | virtualSwitch.refine_1 | storageGroup.refine_1
      | storageVolume.refine_1 =>
    simp only [Record.read_others_eq, Record.read_required_eq, Record.read_optional_eq,
      Record.read_defaulted_eq, Record.read_make_eq, forall_bind_eq_some, forall_map_eq_some,
      Option.some.injEq, forall_eq', fields, List.forall_mem_cons]
    -- What each field has read is now a hypothesis of its own.
    intros
    refine ⟨?_, rfl⟩
    and_intros <;> first | assumption | nofun
  all_goals
    simp only [fields, List.forall_mem_cons, Field.required, Field.optional, Field.defaulted]
      at hreads
    simp only [Record.read_others_eq, Record.read_required_eq, Record.read_optional_eq,
      Record.read_defaulted_eq, Record.read_make_eq, hreads, hextra, Option.bind_some,
      Option.map_some]
    rfl

theorem fields_faithful (t : PropertiesType) : ∀ f ∈ t.fields, f.Faithful := by
  cases t <;>
    simp only [fields, List.forall_mem_cons, List.not_mem_nil, false_imp_iff, implies_true,
      and_true, Field.faithful_required Codec.keeps_text, Field.faithful_optional Codec.keeps_text,
      Field.faithful_optional Codec.keeps_bool, Field.faithful_optional Codec.keeps_nat32,
      Field.faithful_optional Codec.keeps_nat64, Field.faithful_optional Codec.keeps_float,
      Field.faithful_defaulted (Codec.keeps_list Codec.keeps_text) (Codec.decode_nil _)]

theorem names_nodup (t : PropertiesType) : t.names.Nodup := by cases t <;> decide

/-! ## What is restored -/

/-- How the value that is written under a declared name shows the value that was given. -/
def Shows (t : PropertiesType) (name : String) (v w : Json) : Prop :=
  if t = storageVolume ∧ name = "size" then Json.ShownRounded v w else w = v

theorem shows_of_shown (t : PropertiesType) :
    ∀ f ∈ t.fields, ∀ v w, f.Shown v w → t.Shows f.name v w := by
  cases t <;>
    simp [fields, Shows, Field.required, Field.optional, Field.defaulted, ShownExactly]

/-- A document of any type that keeps unknown properties loses nothing when it is read: what is
written for the value is an object that is read as the same value. In this object every member of an
undeclared name has the value that the document gave it, and every declared field the value that it
was given, unless that was null. The size of a volume is the nearest double. What the value keeps
has no declared name. -/
theorem encode_restores (t : PropertiesType) {depth : Nat} (hdepth : 1 < depth) {members : Members}
    (hvalid : (Json.object members).Valid) {x : t.Value}
    (hx : t.codec.decode depth (.ofValue (.object members)) = some x) :
    ∃ written : Members, t.codec.encode x = .object written ∧
      t.codec.decode depth (.ofValue (.object written)) = some x ∧
      (∀ name v, name ∉ t.names → members.get? name = some v → written.get? name = some v) ∧
      (∀ name v, name ∈ t.names → members.get? name = some v → v ≠ .null →
        ∃ w, written.get? name = some w ∧ t.Shows name v w) ∧
      ∀ name ∈ t.names, (t.extra x).get? name = none := by
  obtain ⟨r, hcodec, hlists⟩ := t.codec_lists
  rw [hcodec] at hx
  obtain ⟨hextra, written, h⟩ :=
    hlists.restores t.fields_faithful t.names_nodup hdepth hvalid hx
  refine ⟨written, hcodec ▸ h.encode, hcodec ▸ h.decode, h.others, ?_, ?_⟩
  · intro name v hname hv hnull
    obtain ⟨f, hf, rfl⟩ := List.mem_map.1 hname
    obtain ⟨w, hw, hshown⟩ := h.declared f hf v hv hnull
    exact ⟨w, hw, t.shows_of_shown f hf v w hshown⟩
  · intro name hname
    refine Members.lookup_of_not_mem fun hmem => ?_
    obtain ⟨member, hmember, rfl⟩ := List.mem_map.1 hmem
    rw [hextra] at hmember
    exact (Record.mem_unnamed.1 hmember).2 hname

/-- A volume whose size no double can hold, with a property that is not declared. -/
def sampleVolume : Members := [
  ("element-uri", .string "/api/storage-groups/1/storage-volumes/2"),
  ("name", .string "boot"),
  ("paths", .array [.object [("port", .null), ("wwpn", .string "50050763")], .int 3]),
  ("size", .int 9007199254740993)]

/-- The undeclared property of the volume is kept; the size becomes the nearest double. -/
theorem encode_restores_volume : ∃ x : StorageVolume, ∃ written : Members,
    StorageVolume.codec.decode 127 (.ofValue (.object sampleVolume)) = some x ∧
      StorageVolume.codec.encode x = .object written ∧
      StorageVolume.codec.decode 127 (.ofValue (.object written)) = some x ∧
      written.get? "paths" = sampleVolume.get? "paths" ∧
      ∃ w, written.get? "size" = some w ∧ Json.ShownRounded (.int 9007199254740993) w := by
  have hascending : Members.Ascending sampleVolume := by
    unfold Members.Ascending
    decide
  have hpath : Members.Ascending [("port", .null), ("wwpn", .string "50050763")] := by
    unfold Members.Ascending
    decide
  have hsize : Number.Valid (.integer 9007199254740993) := by
    constructor <;> decide
  have hport : Number.Valid (.integer 3) := by
    constructor <;> decide
  have hvalid : (Json.object sampleVolume).Valid := by
    simp only [Json.Valid]
    refine ⟨hascending, ?_⟩
    simp only [sampleVolume, Json.int, Json.MembersValid, Json.ItemsValid, Json.Valid, hpath, hsize,
      hport, and_self]
  have hread : StorageVolume.codec.decode 127 (.ofValue (.object sampleVolume)) = some
      ⟨"/api/storage-groups/1/storage-volumes/2", "boot", none,
        some (.finite false 4503599627370496 1), none,
        [("paths", .array [.object [("port", .null), ("wwpn", .string "50050763")], .int 3])]⟩ := by
    rfl
  obtain ⟨written, hencode, hdecode, hothers, hdeclared, -⟩ :=
    encode_restores storageVolume (by decide) hvalid hread
  exact ⟨_, written, hread, hencode, hdecode, hothers "paths" _ (by decide) rfl,
    hdeclared "size" _ (by decide) rfl nofun⟩

end PropertiesType

end HmcClient
