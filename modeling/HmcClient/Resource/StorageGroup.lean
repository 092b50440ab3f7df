import HmcClient.Resource.Partition

/-!
# Storage groups

Groups of storage volumes that are attached to partitions together. A group is created and changed
with a list of requests about its volumes; the console may finish a change later, in a job.
-/

namespace HmcClient

/-! ## Documents -/

/-- A storage group as it is listed. -/
structure StorageGroup where
  objectUri : String
  name : String
  type : Option String
  fulfillmentState : Option String
  cpcUri : Option String
  deriving DecidableEq, Repr

/-- All that is told of a storage group. -/
structure StorageGroupProperties where
  objectUri : String
  name : String
  description : Option String
  type : Option String
  shared : Option Bool
  fulfillmentState : Option String
  cpcUri : Option String
  storageVolumeUris : List String
  extra : Members
  deriving BEq, Repr

/-- A volume of a storage group. Its size is in gibibytes. -/
structure StorageVolume where
  elementUri : String
  name : String
  fulfillmentState : Option String
  size : Option Binary64
  usage : Option String
  extra : Members
  deriving BEq, Repr

/-- How a listed storage group is read and written. -/
def StorageGroup.codec : Codec StorageGroup :=
  (((((Record.make StorageGroup StorageGroup.mk).required
    "object-uri" .text (·.objectUri)).required
    "name" .text (·.name)).optional
    "type" .text (·.type)).optional
    "fulfillment-state" .text (·.fulfillmentState)).optional
    "cpc-uri" .text (·.cpcUri) |>.codec

/-- How the properties of a storage group are read and written. -/
def StorageGroupProperties.codec : Codec StorageGroupProperties :=
  (((((((((Record.make StorageGroupProperties StorageGroupProperties.mk).required
    "object-uri" .text (·.objectUri)).required
    "name" .text (·.name)).optional
    "description" .text (·.description)).optional
    "type" .text (·.type)).optional
    "shared" .bool (·.shared)).optional
    "fulfillment-state" .text (·.fulfillmentState)).optional
    "cpc-uri" .text (·.cpcUri)).defaulted
    "storage-volume-uris" (.list .text) [] (·.storageVolumeUris)).others (·.extra) |>.codecKeeping

/-- How a volume is read and written. -/
def StorageVolume.codec : Codec StorageVolume :=
  ((((((Record.make StorageVolume StorageVolume.mk).required
    "element-uri" .text (·.elementUri)).required
    "name" .text (·.name)).optional
    "fulfillment-state" .text (·.fulfillmentState)).optional
    "size" .float (·.size)).optional
    "usage" .text (·.usage)).others (·.extra) |>.codecKeeping

/-! ## Requests -/

/-- What is to be done with a volume. -/
inductive VolumeOperation where
  | create
  | modify
  | delete
  deriving DecidableEq, Repr

/-- The word for what is to be done. -/
def VolumeOperation.render : VolumeOperation → String
  | create => "create"
  | modify => "modify"
  | delete => "delete"

/-- A request about one volume. -/
structure VolumeRequest where
  operation : VolumeOperation
  elementUri : Option String
  name : Option String
  description : Option String
  size : Option Binary64
  usage : Option String
  deriving DecidableEq, Repr

namespace VolumeRequest

/-- A new volume. -/
def create (size : Binary64) (usage : String) : VolumeRequest :=
  ⟨.create, none, none, none, some size, some usage⟩

/-- A change of a volume. -/
def modify (elementUri : String) : VolumeRequest :=
  ⟨.modify, some elementUri, none, none, none, none⟩

/-- The end of a volume. -/
def delete (elementUri : String) : VolumeRequest := { modify elementUri with operation := .delete }

/-- The request with a name. -/
def withName (v : VolumeRequest) (name : String) : VolumeRequest := { v with name := some name }

/-- The request with a size. -/
def withSize (v : VolumeRequest) (size : Binary64) : VolumeRequest := { v with size := some size }

/-- The document of a request. A size that is no number is null. -/
def body (v : VolumeRequest) : Json :=
  .ofEntries <| [("operation", .string v.operation.render)] ++
    Json.memberOf "element-uri" .string v.elementUri ++
    Json.memberOf "name" .string v.name ++
    Json.memberOf "description" .string v.description ++
    Json.memberOf "size" .ofBinary64 v.size ++
    Json.memberOf "usage" .string v.usage

/-- The member that holds requests, if there are any. -/
def members (volumes : List VolumeRequest) : List (String × Json) :=
  if volumes.isEmpty then [] else [("storage-volumes", .array (volumes.map body))]

end VolumeRequest

/-- A storage group to be created. -/
structure StorageGroupCreate where
  name : String
  cpcUri : String
  type : String
  description : Option String
  shared : Option Bool
  maxPartitions : Option Nat
  volumes : List VolumeRequest
  deriving DecidableEq, Repr

/-- The document that asks for a storage group. -/
def StorageGroupCreate.body (g : StorageGroupCreate) : Json :=
  .ofEntries <|
    [("name", .string g.name), ("cpc-uri", .string g.cpcUri), ("type", .string g.type)] ++
    Json.memberOf "description" .string g.description ++
    Json.memberOf "shared" .bool g.shared ++
    Json.memberOf "max-partitions" .nat g.maxPartitions ++
    VolumeRequest.members g.volumes

/-- Changes of a storage group; what is none stays as it is. -/
structure StorageGroupModify where
  name : Option String
  description : Option String
  volumes : List VolumeRequest
  deriving DecidableEq, Repr

/-- The document that asks for changes. -/
def StorageGroupModify.body (m : StorageGroupModify) : Json :=
  .ofEntries <| Json.memberOf "name" .string m.name ++
    Json.memberOf "description" .string m.description ++
    VolumeRequest.members m.volumes

/-- The path between an adapter port and a host whose volumes are accepted as they are. -/
structure MismatchedVolumes where
  adapterPortUri : String
  hostWorldWidePortName : String
  deriving DecidableEq, Repr

/-- The document that accepts volumes as they are. -/
def MismatchedVolumes.body (m : MismatchedVolumes) : Json :=
  .ofEntries [
    ("adapter-port-uri", .string m.adapterPortUri),
    ("host-world-wide-port-name", .string m.hostWorldWidePortName)]

/-! ## Operations -/

namespace StorageGroup

/-- Where storage groups are listed and created. -/
def collectionUri : String := "/storage-groups"

/-- Lists the storage groups, of one machine if it is given. -/
def list (e : Endpoint) (cpcUri : Option String) (filter : ListFilter) :
    Operation (List StorageGroup) :=
  Talk.expect (e.getFiltered collectionUri (filter.toQuery.addOptional "cpc-uri" cpcUri))
    (·.items codec "storage-groups")

/-- Reads the properties of a storage group. -/
def properties (e : Endpoint) (uri : String) : Operation StorageGroupProperties :=
  Talk.expect (e.get uri) (·.document StorageGroupProperties.codec [200])

/-- Lists the volumes of a storage group. -/
def volumes (e : Endpoint) (uri : String) : Operation (List StorageVolume) :=
  Talk.expect (e.get (uri ++ "/storage-volumes")) (·.items StorageVolume.codec "storage-volumes")

/-- Reads a volume. -/
def volume (e : Endpoint) (uri : String) : Operation StorageVolume :=
  Talk.expect (e.get uri) (·.document StorageVolume.codec [200])

/-- Changes a storage group; a job may do it. -/
def update (e : Endpoint) (uri : String) (changes : StorageGroupModify) :
    Operation (Option JobHandle) :=
  Talk.expect (e.postJson (uri ++ "/operations/modify") changes.body) (·.startedJob?)

/-- Accepts volumes that are not as they were asked for. -/
def fulfill (e : Endpoint) (uri : String) (accepted : MismatchedVolumes) : Operation Unit :=
  Talk.expect (e.postJson (uri ++ "/operations/accept-mismatched-storage-volumes") accepted.body)
    (·.nothing [204])

/-- Creates a storage group and gives its URI. -/
def create (e : Endpoint) (group : StorageGroupCreate) : Operation String :=
  Talk.expect (e.postJson collectionUri group.body) (·.createdUri)

/-- Deletes a storage group. -/
def delete (e : Endpoint) (uri : String) : Operation Unit :=
  Talk.expect (e.post (uri ++ "/operations/delete")) (·.nothing [204])

/-- Lists the partitions to which a storage group is attached. -/
def partitions (e : Endpoint) (uri : String) : Operation (List Partition) :=
  Talk.expect (e.get (uri ++ "/operations/get-partitions")) (·.items Partition.codec "partitions")

end StorageGroup

end HmcClient
