import HmcClient.Exchange.Talk

/-!
# Partitions

The logical partitions of a machine: the documents that describe them and ask for them, and the
operations on them. What concerns their use of energy stands apart.
-/

namespace HmcClient

/-! ## Documents -/

/-- A partition as it is listed. -/
structure Partition where
  objectUri : String
  name : String
  status : Option String
  type : Option String
  deriving DecidableEq, Repr

/-- All that is told of a partition. Memory sizes are in mebibytes. -/
structure PartitionProperties where
  objectUri : String
  name : String
  description : Option String
  status : Option String
  type : Option String
  shortName : Option String
  iflProcessors : Option Nat
  cpProcessors : Option Nat
  initialMemory : Option Nat
  maximumMemory : Option Nat
  bootDevice : Option String
  bootIsoImageName : Option String
  nicUris : List String
  storageGroupUris : List String
  extra : Members
  deriving BEq, Repr

/-- How a listed partition is read and written. -/
def Partition.codec : Codec Partition :=
  ((((Record.make Partition Partition.mk).required "object-uri" .text (·.objectUri)).required
    "name" .text (·.name)).optional
    "status" .text (·.status)).optional
    "type" .text (·.type) |>.codec

/-- How the properties of a partition are read and written. -/
def PartitionProperties.codec : Codec PartitionProperties :=
  (((((((((((((((Record.make PartitionProperties PartitionProperties.mk).required
    "object-uri" .text (·.objectUri)).required
    "name" .text (·.name)).optional
    "description" .text (·.description)).optional
    "status" .text (·.status)).optional
    "type" .text (·.type)).optional
    "short-name" .text (·.shortName)).optional
    "ifl-processors" .nat32 (·.iflProcessors)).optional
    "cp-processors" .nat32 (·.cpProcessors)).optional
    "initial-memory" .nat64 (·.initialMemory)).optional
    "maximum-memory" .nat64 (·.maximumMemory)).optional
    "boot-device" .text (·.bootDevice)).optional
    "boot-iso-image-name" .text (·.bootIsoImageName)).defaulted
    "nic-uris" (.list .text) [] (·.nicUris)).defaulted
    "storage-group-uris" (.list .text) [] (·.storageGroupUris)).others (·.extra) |>.codecKeeping

/-- A partition to be created. -/
structure PartitionCreate where
  name : String
  description : Option String
  shortName : Option String
  type : Option String
  iflProcessors : Option Nat
  cpProcessors : Option Nat
  processorMode : Option String
  initialMemory : Nat
  maximumMemory : Nat
  deriving DecidableEq, Repr

/-- The document that asks for a partition. -/
def PartitionCreate.body (p : PartitionCreate) : Json :=
  .ofEntries <| [("name", .string p.name)] ++
    Json.memberOf "description" .string p.description ++
    Json.memberOf "short-name" .string p.shortName ++
    Json.memberOf "type" .string p.type ++
    Json.memberOf "ifl-processors" .nat p.iflProcessors ++
    Json.memberOf "cp-processors" .nat p.cpProcessors ++
    Json.memberOf "processor-mode" .string p.processorMode ++
    [("initial-memory", .nat p.initialMemory), ("maximum-memory", .nat p.maximumMemory)]

/-- Changes of a partition; what is none stays as it is. A member of `extra` takes the place of a
field of the same name. -/
structure PartitionUpdate where
  description : Option String
  iflProcessors : Option Nat
  cpProcessors : Option Nat
  initialMemory : Option Nat
  maximumMemory : Option Nat
  bootDevice : Option String
  bootIsoInsFile : Option String
  bootTimeout : Option Nat
  extra : Members
  deriving BEq, Repr

/-- The document that asks for changes. -/
def PartitionUpdate.body (u : PartitionUpdate) : Json :=
  .ofEntries <| Json.memberOf "description" .string u.description ++
    Json.memberOf "ifl-processors" .nat u.iflProcessors ++
    Json.memberOf "cp-processors" .nat u.cpProcessors ++
    Json.memberOf "initial-memory" .nat u.initialMemory ++
    Json.memberOf "maximum-memory" .nat u.maximumMemory ++
    Json.memberOf "boot-device" .string u.bootDevice ++
    Json.memberOf "boot-iso-ins-file" .string u.bootIsoInsFile ++
    Json.memberOf "boot-timeout" .nat u.bootTimeout ++
    u.extra

/-- The use of one domain of crypto adapters. -/
structure CryptoDomain where
  index : Nat
  accessMode : String
  deriving DecidableEq, Repr

/-- How the use of a crypto domain is read and written. -/
def CryptoDomain.codec : Codec CryptoDomain :=
  ((Record.make CryptoDomain CryptoDomain.mk).required "domain-index" .nat32 (·.index)).required
    "access-mode" .text (·.accessMode) |>.codec

/-- Crypto adapters and the domains that are used of them. -/
structure CryptoConfig where
  adapterUris : List String
  domains : List CryptoDomain
  deriving DecidableEq, Repr

/-- How a crypto configuration is read and written. -/
def CryptoConfig.codec : Codec CryptoConfig :=
  ((Record.make CryptoConfig CryptoConfig.mk).required
    "crypto-adapter-uris" (.list .text) (·.adapterUris)).required
    "crypto-domain-configurations" (.list CryptoDomain.codec) (·.domains) |>.codec

/-- The document that says where a console listens. -/
structure WebsocketAddress where
  uri : String
  deriving DecidableEq, Repr

/-- How the address of a console is read and written. -/
def WebsocketAddress.codec : Codec WebsocketAddress :=
  (Record.make WebsocketAddress WebsocketAddress.mk).required "websocket-uri" .text (·.uri) |>.codec

/-- Where a partition's console listens, and the session that is admitted. -/
structure AsciiConsole where
  websocketUri : String
  sessionId : String
  deriving DecidableEq, Repr

/-! ## Operations -/

namespace Partition

/-- Lists the partitions of a machine. -/
def list (e : Endpoint) (cpcUri : String) (filter : ListFilter) : Operation (List Partition) :=
  Talk.expect (e.getFiltered (cpcUri ++ "/partitions") filter.toQuery) (·.items codec "partitions")

/-- Reads the properties of a partition. -/
def properties (e : Endpoint) (uri : String) : Operation PartitionProperties :=
  Talk.expect (e.get uri) (·.document PartitionProperties.codec [200])

/-- Creates a partition of a machine and gives its URI. -/
def create (e : Endpoint) (cpcUri : String) (p : PartitionCreate) : Operation String :=
  Talk.expect (e.postJson (cpcUri ++ "/partitions") p.body) (·.createdUri)

/-- Changes a partition. -/
def update (e : Endpoint) (uri : String) (changes : PartitionUpdate) : Operation Unit :=
  Talk.expect (e.postJson uri changes.body) (·.nothing [204])

/-- Deletes a partition. -/
def delete (e : Endpoint) (uri : String) : Operation Unit :=
  Talk.expect (e.delete uri) (·.nothing [204])

/-- The URI of an operation on a partition. -/
def operationUri (uri operation : String) : String := uri ++ "/operations/" ++ operation

/-- Starts a partition; a job does it. -/
def start (e : Endpoint) (uri : String) : Operation JobHandle :=
  Talk.expect (e.post (operationUri uri "start")) (·.startedJob)

/-- Stops a partition; a job does it. -/
def stop (e : Endpoint) (uri : String) : Operation JobHandle :=
  Talk.expect (e.post (operationUri uri "stop")) (·.startedJob)

/-- Sends an image and mounts it; the file named last is one of the image and drives the start. -/
def mountIso (e : Endpoint) (uri : String) (image : List UInt8) (imageName insFileName : String) :
    Operation Unit := do
  let query := (Query.empty.add "image-name" imageName).add "ins-file-name" insFileName
  let url := query.apply (e.resourceUrl (operationUri uri "mount-iso-image"))
  Talk.expect (.upload "POST" url image) (·.nothing [204])

/-- Unmounts the image. -/
def unmountIso (e : Endpoint) (uri : String) : Operation Unit :=
  Talk.expect (e.post (operationUri uri "unmount-iso-image")) (·.nothing [204])

/-- The URIs of the network interfaces of a partition. -/
def nicUris (e : Endpoint) (uri : String) : Operation (List String) :=
  return (← properties e uri).nicUris

/-- An operation on a partition that concerns a storage group. -/
def storageGroupOperation (e : Endpoint) (uri operation groupUri : String) : Operation Unit :=
  let body := Json.ofEntries [("storage-group-uri", .string groupUri)]
  Talk.expect (e.postJson (operationUri uri operation) body) (·.nothing [204])

/-- Attaches a storage group. -/
def attachStorageGroup (e : Endpoint) (uri groupUri : String) : Operation Unit :=
  storageGroupOperation e uri "attach-storage-group" groupUri

/-- Detaches a storage group. -/
def detachStorageGroup (e : Endpoint) (uri groupUri : String) : Operation Unit :=
  storageGroupOperation e uri "detach-storage-group" groupUri

/-- Adds crypto adapters and domains. -/
def increaseCryptoConfiguration (e : Endpoint) (uri : String) (config : CryptoConfig) :
    Operation Unit :=
  let body := CryptoConfig.codec.encode config
  Talk.expect (e.postJson (operationUri uri "increase-crypto-configuration") body) (·.nothing [204])

/-- Where the console of a partition listens. The session is the one held when the answer is
there. -/
def asciiConsole (e : Endpoint) (uri : String) : Operation AsciiConsole := do
  let response ← Talk.execute (e.post (operationUri uri "get-ascii-console-websocket-uri"))
  let address ← ExceptT.mk (pure (response.document WebsocketAddress.codec [200]))
  match ← Talk.sessionId with
  | some sessionId => return ⟨address.uri, sessionId⟩
  | none => throw (response.fault .noConsoleSession)

end Partition

end HmcClient
