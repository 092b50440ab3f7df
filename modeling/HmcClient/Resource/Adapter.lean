import HmcClient.Exchange.Talk

/-!
# Adapters

The adapters of a machine and their ports. Hipersockets are adapters without hardware, so they can
be created and deleted; all others can only be listed and read.
-/

namespace HmcClient

/-! ## Documents -/

/-- An adapter as it is listed. -/
structure Adapter where
  objectUri : String
  name : String
  adapterId : Option String
  adapterFamily : Option String
  type : Option String
  status : Option String
  deriving DecidableEq, Repr

/-- All that is told of an adapter. -/
structure AdapterProperties where
  objectUri : String
  name : String
  description : Option String
  adapterId : Option String
  adapterFamily : Option String
  type : Option String
  status : Option String
  networkPortUris : List String
  storagePortUris : List String
  extra : Members
  deriving BEq, Repr

/-- A port of a network adapter. -/
structure NetworkPort where
  elementUri : String
  name : String
  description : Option String
  index : Option Nat
  extra : Members
  deriving BEq, Repr

/-- A port of a storage adapter. -/
structure StoragePort where
  elementUri : String
  name : String
  description : Option String
  index : Option Nat
  fabricId : Option String
  extra : Members
  deriving BEq, Repr

/-- A hipersocket to be created. -/
structure HipersocketCreate where
  name : String
  description : Option String
  portDescription : Option String
  maximumTransmissionUnitSize : Option Nat
  deriving DecidableEq, Repr

/-- How a listed adapter is read and written. -/
def Adapter.codec : Codec Adapter :=
  ((((((Record.make Adapter Adapter.mk).required "object-uri" .text (·.objectUri)).required
    "name" .text (·.name)).optional
    "adapter-id" .text (·.adapterId)).optional
    "adapter-family" .text (·.adapterFamily)).optional
    "type" .text (·.type)).optional
    "status" .text (·.status) |>.codec

/-- How the properties of an adapter are read and written. -/
def AdapterProperties.codec : Codec AdapterProperties :=
  ((((((((((Record.make AdapterProperties AdapterProperties.mk).required
    "object-uri" .text (·.objectUri)).required
    "name" .text (·.name)).optional
    "description" .text (·.description)).optional
    "adapter-id" .text (·.adapterId)).optional
    "adapter-family" .text (·.adapterFamily)).optional
    "type" .text (·.type)).optional
    "status" .text (·.status)).defaulted
    "network-port-uris" (.list .text) [] (·.networkPortUris)).defaulted
    "storage-port-uris" (.list .text) [] (·.storagePortUris)).others (·.extra) |>.codecKeeping

/-- How a network port is read and written. -/
def NetworkPort.codec : Codec NetworkPort :=
  (((((Record.make NetworkPort NetworkPort.mk).required
    "element-uri" .text (·.elementUri)).required
    "name" .text (·.name)).optional
    "description" .text (·.description)).optional
    "index" .nat32 (·.index)).others (·.extra) |>.codecKeeping

/-- How a storage port is read and written. -/
def StoragePort.codec : Codec StoragePort :=
  ((((((Record.make StoragePort StoragePort.mk).required
    "element-uri" .text (·.elementUri)).required
    "name" .text (·.name)).optional
    "description" .text (·.description)).optional
    "index" .nat32 (·.index)).optional
    "fabric-id" .text (·.fabricId)).others (·.extra) |>.codecKeeping

/-- The document that asks for a hipersocket. -/
def HipersocketCreate.body (h : HipersocketCreate) : Json :=
  .ofEntries <| [("name", .string h.name)] ++
    Json.memberOf "description" .string h.description ++
    Json.memberOf "port-description" .string h.portDescription ++
    Json.memberOf "maximum-transmission-unit-size" .nat h.maximumTransmissionUnitSize

/-! ## Operations -/

namespace Adapter

/-- Lists the adapters of a machine. -/
def list (e : Endpoint) (cpcUri : String) (filter : ListFilter) : Operation (List Adapter) :=
  Talk.expect (e.getFiltered (cpcUri ++ "/adapters") filter.toQuery) (·.items codec "adapters")

/-- Reads the properties of an adapter. -/
def properties (e : Endpoint) (uri : String) : Operation AdapterProperties :=
  Talk.expect (e.get uri) (·.document AdapterProperties.codec [200])

/-- Creates a hipersocket of a machine and gives its URI. -/
def createHipersocket (e : Endpoint) (cpcUri : String) (h : HipersocketCreate) : Operation String :=
  Talk.expect (e.postJson (cpcUri ++ "/adapters") h.body) (·.createdUri)

/-- Deletes a hipersocket. -/
def deleteHipersocket (e : Endpoint) (uri : String) : Operation Unit :=
  Talk.expect (e.delete uri) (·.nothing [204])

/-- Reads a network port. -/
def networkPort (e : Endpoint) (uri : String) : Operation NetworkPort :=
  Talk.expect (e.get uri) (·.document NetworkPort.codec [200])

/-- Reads a storage port. -/
def storagePort (e : Endpoint) (uri : String) : Operation StoragePort :=
  Talk.expect (e.get uri) (·.document StoragePort.codec [200])

end Adapter

end HmcClient
