import HmcClient.Exchange.Talk

/-!
# Network interfaces

The virtual network interfaces of partitions. An interface is attached to a virtual switch or to a
port of an adapter.
-/

namespace HmcClient

/-- All that is told of a network interface. -/
structure NicProperties where
  elementUri : String
  name : String
  description : Option String
  type : Option String
  deviceNumber : Option String
  macAddress : Option String
  virtualSwitchUri : Option String
  networkAdapterPortUri : Option String
  extra : Members
  deriving BEq, Repr

/-- A network interface to be created. -/
structure NicCreate where
  name : String
  description : Option String
  deviceNumber : Option String
  virtualSwitchUri : Option String
  networkAdapterPortUri : Option String
  deriving DecidableEq, Repr

/-- Changes of a network interface; what is none stays as it is. -/
structure NicUpdate where
  name : Option String
  description : Option String
  deviceNumber : Option String
  deriving DecidableEq, Repr

/-- How the properties of a network interface are read and written. -/
def NicProperties.codec : Codec NicProperties :=
  (((((((((Record.make NicProperties NicProperties.mk).required
    "element-uri" .text (·.elementUri)).required
    "name" .text (·.name)).optional
    "description" .text (·.description)).optional
    "type" .text (·.type)).optional
    "device-number" .text (·.deviceNumber)).optional
    "mac-address" .text (·.macAddress)).optional
    "virtual-switch-uri" .text (·.virtualSwitchUri)).optional
    "network-adapter-port-uri" .text (·.networkAdapterPortUri)).others (·.extra) |>.codecKeeping

/-- The document that asks for a network interface. -/
def NicCreate.body (n : NicCreate) : Json :=
  .ofEntries <| [("name", .string n.name)] ++
    Json.memberOf "description" .string n.description ++
    Json.memberOf "device-number" .string n.deviceNumber ++
    Json.memberOf "virtual-switch-uri" .string n.virtualSwitchUri ++
    Json.memberOf "network-adapter-port-uri" .string n.networkAdapterPortUri

/-- The document that asks for changes. -/
def NicUpdate.body (u : NicUpdate) : Json :=
  .ofEntries <| Json.memberOf "name" .string u.name ++
    Json.memberOf "description" .string u.description ++
    Json.memberOf "device-number" .string u.deviceNumber

namespace Nic

/-- Creates a network interface of a partition and gives its URI. -/
def create (e : Endpoint) (partitionUri : String) (nic : NicCreate) : Operation String :=
  Talk.expect (e.postJson (partitionUri ++ "/nics") nic.body) (·.createdUri)

/-- Reads the properties of a network interface. -/
def properties (e : Endpoint) (uri : String) : Operation NicProperties :=
  Talk.expect (e.get uri) (·.document NicProperties.codec [200])

/-- Changes a network interface. -/
def update (e : Endpoint) (uri : String) (changes : NicUpdate) : Operation Unit :=
  Talk.expect (e.postJson uri changes.body) (·.nothing [204])

/-- Deletes a network interface. -/
def delete (e : Endpoint) (uri : String) : Operation Unit :=
  Talk.expect (e.delete uri) (·.nothing [204])

end Nic

end HmcClient
