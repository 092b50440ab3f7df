import HmcClient.Exchange.Talk

/-!
# Virtual switches

The switches of a machine to which the network interfaces of partitions are attached. They can be
listed and read.
-/

namespace HmcClient

/-- A virtual switch as it is listed. -/
structure VirtualSwitch where
  objectUri : String
  name : String
  type : Option String
  deriving DecidableEq, Repr

/-- All that is told of a virtual switch. -/
structure VirtualSwitchProperties where
  objectUri : String
  name : String
  description : Option String
  type : Option String
  backingAdapterUri : Option String
  port : Option Nat
  connectedVnicUris : List String
  extra : Members
  deriving BEq, Repr

/-- How a listed virtual switch is read and written. -/
def VirtualSwitch.codec : Codec VirtualSwitch :=
  (((Record.make VirtualSwitch VirtualSwitch.mk).required
    "object-uri" .text (·.objectUri)).required
    "name" .text (·.name)).optional
    "type" .text (·.type) |>.codec

/-- How the properties of a virtual switch are read and written. -/
def VirtualSwitchProperties.codec : Codec VirtualSwitchProperties :=
  ((((((((Record.make VirtualSwitchProperties VirtualSwitchProperties.mk).required
    "object-uri" .text (·.objectUri)).required
    "name" .text (·.name)).optional
    "description" .text (·.description)).optional
    "type" .text (·.type)).optional
    "backing-adapter-uri" .text (·.backingAdapterUri)).optional
    "port" .nat32 (·.port)).defaulted
    "connected-vnic-uris" (.list .text) [] (·.connectedVnicUris)).others (·.extra) |>.codecKeeping

namespace VirtualSwitch

/-- Lists the virtual switches of a machine. -/
def list (e : Endpoint) (cpcUri : String) (filter : ListFilter) : Operation (List VirtualSwitch) :=
  Talk.expect (e.getFiltered (cpcUri ++ "/virtual-switches") filter.toQuery)
    (·.items codec "virtual-switches")

/-- Reads the properties of a virtual switch. -/
def properties (e : Endpoint) (uri : String) : Operation VirtualSwitchProperties :=
  Talk.expect (e.get uri) (·.document VirtualSwitchProperties.codec [200])

end VirtualSwitch

end HmcClient
