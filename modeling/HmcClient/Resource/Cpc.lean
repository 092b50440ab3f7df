import HmcClient.Exchange.Talk

/-!
# Central processing complexes

The machines that the console manages. They can be listed and read.
-/

namespace HmcClient

/-- A machine as it is listed. -/
structure Cpc where
  objectUri : String
  name : String
  status : Option String
  deriving DecidableEq, Repr

/-- All that is told of a machine. -/
structure CpcProperties where
  objectUri : String
  name : String
  description : Option String
  status : Option String
  dpmEnabled : Option Bool
  seVersion : Option String
  machineType : Option String
  machineModel : Option String
  extra : Members
  deriving BEq, Repr

/-- How a listed machine is read and written. -/
def Cpc.codec : Codec Cpc :=
  (((Record.make Cpc Cpc.mk).required "object-uri" .text (·.objectUri)).required
    "name" .text (·.name)).optional
    "status" .text (·.status) |>.codec

/-- How the properties of a machine are read and written. -/
def CpcProperties.codec : Codec CpcProperties :=
  (((((((((Record.make CpcProperties CpcProperties.mk).required
    "object-uri" .text (·.objectUri)).required
    "name" .text (·.name)).optional
    "description" .text (·.description)).optional
    "status" .text (·.status)).optional
    "dpm-enabled" .bool (·.dpmEnabled)).optional
    "se-version" .text (·.seVersion)).optional
    "machine-type" .text (·.machineType)).optional
    "machine-model" .text (·.machineModel)).others (·.extra) |>.codecKeeping

namespace Cpc

/-- Lists the machines. -/
def list (e : Endpoint) : Operation (List Cpc) :=
  Talk.expect (e.get "/cpcs") (·.items codec "cpcs")

/-- Reads the properties of a machine. -/
def properties (e : Endpoint) (uri : String) : Operation CpcProperties :=
  Talk.expect (e.get uri) (·.document CpcProperties.codec [200])

end Cpc

end HmcClient
