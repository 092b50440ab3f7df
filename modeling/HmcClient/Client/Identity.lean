/-!
# How the client names itself

The name and version of the library and of the platform it runs on, and the header that tells them
to the console.
-/

namespace HmcClient.Identity

/-- The name of the library. -/
def name : String := "zhmc"

/-- The version of the library. -/
def version : String := "0.1.0"

/-- The operating system. -/
def system : String := "linux"

/-- The processor architecture. -/
def architecture : String := "x86_64"

/-- What the console is told with every request. -/
def userAgent : String :=
  "ZHMC (" ++ system ++ "; " ++ architecture ++ ") " ++ name ++ "/" ++ version

end HmcClient.Identity
