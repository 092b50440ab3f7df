import HmcClient.Failure

/-!
# Options

Who logs on, how the console's certificate is checked, and how long to wait for an answer. Options
come from a document, from the environment, or are set one by one. They can be shown; the password
is not.
-/

namespace HmcClient

/-- The options of a client. -/
structure Options where
  username : String
  password : String
  skipCertVerify : Bool
  /-- The file with the console's root certificates. -/
  caCert : Option String
  /-- Whether exchanges are traced from the start. -/
  trace : Bool
  /-- The longest wait for an answer; zero waits forever. -/
  timeoutSeconds : Nat
  deriving DecidableEq, Repr

namespace Options

/-- The longest wait unless another is set. -/
def defaultTimeoutSeconds : Nat := 30

/-- Options for a user. -/
def new (username password : String) : Options :=
  ⟨username, password, false, none, false, defaultTimeoutSeconds⟩

/-- How options are read and written. Every field may be missing. -/
def codec : Codec Options :=
  ((((((Record.make Options Options.mk).defaulted "username" .text "" (·.username)).defaulted
    "password" .text "" (·.password)).defaulted
    "skip-cert-verify" .bool false (·.skipCertVerify)).optional
    "ca-cert" .text (·.caCert)).defaulted
    "trace" .bool false (·.trace)).defaulted
    "timeout-seconds" .nat64 defaultTimeoutSeconds (·.timeoutSeconds) |>.codec

/-- A truth value as it is shown. -/
def boolText (b : Bool) : String := if b then "true" else "false"

/-- The options as they are shown. -/
def display (o : Options) : String :=
  let caCert := match o.caCert with
    | none => "None"
    | some path => "Some(" ++ Quoted.quote path ++ ")"
  "ClientOptions \x7b username: " ++ Quoted.quote o.username ++ ", password: " ++
    Quoted.quote "********" ++ ", skip_cert_verify: " ++ boolText o.skipCertVerify ++
    ", ca_cert: " ++ caCert ++ ", trace: " ++ boolText o.trace ++ ", timeout_seconds: " ++
    toString o.timeoutSeconds ++ " \x7d"

/-! ## Environment -/

/-- Settings by name. -/
abbrev Environment := List (String × String)

/-- A setting that must be there and not be empty. -/
def requiredSetting (env : Environment) (name : String) : Result String :=
  match env.lookup name with
  | some value => if value.isEmpty then .error (.ofCause (.missingSetting name)) else .ok value
  | none => .error (.ofCause (.missingSetting name))

/-- A setting that is on if it says true in any case, or one. -/
def flagSetting (env : Environment) (name : String) : Bool :=
  match env.lookup name with
  | some value => value.toList.map Literal.lowerAscii = "true".toList || value == "1"
  | none => false

/-- Endpoint and options from the environment. -/
def ofEnvironment (env : Environment) : Result (String × Options) := do
  let endpoint ← requiredSetting env "ZHMC_ENDPOINT"
  let username ← requiredSetting env "ZHMC_USERNAME"
  let password ← requiredSetting env "ZHMC_PASSWORD"
  let timeout ← match env.lookup "ZHMC_REQUEST_TIMEOUT_SECS" with
    | none => pure defaultTimeoutSeconds
    | some value =>
      match Literal.readNat Width.maxNat64 value.toList with
      | .ok n => pure n
      | .error fault => throw (.ofCause (.invalidSetting "ZHMC_REQUEST_TIMEOUT_SECS" fault))
  let caCert := (env.lookup "ZHMC_CA_CERT").filter (!·.isEmpty)
  return (endpoint, ⟨username, password, flagSetting env "ZHMC_SKIP_CERT_VERIFY", caCert,
    flagSetting env "ZHMC_TRACE", timeout⟩)

end Options

/-! ## Connections -/

/-- How connections to the console are kept; times are in seconds. -/
structure ConnectionSettings where
  maxIdleConnections : Nat
  idleTimeout : Nat
  connectionTimeout : Nat
  requestTimeout : Option Nat
  keepalive : Nat
  deriving DecidableEq, Repr

/-- The settings that go with options. -/
def Options.connection (o : Options) : ConnectionSettings :=
  ⟨10, 90, 10, if o.timeoutSeconds = 0 then none else some o.timeoutSeconds, 30⟩

end HmcClient
