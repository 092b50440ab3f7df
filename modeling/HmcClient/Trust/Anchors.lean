import HmcClient.Options
import HmcClient.Trust.Pem

/-!
# Whom the client trusts

The options decide how a console's certificate is checked: not at all, against the certificates of a
file, or against those that the machine trusts anyway. A configured file is read even if nothing is
checked, so a file that cannot be used is a failure in any case.

Which certificates can serve as trust anchors is not decided here: the library that checks
certificates looks at each of them, and those that it refuses are passed over.
-/

namespace HmcClient

/-- How a console's certificate is checked. -/
inductive Verification where
  /-- Any certificate is accepted. -/
  | off
  /-- Against the certificates of a file. -/
  | anchors (roots : List (List UInt8))
  /-- Against the certificates that the machine trusts. -/
  | standard
  deriving DecidableEq, Repr

/-- Files by path. -/
abbrev Files := List (String × List UInt8)

/-- Whether a certificate, as it is encoded, can serve as a trust anchor. -/
abbrev AnchorTest := List UInt8 → Bool

namespace Verification

/-- The certificates in a file that can serve as trust anchors. -/
def loadAnchors (usable : AnchorTest) (files : Files) (path : String) :
    Result (List (List UInt8)) :=
  match files.lookup path with
  | none => .error (.ofCause (.missingCertificateFile path))
  | some content =>
    match Pem.certificates? content with
    | none => .error (.ofCause (.malformedCertificateFile path))
    | some certificates =>
      match certificates.filter usable with
      | [] => .error (.ofCause (.noUsableCertificate path))
      | roots => .ok roots

/-- The check that options ask for. -/
def ofOptions (usable : AnchorTest) (files : Files) (o : Options) : Result Verification := do
  let roots ← match o.caCert with
    | none => pure none
    | some path => (loadAnchors usable files path).map some
  if o.skipCertVerify then return .off
  match roots with
  | some roots => return .anchors roots
  | none => return .standard

/-- Whether the check differs from what is done without any options. -/
def isCustom : Verification → Bool
  | standard => false
  | _ => true

end Verification

end HmcClient
