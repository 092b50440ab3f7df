import HmcClient.Trust.Anchors
import HmcClient.Proofs.Trust.Pem

/-!
# Which certificate files can be used

There are three ways in which a certificate file is of no use: it is missing, it is malformed, or no
certificate in it can be a trust anchor. `Files.Spoilt` lists them with what each is reported as,
and `Files.Offers` says what there is in any other file. Options then fail with the fault of the
file they name, whether or not certificates are checked, and otherwise give the check that suits
them.

All of this holds whichever certificates are said to be usable, so nothing is assumed about that.
-/

namespace HmcClient

/-! ## Files -/

namespace Files

/-- Whether a file cannot be used, and why. -/
inductive Spoilt (usable : AnchorTest) (files : Files) (path : String) : Cause → Prop
  | missing (h : files.lookup path = none) : Spoilt usable files path (.missingCertificateFile path)
  | malformed {content : List UInt8} (h : files.lookup path = some content)
    (hcontent : Pem.certificates? content = none) :
    Spoilt usable files path (.malformedCertificateFile path)
  | useless {content : List UInt8} {certificates : List (List UInt8)}
    (h : files.lookup path = some content)
    (hcontent : Pem.certificates? content = some certificates)
    (hnone : ∀ c ∈ certificates, usable c = false) :
    Spoilt usable files path (.noUsableCertificate path)

/-- Whether a file can be used, and these are the trust anchors in it. -/
def Offers (usable : AnchorTest) (files : Files) (path : String) (roots : List (List UInt8)) :
    Prop :=
  ∃ content certificates, files.lookup path = some content ∧
    Pem.certificates? content = some certificates ∧
    roots = certificates.filter usable ∧ roots ≠ []

variable {usable : AnchorTest} {files : Files} {path : String}

theorem spoilt_or_offers (usable : AnchorTest) (files : Files) (path : String) :
    (∃ cause, files.Spoilt usable path cause) ∨ ∃ roots, files.Offers usable path roots := by
  cases h : files.lookup path with
  | none => exact .inl ⟨_, .missing h⟩
  | some content =>
      cases hcontent : Pem.certificates? content with
      | none => exact .inl ⟨_, .malformed h hcontent⟩
      | some certificates =>
          by_cases hroots : certificates.filter usable = []
          · exact .inl ⟨_, .useless h hcontent (by simpa using hroots)⟩
          · exact .inr ⟨_, content, certificates, h, hcontent, rfl, hroots⟩

/-- A file into which certificates are written offers those of them that are usable. -/
theorem offers_write {certificates : List (List UInt8)}
    (h : files.lookup path = some (Pem.write certificates))
    (hroots : certificates.filter usable ≠ []) :
    files.Offers usable path (certificates.filter usable) :=
  ⟨_, certificates, h, Pem.certificates?_write certificates, rfl, hroots⟩

end Files

namespace Verification

variable {usable : AnchorTest} {files : Files} {path : String} {o : Options}

theorem loadAnchors_of_spoilt {cause : Cause} (h : files.Spoilt usable path cause) :
    loadAnchors usable files path = .error (.ofCause cause) := by
  unfold loadAnchors
  cases h with
  | missing h => rw [h]
  | malformed h hcontent => simp only [h, hcontent]
  | useless h hcontent hnone =>
      have hroots := List.filter_eq_nil_iff.2 fun c hc => Bool.not_eq_true _ ▸ hnone c hc
      simp only [h, hcontent, hroots]

theorem loadAnchors_of_offers {roots : List (List UInt8)} (h : files.Offers usable path roots) :
    loadAnchors usable files path = .ok roots := by
  obtain ⟨content, certificates, hfile, hcontent, rfl, hroots⟩ := h
  unfold loadAnchors
  simp only [hfile, hcontent]

theorem loadAnchors_error_iff {failure : Failure} :
    loadAnchors usable files path = .error failure ↔
      ∃ cause, files.Spoilt usable path cause ∧ failure = .ofCause cause := by
  constructor
  · intro h
    obtain ⟨cause, hspoilt⟩ | ⟨roots, hoffers⟩ := files.spoilt_or_offers usable path
    · rw [loadAnchors_of_spoilt hspoilt] at h
      exact ⟨cause, hspoilt, (Except.error.inj h).symm⟩
    · rw [loadAnchors_of_offers hoffers] at h
      cases h
  · rintro ⟨cause, hspoilt, rfl⟩
    exact loadAnchors_of_spoilt hspoilt

theorem loadAnchors_ok_iff {roots : List (List UInt8)} :
    loadAnchors usable files path = .ok roots ↔ files.Offers usable path roots := by
  refine ⟨fun h => ?_, loadAnchors_of_offers⟩
  obtain ⟨cause, hspoilt⟩ | ⟨roots', hoffers⟩ := files.spoilt_or_offers usable path
  · rw [loadAnchors_of_spoilt hspoilt] at h
    cases h
  · rw [loadAnchors_of_offers hoffers] at h
    exact Except.ok.inj h ▸ hoffers

end Verification

/-! ## Options -/

/-- Whether options name a file that cannot be used, and how that is reported. -/
def Options.Spoilt (o : Options) (usable : AnchorTest) (files : Files) (failure : Failure) : Prop :=
  ∃ path cause, o.caCert = some path ∧ files.Spoilt usable path cause ∧ failure = .ofCause cause

/-- Whether a check is the one that options ask for, with anchors from these files. -/
structure Verification.Suits (v : Verification) (o : Options) (usable : AnchorTest)
    (files : Files) : Prop where
  off : v = .off ↔ o.skipCertVerify = true
  anchors : ∀ path, o.skipCertVerify = false → o.caCert = some path →
    ∃ roots, v = .anchors roots ∧ files.Offers usable path roots
  standard : o.skipCertVerify = false → o.caCert = none → v = .standard

namespace Verification

variable {usable : AnchorTest} {files : Files} {o : Options}

theorem ofOptions_none (ho : o.caCert = none) :
    ofOptions usable files o = .ok (if o.skipCertVerify then .off else .standard) := by
  unfold ofOptions
  rw [ho]
  cases o.skipCertVerify with
  | true => rfl
  | false => rfl

/-- The file is read even if its certificates are not needed. -/
theorem ofOptions_some {path : String} (ho : o.caCert = some path) :
    ofOptions usable files o = (loadAnchors usable files path).map fun roots =>
      if o.skipCertVerify then .off else .anchors roots := by
  unfold ofOptions
  rw [ho]
  dsimp only
  cases loadAnchors usable files path with
  | error fault => rfl
  | ok roots =>
      cases o.skipCertVerify with
      | true => rfl
      | false => rfl

theorem ofOptions_error_iff {failure : Failure} :
    ofOptions usable files o = .error failure ↔ o.Spoilt usable files failure := by
  unfold Options.Spoilt
  cases ho : o.caCert with
  | none => simp [ofOptions_none ho]
  | some path =>
      rw [ofOptions_some ho]
      simp only [Option.some.injEq, exists_and_left, exists_eq_left', ← loadAnchors_error_iff]
      cases loadAnchors usable files path with
      | error fault => simp [Except.map]
      | ok roots => simp [Except.map]

theorem suits_of_ofOptions {v : Verification} (h : ofOptions usable files o = .ok v) :
    v.Suits o usable files := by
  cases ho : o.caCert with
  | none =>
      rw [ofOptions_none ho] at h
      obtain rfl := Except.ok.inj h
      refine ⟨by simp, fun path _ hpath => ?_, fun hskip _ => by simp [hskip]⟩
      rw [ho] at hpath
      cases hpath
  | some path =>
      rw [ofOptions_some ho] at h
      cases hroots : loadAnchors usable files path with
      | error fault =>
          rw [hroots] at h
          cases h
      | ok roots =>
          rw [hroots] at h
          obtain rfl := Except.ok.inj h
          refine ⟨by simp, fun path' hskip hpath => ?_, fun _ hnone => ?_⟩
          · obtain rfl := Option.some.inj (ho.symm.trans hpath)
            exact ⟨roots, by simp [hskip], loadAnchors_ok_iff.1 hroots⟩
          · rw [ho] at hnone
            cases hnone

end Verification

end HmcClient
