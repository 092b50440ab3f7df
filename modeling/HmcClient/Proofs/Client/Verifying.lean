import HmcClient.Proofs.Client.Alone
import HmcClient.Proofs.Client.Calls
import HmcClient.Proofs.Trust.Anchors

/-!
# The check of certificates over the life of a client

How certificates are checked is kept beside the options that ask for it, and the trust anchors come
from a file that may change at any time. One operation writes the two cells, and it writes both or
neither (`Alone.run_setSkipCertVerify`). All others leave them as they are: `Spares` says so of
every branch of a program. So whatever a client goes through, its check is the one that its
options ask for, with the anchors that the file held when the check was last changed.
-/

namespace HmcClient

/-- The cells that the check of certificates is about, and where its anchors come from. -/
def Shared.trust (s : Shared) : Options × Verification × AnchorTest × Files :=
  (s.options, s.verification, s.usable, s.files)

/-- Whether a touch leaves these cells as they are. -/
def Touch.Spares (t : Touch) : Prop := ∀ s, (t.apply s).2.trust = s.trust

namespace Client

variable {σ α β : Type}

/-! ## Operations that leave the check alone -/

/-- Whether a step leaves the check alone. Only touches could do otherwise. -/
def Step.Spares : Step → Prop
  | .touch t => t.Spares
  | _ => True

/-- Whether a program leaves the check alone, whatever is answered. -/
def Spares : Action α → Prop
  | .done _ => True
  | .perform step next => step.Spares ∧ ∀ answer, Spares (next answer)

theorem Alone.handle_trust (answering : Answering σ) {step : Step} (h : step.Spares)
    (s : Alone σ) : (handle answering step s).2.shared.trust = s.shared.trust := by
  cases step with
  | touch t => exact h s.shared
  | release lock => rfl
  | acquire lock access cancellable => rfl
  | exchange m cancellable =>
      rw [handle, exchange]
      split
      · rfl
      · split
        · rfl
        · split <;> rfl
  | pause interval cancellable =>
      rw [handle]
      split <;> rfl

namespace Spares

theorem run {p : Action α} (h : Spares p) (answering : Answering σ) (s : Alone σ) :
    (s.run answering p).2.shared.trust = s.shared.trust := by
  induction p generalizing s with
  | done a => rfl
  | perform step next ih =>
      rw [Alone.run_perform, ih _ (h.2 _), Alone.handle_trust answering h.1]

theorem bind {p : Action α} {f : α → Action β} (h : Spares p) (hf : ∀ a, Spares (f a)) :
    Spares (p >>= f) := by
  show Spares (Program.bind p f)
  induction p with
  | done a => exact hf a
  | perform step next ih => exact ⟨h.1, fun answer => ih answer (h.2 answer)⟩

theorem map {p : Action α} (f : α → β) (h : Spares p) : Spares (f <$> p) := by
  rw [map_eq_pure_bind]
  exact bind h fun _ => trivial

theorem bindTask {x : Task α} {f : α → Task β} (h : Spares x.run) (hf : ∀ a, Spares (f a).run) :
    Spares (x >>= f).run := by
  rw [ExceptT.run_bind]
  refine bind h fun result => ?_
  cases result with
  | ok a => exact hf a
  | error failure => trivial

theorem lift {p : Action α} (h : Spares p) : Spares (liftM p : Task α).run := map _ h

theorem ofResult (result : Result α) : Spares (ofResult result).run := trivial

theorem touch {t : Touch} (h : t.Spares) : Spares (Client.touch t) := ⟨h, fun _ => trivial⟩

theorem locked {lock : Lock} {access : Access} {body : Action α} (h : Spares body) :
    Spares (Client.locked lock access body) := by
  refine ⟨trivial, fun _ => ?_⟩
  show Spares (body >>= fun result => Program.ask (S := Steps) (.release lock) >>= fun _ =>
    pure result)
  exact bind h fun _ => ⟨trivial, fun _ => trivial⟩

theorem traced (text : String) : Spares (traced text) := by
  refine bind (touch fun _ => rfl) fun isTraced => ?_
  cases isTraced with
  | true => exact touch fun _ => rfl
  | false => trivial

/-! ### Exchanges, logons and logoffs -/

theorem settle (r : Request) (d : Delivery) : Spares (settle r d).run := by
  cases d with
  | answered status headers body => exact bindTask (lift (traced _)) fun _ => trivial
  | brokenOff status => trivial
  | lost => trivial
  | cancelled => trivial

theorem dispatch (r : Request) (token : Option String) : Spares (dispatch r token).run := by
  refine bindTask (ofResult _) fun headers => ?_
  refine bindTask (lift (traced _)) fun _ => ?_
  refine bindTask (lift (locked (touch fun _ => rfl))) fun verification => ?_
  refine bindTask (lift ⟨trivial, fun _ => trivial⟩) fun delivery => ?_
  exact bindTask (lift (locked (touch fun _ => rfl))) fun _ => settle r delivery

theorem currentToken : Spares currentToken := bind (locked (touch fun _ => rfl)) fun _ => trivial

theorem requestLogon (e : Endpoint) (newPassword : Option String) :
    Spares (requestLogon e newPassword).run := by
  refine bindTask (lift (locked (touch fun _ => rfl))) fun o => ?_
  refine bindTask (lift (dispatch _ _)) fun answer => ?_
  refine bindTask (lift (locked (touch fun _ => rfl))) fun _ => ?_
  exact bindTask (ofResult answer) fun response => ofResult _

theorem installLogon (e : Endpoint) : Spares (installLogon e).run :=
  bindTask (requestLogon e none) fun _ => lift (touch fun _ => rfl)

theorem closeSession (e : Endpoint) (token : String) : Spares (closeSession e token).run :=
  bindTask (dispatch _ _) fun _ => ofResult _

theorem logoff (e : Endpoint) : Spares (logoff e).run := by
  refine locked (bind (touch fun _ => rfl) fun session => ?_)
  cases session.token? with
  | none => trivial
  | some token => exact bind (touch fun _ => rfl) fun _ => closeSession e token

theorem probe (e : Endpoint) (token : String) : Spares (probe e token) := by
  refine bind (dispatch _ _) fun answer => ?_
  cases answer with
  | error failure => trivial
  | ok response =>
      dsimp only
      split
      · trivial
      split
      · refine bind (locked (bind (touch fun _ => rfl) fun session => ?_)) fun _ => trivial
        split
        · exact touch fun _ => rfl
        · trivial
      · trivial

theorem isLoggedOn (e : Endpoint) (refresh : Bool) : Spares (isLoggedOn e refresh) := by
  refine bind currentToken fun token => ?_
  cases token with
  | none => trivial
  | some token =>
      cases refresh with
      | true => exact probe e token
      | false => trivial

theorem ensureLoggedOn (e : Endpoint) : Spares (ensureLoggedOn e).run := by
  refine bind (locked (touch fun _ => rfl)) fun session => ?_
  split
  · trivial
  · refine locked (bind (touch fun _ => rfl) fun session => ?_)
    split
    · trivial
    · exact installLogon e

theorem relogon (e : Endpoint) (stale : Option String) : Spares (relogon e stale).run := by
  refine locked (bind (touch fun _ => rfl) fun session => ?_)
  split
  · trivial
  · refine bind (requestLogon e none) fun opened => ?_
    cases opened with
    | ok data => exact bind (touch fun _ => rfl) fun _ => trivial
    | error failure => exact bind (touch fun _ => rfl) fun _ => trivial

/-! ### Work that is given up -/

theorem giveUpAll (locks : List Lock) :
    Spares (.bind (releaseAll locks) fun _ => .done (none : Option α)) := by
  refine bind ?_ fun _ => trivial
  induction locks with
  | nil => trivial
  | cons lock rest ih => exact ⟨trivial, fun _ => ih⟩

theorem guarded {p : Action α} (h : Spares p) (held : List Lock) : Spares (guarded held p) := by
  induction p generalizing held with
  | done a => trivial
  | perform step next ih =>
      have hnext answer := ih answer (h.2 answer)
      cases step with
      | touch t => exact ⟨h.1, fun answer => hnext answer held⟩
      | release lock => exact ⟨trivial, fun _ => hnext () _⟩
      | acquire lock access cancellable =>
          refine ⟨trivial, fun answer => ?_⟩
          cases answer with
          | true => exact giveUpAll held
          | false => exact hnext false _
      | exchange m cancellable =>
          rw [Client.guarded]
          refine ⟨trivial, fun answer => ?_⟩
          cases answer with
          | cancelled => exact giveUpAll held
          | answered status headers body => exact hnext _ held
          | brokenOff status => exact hnext _ held
          | lost => exact hnext _ held
      | pause interval cancellable =>
          refine ⟨trivial, fun answer => ?_⟩
          cases answer with
          | true => exact giveUpAll held
          | false => exact hnext false held

theorem untilCancelled (r : Request) {work : Task α} (h : Spares work.run) :
    Spares (untilCancelled r work).run := by
  rw [Client.untilCancelled]
  split
  · refine bind (guarded h []) fun result => ?_
    cases result with
    | some result => trivial
    | none => trivial
  · exact h

/-! ### Calls -/

theorem attempt (r : Request) : Spares (attempt r).run :=
  bindTask (lift currentToken) fun _ => bindTask (dispatch r _) fun _ => trivial

theorem inSession (e : Endpoint) (r : Request) : Spares (inSession e r).run := by
  refine bindTask (attempt r) fun first => ?_
  dsimp only
  split
  · trivial
  split
  · trivial
  refine bindTask (untilCancelled r (relogon e first.1)) fun _ => ?_
  exact bindTask (attempt r) fun second => ofResult _

theorem execute (e : Endpoint) (r : Request) : Spares (execute e r).run := by
  rw [execute_eq]
  split
  · exact bindTask (untilCancelled r (ensureLoggedOn e)) fun _ => inSession e r
  · exact inSession e r

/-- All calls but one leave the check alone. -/
theorem call (e : Endpoint) {c : Call} (hc : ∀ skip, c ≠ .setSkipCertVerify skip) :
    Spares (c.operation e) := by
  cases c with
  | logon => exact map _ (locked (installLogon e))
  | logoff => exact map _ (logoff e)
  | logonConsole => exact map _ (requestLogon e none)
  | logoffConsole sessionId => exact map _ (closeSession e sessionId)
  | changePassword newPassword =>
      exact map _ (bindTask (requestLogon e _) fun data => closeSession e data.sessionId)
  | isLoggedOn refresh => exact map _ (isLoggedOn e refresh)
  | execute r => exact map _ (execute e r)
  | setSkipCertVerify skip => exact absurd rfl (hc skip)
  | traceOn writer => exact map _ (touch fun _ => rfl)
  | traceOff => exact map _ (touch fun _ => rfl)
  | topics => exact map _ (bind (locked (touch fun _ => rfl)) fun _ => trivial)
  | statistics => exact map _ (locked (touch fun _ => rfl))

end Spares

/-! ## The operation that changes the check -/

namespace Alone

/-- The client with other options and another check. -/
def withTrust (s : Alone σ) (o : Options) (v : Verification) : Alone σ :=
  { s with shared := { s.shared with options := o, verification := v } }

theorem run_touch (answering : Answering σ) (s : Alone σ) (t : Touch) :
    s.run answering (touch t) =
      ((t.apply s.shared).1, { s with shared := (t.apply s.shared).2 }) := rfl

/-- A lock lets in at once whoever is alone. -/
theorem run_locked (answering : Answering σ) (s : Alone σ) (lock : Lock) (access : Access)
    (body : Action α) : s.run answering (locked lock access body) = s.run answering body := by
  show s.run answering (body >>= fun result => Program.ask (S := Steps) (.release lock) >>=
    fun _ => pure result) = _
  rw [run_bind]
  rfl

/-- The check is worked out before anything is written. -/
theorem run_setSkipCertVerify (answering : Answering σ) (s : Alone σ) (skip : Bool) :
    s.run answering (setSkipCertVerify skip).run =
      match Verification.ofOptions s.shared.usable s.shared.files
          { s.shared.options with skipCertVerify := skip } with
      | .error failure => (.error failure, s)
      | .ok v => (.ok (), s.withTrust { s.shared.options with skipCertVerify := skip } v) := by
  show s.run answering (locked .options .exclusive _) = _
  rw [run_locked, run_bind, run_touch, run_bind, run_touch]
  dsimp only [Touch.apply]
  cases Verification.ofOptions s.shared.usable s.shared.files
      { s.shared.options with skipCertVerify := skip } with
  | error failure => rfl
  | ok v => rfl

theorem run_callSetSkipCertVerify (answering : Answering σ) (s : Alone σ) (e : Endpoint)
    (skip : Bool) :
    s.run answering ((Call.setSkipCertVerify skip).operation e) =
      (.done (s.run answering (setSkipCertVerify skip).run).1,
        (s.run answering (setSkipCertVerify skip).run).2) := by
  rw [Call.operation, map_eq_pure_bind, run_bind]
  rfl

end Alone

/-- Whether a change of the check is made as a whole or not at all. It fails as the file fails that
the options name, and then leaves everything as it was; else it changes the options and the check
with them, and nothing besides. -/
structure Atomic (answering : Answering σ) (s : Alone σ) (skip : Bool) : Prop where
  fails : ∀ failure, (s.run answering (setSkipCertVerify skip).run).1 = .error failure ↔
    s.shared.options.Spoilt s.shared.usable s.shared.files failure
  undone : ∀ failure, (s.run answering (setSkipCertVerify skip).run).1 = .error failure →
    (s.run answering (setSkipCertVerify skip).run).2 = s
  done : (s.run answering (setSkipCertVerify skip).run).1 = .ok () →
    ∃ v, v.Suits { s.shared.options with skipCertVerify := skip } s.shared.usable s.shared.files ∧
      (s.run answering (setSkipCertVerify skip).run).2 =
        s.withTrust { s.shared.options with skipCertVerify := skip } v

theorem atomic (answering : Answering σ) (s : Alone σ) (skip : Bool) :
    Atomic answering s skip := by
  have hrun := s.run_setSkipCertVerify answering skip
  have hspoilt (failure : Failure) :
      s.shared.options.Spoilt s.shared.usable s.shared.files failure ↔
        Verification.ofOptions s.shared.usable s.shared.files
          { s.shared.options with skipCertVerify := skip } = .error failure :=
    (Verification.ofOptions_error_iff (o := { s.shared.options with skipCertVerify := skip })).symm
  cases hv : Verification.ofOptions s.shared.usable s.shared.files
      { s.shared.options with skipCertVerify := skip } with
  | error fault =>
      rw [hv] at hrun
      constructor
      · intro failure
        simp [hrun, hspoilt, hv]
      · intro failure _
        rw [hrun]
      · intro hok
        rw [hrun] at hok
        cases hok
  | ok v =>
      rw [hv] at hrun
      constructor
      · intro failure
        simp [hrun, hspoilt, hv]
      · intro failure hfailure
        rw [hrun] at hfailure
        cases hfailure
      · intro _
        exact ⟨v, Verification.suits_of_ofOptions hv, by rw [hrun]⟩

/-! ## Whatever a client goes through -/

/-- What happens to a client that does one thing after the other. -/
inductive Happening where
  /-- The files of the machine change. -/
  | change (files : Files)
  | call (c : Call)

/-- What the check of a client rests on. -/
structure Standing where
  /-- What the last change of the check has asked for. Only changes that succeed count, and the
  making of the client is the first. -/
  skip : Bool
  /-- The files as they were then. -/
  read : Files
  /-- The files as they are now. -/
  present : Files

/-- What the check rests on after a call. -/
def Standing.after (b : Standing) : Call → Outcome → Standing
  | .setSkipCertVerify skip, .done (.ok ()) => { b with skip := skip, read := b.present }
  | _, _ => b

theorem Standing.after_of_ne (b : Standing) {c : Call}
    (hc : ∀ skip, c ≠ .setSkipCertVerify skip) (outcome : Outcome) : b.after c outcome = b := by
  cases c with
  | setSkipCertVerify skip => exact absurd rfl (hc skip)
  | _ => rfl

/-- One thing happens to a client. -/
def undergo (answering : Answering σ) (e : Endpoint) :
    Alone σ × Standing → Happening → Alone σ × Standing
  | (s, b), .change files =>
    ({ s with shared := { s.shared with files := files } }, { b with present := files })
  | (s, b), .call c =>
    let (outcome, s') := s.run answering (c.operation e)
    (s', b.after c outcome)

section

variable {s : Alone σ} {b : Standing} {skip : Bool}

theorem undergo_of_ok (answering : Answering σ) (e : Endpoint) {v : Verification}
    (h : Verification.ofOptions s.shared.usable s.shared.files
      { s.shared.options with skipCertVerify := skip } = .ok v) :
    undergo answering e (s, b) (.call (.setSkipCertVerify skip)) =
      (s.withTrust { s.shared.options with skipCertVerify := skip } v,
        { b with skip := skip, read := b.present }) := by
  rw [undergo, Alone.run_callSetSkipCertVerify, Alone.run_setSkipCertVerify, h]
  rfl

theorem undergo_of_error (answering : Answering σ) (e : Endpoint) {failure : Failure}
    (h : Verification.ofOptions s.shared.usable s.shared.files
      { s.shared.options with skipCertVerify := skip } = .error failure) :
    undergo answering e (s, b) (.call (.setSkipCertVerify skip)) = (s, b) := by
  rw [undergo, Alone.run_callSetSkipCertVerify, Alone.run_setSkipCertVerify, h]
  rfl

end

/-- Whether the options of a client are those it was made with, but for the last change of the
check, and the check is the one that they ask for, with the anchors that there were then. -/
structure Coherent (usable : AnchorTest) (o : Options) (s : Shared) (b : Standing) : Prop where
  options : s.options = { o with skipCertVerify := b.skip }
  check : s.verification.Suits s.options usable b.read
  usable : s.usable = usable
  files : s.files = b.present

namespace Coherent

variable {usable : AnchorTest} {o : Options} {b : Standing}

theorem new {files : Files} {shared : Shared} (h : Shared.new usable files o = .ok shared) :
    Coherent usable o shared ⟨o.skipCertVerify, files, files⟩ := by
  unfold Shared.new at h
  cases hv : Verification.ofOptions usable files o with
  | error failure =>
      rw [hv] at h
      cases h
  | ok v =>
      rw [hv] at h
      obtain rfl := Except.ok.inj h
      exact ⟨rfl, Verification.suits_of_ofOptions hv, rfl, rfl⟩

theorem of_trust {s s' : Shared} (h : Coherent usable o s b) (hs : s'.trust = s.trust) :
    Coherent usable o s' b := by
  simp only [Shared.trust, Prod.mk.injEq] at hs
  obtain ⟨hoptions, hcheck, husable, hfiles⟩ := hs
  refine ⟨by rw [hoptions, h.options], ?_, by rw [husable, h.usable], by rw [hfiles, h.files]⟩
  rw [hoptions, hcheck]
  exact h.check

theorem setSkipCertVerify {s : Alone σ} (h : Coherent usable o s.shared b) (answering : Answering σ)
    (e : Endpoint) (skip : Bool) :
    Coherent usable o (s.run answering ((Call.setSkipCertVerify skip).operation e)).2.shared
      (b.after (.setSkipCertVerify skip)
        (s.run answering ((Call.setSkipCertVerify skip).operation e)).1) := by
  have hatomic := atomic answering s skip
  rw [Alone.run_callSetSkipCertVerify]
  cases hresult : (s.run answering (Client.setSkipCertVerify skip).run).1 with
  | error failure =>
      rw [hatomic.undone failure hresult]
      exact h
  | ok done =>
      obtain ⟨v, hsuits, hafter⟩ := hatomic.done hresult
      rw [hafter]
      refine ⟨?_, ?_, h.usable, h.files⟩
      · simp [Alone.withTrust, Standing.after, h.options]
      · show v.Suits { s.shared.options with skipCertVerify := skip } usable b.present
        rw [← h.files, ← h.usable]
        exact hsuits

theorem undergo {s : Alone σ} (h : Coherent usable o s.shared b) (answering : Answering σ)
    (e : Endpoint)
    (happening : Happening) :
    Coherent usable o (undergo answering e (s, b) happening).1.shared
      (undergo answering e (s, b) happening).2 := by
  cases happening with
  | change files => exact ⟨h.options, h.check, h.usable, rfl⟩
  | call c =>
      by_cases hc : ∃ skip, c = .setSkipCertVerify skip
      · obtain ⟨skip, rfl⟩ := hc
        exact h.setSkipCertVerify answering e skip
      · have hother : ∀ skip, c ≠ .setSkipCertVerify skip := fun skip heq => hc ⟨skip, heq⟩
        have hstays := h.of_trust ((Spares.call e hother).run answering s)
        rwa [← b.after_of_ne hother (s.run answering (c.operation e)).1] at hstays

/-- By induction on what happens. -/
theorem undergoAll {s : Alone σ} (h : Coherent usable o s.shared b) (answering : Answering σ)
    (e : Endpoint) (happenings : List Happening) :
    Coherent usable o (happenings.foldl (Client.undergo answering e) (s, b)).1.shared
      (happenings.foldl (Client.undergo answering e) (s, b)).2 := by
  induction happenings generalizing s b with
  | nil => exact h
  | cons happening rest ih =>
      rw [List.foldl_cons]
      exact ih (h.undergo answering e happening)

end Coherent

theorem new_eq {idna : Idna} {endpoint : String} {e : Endpoint}
    (he : Endpoint.parse idna endpoint = .ok e)
    (usable : AnchorTest) (files : Files) (o : Options) :
    Client.new idna usable files endpoint o = (Shared.new usable files o).map fun shared =>
      (e, shared) := by
  unfold Client.new
  rw [he]
  cases Shared.new usable files o with
  | error failure => rfl
  | ok shared => rfl

theorem new_error_iff {idna : Idna} {endpoint : String} {e : Endpoint}
    (he : Endpoint.parse idna endpoint = .ok e)
    (usable : AnchorTest) (files : Files) (o : Options) (failure : Failure) :
    Client.new idna usable files endpoint o = .error failure ↔ o.Spoilt usable files failure := by
  rw [new_eq he, ← Verification.ofOptions_error_iff, Shared.new]
  cases Verification.ofOptions usable files o with
  | error fault =>
      show Except.error fault = Except.error failure ↔ Except.error fault = Except.error failure
      simp only [Except.error.injEq]
  | ok v => exact iff_of_false nofun nofun

/-- A client is made unless its options name a file that cannot be used. Whatever happens to it and
to its files from then on, its check is the one that its options ask for, with the anchors that the
file held when the check was last changed; and the next change of the check succeeds or leaves
everything as it is. -/
theorem verification_coherent (answering : Answering σ) (console : σ) (cancelled : Bool)
    (usable : AnchorTest) (files : Files) {idna : Idna} {endpoint : String} {e : Endpoint}
    (o : Options)
    (he : Endpoint.parse idna endpoint = .ok e) :
    (∀ failure, Client.new idna usable files endpoint o = .error failure ↔
      o.Spoilt usable files failure) ∧
    ∀ shared, Client.new idna usable files endpoint o = .ok (e, shared) →
      ∀ happenings : List Happening,
      let after := happenings.foldl (undergo answering e)
        (⟨shared, console, cancelled⟩, ⟨o.skipCertVerify, files, files⟩)
      Coherent usable o after.1.shared after.2 ∧ ∀ skip, Atomic answering after.1 skip := by
  refine ⟨new_error_iff he usable files o, fun shared hnew happenings => ⟨?_, atomic answering _⟩⟩
  rw [new_eq he] at hnew
  cases hshared : Shared.new usable files o with
  | error failure =>
      rw [hshared] at hnew
      cases hnew
  | ok made =>
      rw [hshared] at hnew
      cases hnew
      exact (Coherent.new hshared).undergoAll answering e happenings

namespace Sample

/-- The certificate of an authority, as it stands in a file. -/
def authorityText : String :=
  String.join
    ["MIIDFTCCAf2gAwIBAgIULa2KQAo79DiNbMIN8DHyinpDkX4wDQYJKoZIhvcNAQEL",
      "BQAwGjEYMBYGA1UEAwwPaG1jLmV4YW1wbGUuY29tMB4XDTI2MTAxODE4NDcwMFoX",
      "DTM2MTAxNTE4NDcwMFowGjEYMBYGA1UEAwwPaG1jLmV4YW1wbGUuY29tMIIBIjAN",
      "BgkqhkiG9w0BAQEFAAOCAQ8AMIIBCgKCAQEA81YNwFivN0vj/hsjwfwDIW6cQr49",
      "2N9wKcIDA7mN8hl3Eif3KAxUxxrE3fGf3+hBdlfWyl3yhvwNKtRkBuXN5JWoqlDv",
      "3U6MdNoFL1DvA2t4n4L6hpkD56xjMz4hOcVG/dR6zV0U37mrMqArcynQsg7VAqmX",
      "h0XlpiBjhYa0/UP81sXh0dJ/rGa5HcB6Oj+OblgE5S+tYuqC+dx6G7f5AE6dqckG",
      "kMteVXhIQ7MacXGXcDgtXVyqfTmHTuoabxCejY6ADyWQ3IS1Ew/4s0X6t7n3x4Fe",
      "PEwcfB2DSVdjVzSxbc30tWftfippE4sGr6pXFLVCM8hoIPs0ZDh6tZVm+wIDAQAB",
      "o1MwUTAdBgNVHQ4EFgQU9gBIkbl5ktgXp5rzZ7Nps/GiugAwHwYDVR0jBBgwFoAU",
      "9gBIkbl5ktgXp5rzZ7Nps/GiugAwDwYDVR0TAQH/BAUwAwEB/zANBgkqhkiG9w0B",
      "AQsFAAOCAQEAnTaLF35L90iBi7MPwb5l33N972/IEvRTsikBGIKaF7b7G7LseecK",
      "Lj1bsPNa+seK1Fhs+cZ014yJTwq5GhSn85LWBrLRx3Czk7+yZaxa1yKe0HtoIxJZ",
      "ZXZqsYd+QfOuH+MmJuToqeoxDBzE1bse/D02coXkjrAQfKMmfzrLfRTptVFzYITT",
      "6Kb5HzwxmkQ15BrcR+Y+L6klDICJXfn07B6mFlqAS2oSG6csRLRxgiMnlPALvGuj",
      "Sb9gQDMPuJJSe/bjdT5rBjsOR9+Ms8t9X97+R4grR0DCNUHLQws5ZRoGlCL+GlzK",
      "PSXqF1OOP8jnT/ZlVrqdbHqkGsKfPiMWeQ=="]

/-- The certificate of the authority. -/
def authority : List UInt8 := (Pem.decodeBase64? (Pem.ascii authorityText)).getD []

/-- That certificate can be a trust anchor, and nothing else can. -/
def usable : AnchorTest := (· == authority)

def files : Files := [("ca.pem", Pem.write [authority])]

def trusting : Options := ⟨"user", "secret", false, some "ca.pem", true, 0⟩

/-- The cells of a client that is made with these options. -/
def trustful : Shared :=
  ⟨.none, trusting, .anchors [authority], .zero, .initial true, usable, files, ⟨0⟩⟩

theorem files_offer : files.Offers usable "ca.pem" [authority] := by
  have hroots : [authority].filter usable = [authority] :=
    List.filter_eq_self.2 fun c hc => by rw [List.mem_singleton.1 hc, usable, beq_self_eq_true]
  have hfile : files.lookup "ca.pem" = some (Pem.write [authority]) := List.lookup_cons_self
  exact hroots ▸ Files.offers_write hfile (by rw [hroots]; exact List.cons_ne_nil _ _)

theorem ofOptions_trusting (skip : Bool) :
    Verification.ofOptions usable files { trusting with skipCertVerify := skip } =
      .ok (if skip then .off else .anchors [authority]) := by
  rw [Verification.ofOptions_some rfl, Verification.loadAnchors_of_offers files_offer]
  rfl

theorem new_trusting : Client.new .asciiOnly usable files "https://hmc" trusting =
    .ok (endpoint, trustful) := by
  have hcheck := ofOptions_trusting false
  rw [new_eq parse_endpoint, Shared.new, show Verification.ofOptions usable files trusting = _ from
    hcheck]
  rfl

/-- Nothing is checked, then the file is lost, and then the check is to be done again. -/
def lostFile : List Happening :=
  [.call (.setSkipCertVerify true), .change [], .call (.setSkipCertVerify false)]

/-- The console is never asked. -/
def silent : Answering Unit := fun _ c => (none, c)

theorem undergo_lostFile :
    lostFile.foldl (undergo silent endpoint) (⟨trustful, (), false⟩, ⟨false, files, files⟩) =
      (⟨{ trustful with
          options := { trusting with skipCertVerify := true }, verification := .off, files := [] },
        (), false⟩, ⟨true, files, []⟩) := by
  have hcheck : Verification.ofOptions trustful.usable trustful.files
      { trustful.options with skipCertVerify := true } = .ok .off := ofOptions_trusting true
  rw [lostFile, List.foldl_cons, undergo_of_ok (s := ⟨trustful, (), false⟩) silent endpoint hcheck]
  exact undergo_of_error silent endpoint rfl

end Sample

/-- The client goes on without a check, and its options say so. -/
theorem verification_coherent_lost_file :
    let after := Sample.lostFile.foldl (undergo Sample.silent Sample.endpoint)
      (⟨Sample.trustful, (), false⟩, ⟨Sample.trusting.skipCertVerify, Sample.files, Sample.files⟩)
    (Coherent Sample.usable Sample.trusting after.1.shared after.2 ∧
      ∀ skip, Atomic Sample.silent after.1 skip) ∧
      after.1.shared.options.skipCertVerify = true ∧ after.1.shared.verification = .off ∧
      after.1.shared.files = [] := by
  have h := (verification_coherent Sample.silent () false Sample.usable Sample.files Sample.trusting
    Sample.parse_endpoint).2 _ Sample.new_trusting Sample.lostFile
  refine ⟨h, ?_⟩
  rw [show Sample.trusting.skipCertVerify = false from rfl, Sample.undergo_lostFile]
  exact ⟨rfl, rfl, rfl⟩

end Client

end HmcClient
