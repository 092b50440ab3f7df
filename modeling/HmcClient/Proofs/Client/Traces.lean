import HmcClient.Proofs.Client.Conduct

/-!
# What operations do with the trace

An operation asks whether the trace is on, and if it is, it gives one text to it; either way it goes
on as if it had not asked. So whoever looks at anything but the trace cannot tell whether it is on.
`Traces` says this of a program, along every branch of its tree, and also which texts these are.
Around every message stand two of them, the dump of the request before and the dump of the answer
after it, if there is a whole one. How far this has come is told by a `Phase`, and an operation ends
where it has begun, between two exchanges.

What endangers this is a cancellation. Work that is given up between the dump of a request and its
message leaves a dump of nothing. There is a wait between the two, for the lock of the connection.
But nobody holds a lock of a client that does one thing after the other, so that wait takes no time,
and an operation that was not cancelled at the wait before is not cancelled there. `Traces` is told
of this by its flag.
-/

namespace HmcClient

/-- Whether a touch is one of the trace. -/
def Touch.isOfTrace : Touch → Bool
  | .isTraced | .trace _ | .redirectTrace _ => true
  | _ => false

end HmcClient

namespace HmcClient.Client

/-- How far the trace of an exchange has come. -/
inductive Phase where
  | idle
  /-- The request is traced, and its message is not yet sent. -/
  | asked (dump : String)
  /-- The message is answered, and the answer is not yet traced. -/
  | answered (dump : String)

/-- The texts that are traced in a phase, and the phase that follows. -/
inductive Phase.Writes : Phase → String → Phase → Prop where
  | request (dump : String) : Writes .idle dump (.asked dump)
  | answer (dump : String) : Writes (.answered dump) dump .idle

/-- The phase after a message. -/
def Delivery.phase : Delivery → Phase
  | .answered status headers body => .answered (Dump.response status headers body)
  | _ => .idle

/-- Whether a program traces its exchanges and ends as promised. The flag tells whether it is known
not to be cancelled. -/
def Traces {α : Type} (Q : Phase → α → Prop) : Bool → Phase → Action α → Prop
  | _, φ, .done a => Q φ a
  | runs, φ, .perform (.touch .isTraced) next => ∃ text φ', φ.Writes text φ' ∧
    (next true = .perform (.touch (.trace text)) fun _ => next false) ∧
    Traces Q runs φ' (next false)
  | _, _, .perform (.touch (.trace _)) _ | _, _, .perform (.touch (.redirectTrace _)) _ => False
  | runs, φ, .perform (.touch _) next => ∀ answer, Traces Q runs φ (next answer)
  | runs, φ, .perform (.release _) next => Traces Q runs φ (next ())
  | runs, φ, .perform (.acquire _ _ cancellable) next =>
    Traces Q (runs || cancellable) φ (next false) ∧
      (cancellable = true → runs = false → Traces Q false φ (next true))
  | _, φ, .perform (.exchange m cancellable) next =>
    φ = .asked (Dump.request m.request m.headers) ∧
      ∀ d, Traces Q (cancellable && d != .cancelled) d.phase (next d)
  | _, φ, .perform (.pause _ cancellable) next =>
    φ = .idle ∧ Traces Q cancellable φ (next false) ∧
      (cancellable = true → Traces Q false φ (next true))

/-- Where a call sends the trace, if it is such a call. -/
def Call.redirect? : Call → Option (Option Writer)
  | .traceOn writer => some (some writer)
  | .traceOff => some none
  | _ => none

namespace Traces

variable {α β : Type} {runs : Bool} {φ : Phase}

/-- Nothing is lost by knowing that an operation is not cancelled. -/
theorem mono {Q : Phase → α → Prop} {p : Action α} {runs' : Bool} (h : Traces Q runs φ p)
    (hruns : runs = true → runs' = true) : Traces Q runs' φ p := by
  induction p generalizing runs runs' φ with
  | done a => exact h
  | perform step next ih =>
      cases step with
      | touch t =>
          cases t with
          | isTraced =>
              obtain ⟨text, φ', hwrites, hnext, hrest⟩ := h
              exact ⟨text, φ', hwrites, hnext, ih false hrest hruns⟩
          | trace text => exact h
          | redirectTrace writer => exact h
          | _ => exact fun answer => ih answer (h answer) hruns
      | release lock => exact ih () h hruns
      | acquire lock access cancellable =>
          refine ⟨ih false h.1 fun hor => ?_, fun hc hstops => h.2 hc ?_⟩
          · rw [Bool.or_eq_true] at hor ⊢
            exact hor.imp_left hruns
          · exact Bool.eq_false_iff.2 fun hr => Bool.eq_false_iff.1 hstops (hruns hr)
      | exchange m cancellable => exact h
      | pause interval cancellable => exact h

theorem weaken {Q : Phase → α → Prop} {p : Action α} (h : Traces Q false φ p) :
    Traces Q runs φ p :=
  h.mono (by simp)

/-! ## Putting programs together -/

theorem trans {Q : Phase → α → Prop} {Q' : Phase → β → Prop} {p : Action α} {f : α → Action β}
    (h : Traces Q runs φ p) (hf : ∀ runs φ a, Q φ a → Traces Q' runs φ (f a)) :
    Traces Q' runs φ (p >>= f) := by
  show Traces Q' runs φ (Program.bind p f)
  induction p generalizing runs φ with
  | done a => exact hf runs φ a h
  | perform step next ih =>
      cases step with
      | touch t =>
          cases t with
          | isTraced =>
              obtain ⟨text, φ', hwrites, hnext, hrest⟩ := h
              exact ⟨text, φ', hwrites, congrArg (Program.bind · f) hnext, ih false hrest⟩
          | trace text => exact h.elim
          | redirectTrace writer => exact h.elim
          | _ => exact fun answer => ih answer (h answer)
      | release lock => exact ih () h
      | acquire lock access cancellable =>
          exact ⟨ih false h.1, fun hc hruns => ih true (h.2 hc hruns)⟩
      | exchange m cancellable => exact ⟨h.1, fun d => ih d (h.2 d)⟩
      | pause interval cancellable =>
          exact ⟨h.1, ih false h.2.1, fun hc => ih true (h.2.2 hc)⟩

theorem bind {Q : Phase → β → Prop} {p : Action α} {f : α → Action β}
    (h : Traces (fun φ a => Traces Q false φ (f a)) runs φ p) : Traces Q runs φ (p >>= f) :=
  trans h fun _ _ _ h => h.weaken

theorem map {Q : Phase → β → Prop} {p : Action α} {f : α → β}
    (h : Traces (fun φ a => Q φ (f a)) runs φ p) : Traces Q runs φ (f <$> p) := by
  rw [map_eq_pure_bind]
  exact bind h

/-- One task after the other. A failure of the first is the end. -/
theorem bindTask {Q : Phase → Result β → Prop} {x : Task α} {f : α → Task β}
    (h : Traces (fun φ result =>
      match result with
      | .ok a => Traces Q false φ (f a).run
      | .error failure => Q φ (.error failure)) runs φ x.run) :
    Traces Q runs φ (x >>= f).run := by
  rw [ExceptT.run_bind]
  refine trans h fun runs φ result hr => ?_
  cases result with
  | ok a => exact hr.weaken
  | error failure => exact hr

theorem lift {Q : Phase → Result α → Prop} {p : Action α}
    (h : Traces (fun φ a => Q φ (.ok a)) runs φ p) : Traces Q runs φ (liftM p : Task α).run :=
  map h

theorem locked {lock : Lock} {access : Access} {body : Action α} {Q : Phase → α → Prop}
    (h : Traces Q runs φ body) : Traces Q runs φ (Client.locked lock access body) := by
  refine ⟨?_, by simp⟩
  rw [Bool.or_false]
  show Traces Q runs φ
    (body >>= fun result => Program.ask (S := Steps) (.release lock) >>= fun _ => pure result)
  exact trans h fun _ _ _ ha => ha

theorem touch (t : Touch) {Q : Phase → t.Answer → Prop} (ht : t.isOfTrace = false)
    (h : ∀ answer, Q φ answer) : Traces Q runs φ (Client.touch t) := by
  cases t with
  | isTraced => cases ht
  | trace text => cases ht
  | redirectTrace writer => cases ht
  | _ => exact h

theorem lockedTouch {lock : Lock} {access : Access} (t : Touch) {Q : Phase → t.Answer → Prop}
    (ht : t.isOfTrace = false) (h : ∀ answer, Q φ answer) :
    Traces Q runs φ (Client.locked lock access (Client.touch t)) :=
  locked (touch t ht h)

theorem traced {text : String} {φ' : Phase} {Q : Phase → Unit → Prop}
    (hwrites : φ.Writes text φ') (h : Q φ' ()) : Traces Q runs φ (traced text) :=
  ⟨text, φ', hwrites, rfl, h⟩

/-! ## One exchange -/

theorem settle {r : Request} {d : Delivery} {Q : Phase → Result Response → Prop}
    (h : ∀ result, Q .idle result) : Traces Q runs d.phase (settle r d).run := by
  cases d with
  | answered status headers body => exact bindTask (lift (traced (.answer _) (h _)))
  | brokenOff status => exact h _
  | lost => exact h _
  | cancelled => exact h _

theorem dispatch {r : Request} {token : Option String} {Q : Phase → Result Response → Prop}
    (h : ∀ result, Q .idle result) : Traces Q runs .idle (dispatch r token).run := by
  refine bindTask ?_
  cases Headers.ofRequest Identity.userAgent r token with
  | error failure => exact h _
  | ok headers =>
      refine bindTask (lift (traced (.request _) ?_))
      refine bindTask (lift (lockedTouch .verification rfl fun verification => ?_))
      refine bindTask (lift ⟨rfl, fun d => ?_⟩)
      exact bindTask (lift (lockedTouch (.countRequest _) rfl fun _ => settle h))

/-! ## Logging on and off -/

theorem requestLogon {e : Endpoint} {newPassword : Option String}
    {Q : Phase → Result LogonData → Prop} (h : ∀ result, Q .idle result) :
    Traces Q runs .idle (requestLogon e newPassword).run := by
  refine bindTask (lift (lockedTouch .options rfl fun o => ?_))
  refine bindTask (lift (dispatch fun answer => ?_))
  refine bindTask (lift (lockedTouch .countLogon rfl fun _ => ?_))
  cases answer with
  | ok response => exact bindTask (h _)
  | error failure => exact bindTask (h _)


theorem installLogon {e : Endpoint} {Q : Phase → Result Unit → Prop}
    (h : ∀ result, Q .idle result) : Traces Q runs .idle (installLogon e).run := by
  refine bindTask (requestLogon fun opened => ?_)
  cases opened with
  | ok data => exact lift (touch (.install data) rfl fun _ => h _)
  | error failure => exact h _

theorem closeSession {e : Endpoint} {token : String} {Q : Phase → Result Unit → Prop}
    (h : ∀ result, Q .idle result) : Traces Q runs .idle (closeSession e token).run := by
  refine bindTask (dispatch fun answer => ?_)
  cases answer with
  | ok response => exact h _
  | error failure => exact h _

theorem currentToken {Q : Phase → Option String → Prop} (h : ∀ token, Q .idle token) :
    Traces Q runs .idle currentToken :=
  bind (lockedTouch .session rfl fun s => h s.token?)

theorem logoff {e : Endpoint} {Q : Phase → Result Unit → Prop} (h : ∀ result, Q .idle result) :
    Traces Q runs .idle (logoff e).run := by
  refine locked (bind (touch .session rfl fun s => ?_))
  split
  · exact h _
  · exact bind (touch .clear rfl fun _ => closeSession h)

theorem changePassword {e : Endpoint} {newPassword : String} {Q : Phase → Result Unit → Prop}
    (h : ∀ result, Q .idle result) : Traces Q runs .idle (changePassword e newPassword).run := by
  refine bindTask (requestLogon fun opened => ?_)
  cases opened with
  | ok data => exact closeSession h
  | error failure => exact h _

theorem probe {e : Endpoint} {token : String} {Q : Phase → Bool → Prop}
    (h : ∀ valid, Q .idle valid) : Traces Q runs .idle (probe e token) := by
  refine bind (dispatch fun answer => ?_)
  cases answer with
  | error failure => exact h false
  | ok response =>
      show Traces Q false .idle (if response.status = 200 then pure true else _)
      split
      · exact h true
      split
      · refine bind (locked (bind (touch .session rfl fun s => ?_)))
        split
        · exact touch .clear rfl fun _ => h false
        · exact h false
      · exact h false

theorem isLoggedOn {e : Endpoint} {refresh : Bool} {Q : Phase → Bool → Prop}
    (h : ∀ valid, Q .idle valid) : Traces Q runs .idle (isLoggedOn e refresh) := by
  refine bind (currentToken fun token => ?_)
  split
  · exact h false
  · split
    · exact probe h
    · exact h true

/-! ## Work that is given up -/

theorem releaseAll {Q : Phase → Unit → Prop} (locks : List Lock) (h : Q φ ()) :
    Traces Q runs φ (releaseAll locks) := by
  induction locks with
  | nil => exact h
  | cons lock rest ih => exact ih

theorem giveUpAll {Q : Phase → Option α → Prop} (locks : List Lock) (h : Q φ none) :
    Traces Q runs φ (.bind (Client.releaseAll locks) fun _ => .done none) :=
  bind (releaseAll locks h)

/-- Work that was not cancelled so far may be guarded: it is not given up at a lock, and where it
is, nothing is left half traced. -/
theorem guarded {Q : Phase → Option α → Prop} {p : Action α} {locks : List Lock}
    (hstop : Q .idle none) (h : Traces (fun φ a => Q φ (some a)) runs φ p) :
    Traces Q true φ (guarded locks p) := by
  induction p generalizing runs φ locks with
  | done a => exact h
  | perform step next ih =>
      cases step with
      | touch t =>
          cases t with
          | isTraced =>
              obtain ⟨text, φ', hwrites, hnext, hrest⟩ := h
              exact ⟨text, φ', hwrites, congrArg (Client.guarded locks) hnext, ih false hrest⟩
          | trace text => exact h.elim
          | redirectTrace writer => exact h.elim
          | _ => exact fun answer => ih answer (h answer)
      | release lock => exact ih () h
      | acquire lock access cancellable => exact ⟨ih false h.1, by simp⟩
      | exchange m cancellable =>
          rw [Client.guarded]
          refine ⟨h.1, fun d => ?_⟩
          cases d with
          | cancelled => exact giveUpAll _ hstop
          | answered status headers body => exact ih _ (h.2 _)
          | brokenOff status => exact ih _ (h.2 _)
          | lost => exact ih _ (h.2 _)
      | pause interval cancellable =>
          obtain ⟨rfl, hnext, -⟩ := h
          exact ⟨rfl, ih false hnext, fun _ => giveUpAll _ hstop⟩

/-- Work begins at a lock, and is known from there on not to be cancelled. -/
theorem untilCancelled {r : Request} {work : Task α} {Q : Phase → Result α → Prop}
    (hfirst : ∃ lock access next, work.run = .perform (.acquire lock access false) next)
    (hstop : Q .idle (.error (.ofCause (.cancelled r.method r.url.render))))
    (h : Traces Q false .idle work.run) : Traces Q runs .idle (untilCancelled r work).run := by
  rw [Client.untilCancelled]
  split
  · obtain ⟨lock, access, next, hwork⟩ := hfirst
    show Traces Q runs .idle (Client.guarded [] work.run >>= _)
    rw [hwork] at h ⊢
    refine bind ⟨?_, fun _ _ => giveUpAll [] hstop⟩
    rw [Bool.or_true]
    exact guarded hstop h.1
  · exact h.weaken

theorem ensureLoggedOn {e : Endpoint} {Q : Phase → Result Unit → Prop}
    (h : ∀ result, Q .idle result) : Traces Q runs .idle (ensureLoggedOn e).run := by
  refine bind (lockedTouch .session rfl fun s => ?_)
  split
  · exact h _
  · refine locked (bind (touch .session rfl fun s' => ?_))
    split
    · exact h _
    · exact installLogon h

theorem relogon {e : Endpoint} {stale : Option String} {Q : Phase → Result Unit → Prop}
    (h : ∀ result, Q .idle result) : Traces Q runs .idle (relogon e stale).run := by
  refine locked (bind (touch .session rfl fun s => ?_))
  split
  · exact h _
  · refine bind (requestLogon fun opened => ?_)
    cases opened with
    | ok data => exact bind (touch (.install data) rfl fun _ => h _)
    | error failure => exact bind (touch .clear rfl fun _ => h _)

/-! ## Executing a request -/

theorem attempt {r : Request} {Q : Phase → Result (Option String × Response) → Prop}
    (h : ∀ result, Q .idle result) : Traces Q runs .idle (attempt r).run := by
  refine bindTask (lift (currentToken fun token => ?_))
  refine bindTask (dispatch fun answer => ?_)
  cases answer with
  | ok response => exact h _
  | error failure => exact h _

theorem inSession {e : Endpoint} {r : Request} {Q : Phase → Result Response → Prop}
    (h : ∀ result, Q .idle result) : Traces Q runs .idle (inSession e r).run := by
  refine bindTask (attempt fun first => ?_)
  rcases first with failure | ⟨token, response⟩
  · exact h _
  dsimp only
  split
  · exact h _
  split
  · exact h _
  refine bindTask (untilCancelled ⟨_, _, _, rfl⟩ (h _) (relogon fun relogged => ?_))
  rcases relogged with failure | ⟨⟩
  · exact h _
  refine bindTask (attempt fun second => ?_)
  rcases second with failure | ⟨token, response⟩
  · exact h _
  · exact h _

theorem execute {e : Endpoint} {r : Request} {Q : Phase → Result Response → Prop}
    (h : ∀ result, Q .idle result) : Traces Q runs .idle (execute e r).run := by
  rw [execute_eq]
  split
  · refine bindTask (untilCancelled ⟨_, _, _, rfl⟩ (h _) (ensureLoggedOn fun opened => ?_))
    rcases opened with failure | ⟨⟩
    · exact h _
    · exact inSession h
  · exact inSession h

/-! ## Calls and operations on resources -/

theorem setSkipCertVerify {skip : Bool} {Q : Phase → Result Unit → Prop}
    (h : ∀ result, Q .idle result) : Traces Q runs .idle (setSkipCertVerify skip).run := by
  refine locked (bind (touch .options rfl fun o => bind (touch (.verify _) rfl fun verified => ?_)))
  cases verified with
  | error failure => exact h _
  | ok verification =>
      exact bind (lockedTouch (.setVerification _) rfl fun _ =>
        bind (touch (.setOptions _) rfl fun _ => h _))

theorem answerTalk {e : Endpoint} (effect : Talk.Effect) {Q : Phase → Talk.Answer effect → Prop}
    (h : ∀ answer, Q .idle answer) : Traces Q runs .idle (answerTalk e effect) := by
  cases effect with
  | execute r => exact execute h
  | sessionId => exact currentToken h
  | now => exact touch .now rfl h
  | pause interval cancellable => exact ⟨rfl, h false, fun _ => h true⟩

theorem perform {e : Endpoint} {p : Program Talk α} {Q : Phase → α → Prop}
    (h : ∀ a, Q .idle a) : Traces Q runs .idle (perform e p) := by
  induction p generalizing runs with
  | done a => exact h a
  | perform effect next ih => exact bind (answerTalk effect fun answer => ih answer)

theorem call {e : Endpoint} {c : Call} {Q : Phase → Outcome → Prop} (hc : c.redirect? = none)
    (h : ∀ outcome, Q .idle outcome) : Traces Q runs .idle (c.operation e) := by
  cases c with
  | logon => exact map (locked (installLogon fun _ => h _))
  | logoff => exact map (logoff fun _ => h _)
  | logonConsole => exact map (requestLogon fun _ => h _)
  | logoffConsole sessionId => exact map (closeSession fun _ => h _)
  | changePassword newPassword => exact map (changePassword fun _ => h _)
  | isLoggedOn refresh => exact map (isLoggedOn fun _ => h _)
  | execute r => exact map (execute fun _ => h _)
  | setSkipCertVerify skip => exact map (setSkipCertVerify fun _ => h _)
  | traceOn writer => cases hc
  | traceOff => cases hc
  | topics => exact map (bind (lockedTouch .session rfl fun _ => h _))
  | statistics => exact map (lockedTouch .statistics rfl fun _ => h _)

end Traces

end HmcClient.Client
