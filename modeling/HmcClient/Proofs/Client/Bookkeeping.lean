import HmcClient.Proofs.Client.Ledger

/-!
# How operations keep the books

`Books` says of a program that everything it does is in order in the books, along every branch of
its tree, and what is pending where it ends. An exchange leaves its outcome pending, and so whoever
exchanges has to count. A wait that is given up leaves nothing pending, except that a request which
is cancelled on its way still has to be counted.

Work that is guarded is given up at any of its waits, and then nobody is left to count. That is in
order only for logons of the client's own, and other messages are not sent in such work. `Books` is
told of this by its flag: with it, all messages of the program are such logons.
-/

namespace HmcClient.Client

variable {user : Options}

/-- Whether a program keeps the books and ends as promised. The flag tells whether it sends nothing
but logons of the client's own. -/
def Books {α : Type} (e : Endpoint) (user : Options) (Q : Pending → α → Prop) :
    Bool → Pending → Action α → Prop
  | _, σ, .done a => Q σ a
  | own, σ, .perform (.touch t) next =>
    σ.AllowsTouch t ∧ t.Keeps user ∧ ∀ answer, t.Gives user answer →
      Books e user Q own (σ.touched t) (next answer)
  | own, σ, .perform (.release _) next => Books e user Q own σ (next ())
  | own, σ, .perform (.acquire _ _ cancellable) next =>
    Books e user Q own σ (next false) ∧
      (cancellable = true → σ.MayStop ∧ Books e user Q own σ.givenUp (next true))
  | own, σ, .perform (.exchange m cancellable) next =>
    σ.isClear = true ∧ (own = true → σ = .logon) ∧
      (σ = .logon → ∃ newPassword, m.IsLogonOf e user newPassword) ∧
      (∀ d, d ≠ .cancelled → Books e user Q own (.request (σ == .logon) d.isAnswered) (next d)) ∧
      (cancellable = true → Books e user Q own σ.givenUp (next .cancelled) ∧
        Books e user Q own (Pending.answer (σ == .logon)).givenUp (next .cancelled))
  | own, σ, .perform (.pause _ cancellable) next =>
    Books e user Q own σ (next false) ∧
      (cancellable = true → σ.MayStop ∧ Books e user Q own σ.givenUp (next true))

namespace Books

variable {α β : Type} {e : Endpoint} {own : Bool} {σ : Pending}

/-! ## Putting programs together -/

theorem trans {Q : Pending → α → Prop} {Q' : Pending → β → Prop} {p : Action α} {f : α → Action β}
    (h : Books e user Q own σ p) (hf : ∀ σ a, Q σ a → Books e user Q' own σ (f a)) :
    Books e user Q' own σ (p >>= f) := by
  show Books e user Q' own σ (Program.bind p f)
  induction p generalizing σ with
  | done a => exact hf σ a h
  | perform step next ih =>
      cases step with
      | touch t =>
          exact ⟨h.1, h.2.1, fun answer hgives => ih answer (h.2.2 answer hgives)⟩
      | release lock => exact ih () h
      | acquire lock access cancellable =>
          exact ⟨ih false h.1, fun hc => ⟨(h.2 hc).1, ih true (h.2 hc).2⟩⟩
      | exchange m cancellable =>
          obtain ⟨hclear, hown, hlogon, hd, hcancel⟩ := h
          exact ⟨hclear, hown, hlogon, fun d hne => ih d (hd d hne),
            fun hc => ⟨ih _ (hcancel hc).1, ih _ (hcancel hc).2⟩⟩
      | pause interval cancellable =>
          exact ⟨ih false h.1, fun hc => ⟨(h.2 hc).1, ih true (h.2 hc).2⟩⟩

/-- A program that sends nothing but logons is a program. -/
theorem weaken {Q : Pending → α → Prop} {p : Action α} (h : Books e user Q true σ p) :
    Books e user Q own σ p := by
  induction p generalizing σ with
  | done a => exact h
  | perform step next ih =>
      cases step with
      | touch t =>
          exact ⟨h.1, h.2.1, fun answer hgives => ih answer (h.2.2 answer hgives)⟩
      | release lock => exact ih () h
      | acquire lock access cancellable =>
          exact ⟨ih false h.1, fun hc => ⟨(h.2 hc).1, ih true (h.2 hc).2⟩⟩
      | exchange m cancellable =>
          obtain ⟨hclear, hown, hlogon, hd, hcancel⟩ := h
          exact ⟨hclear, fun _ => hown rfl, hlogon, fun d hne => ih d (hd d hne),
            fun hc => ⟨ih _ (hcancel hc).1, ih _ (hcancel hc).2⟩⟩
      | pause interval cancellable =>
          exact ⟨ih false h.1, fun hc => ⟨(h.2 hc).1, ih true (h.2 hc).2⟩⟩

theorem bind {Q : Pending → β → Prop} {p : Action α} {f : α → Action β}
    (h : Books e user (fun σ a => Books e user Q own σ (f a)) own σ p) :
    Books e user Q own σ (p >>= f) :=
  trans h fun _ _ h => h

theorem map {Q : Pending → β → Prop} {p : Action α} {f : α → β}
    (h : Books e user (fun σ a => Q σ (f a)) own σ p) : Books e user Q own σ (f <$> p) := by
  rw [map_eq_pure_bind]
  exact bind h

/-- One task after the other. A failure of the first is the end. -/
theorem bindTask {Q : Pending → Result β → Prop} {x : Task α} {f : α → Task β}
    (h : Books e user (fun σ result =>
      match result with
      | .ok a => Books e user Q own σ (f a).run
      | .error failure => Q σ (.error failure)) own σ x.run) :
    Books e user Q own σ (x >>= f).run := by
  rw [ExceptT.run_bind]
  refine trans h fun σ result hr => ?_
  cases result with
  | ok a => exact hr
  | error failure => exact hr

theorem lift {Q : Pending → Result α → Prop} {p : Action α}
    (h : Books e user (fun σ a => Q σ (.ok a)) own σ p) :
    Books e user Q own σ (liftM p : Task α).run :=
  map h

theorem locked {lock : Lock} {access : Access} {body : Action α} {Q : Pending → α → Prop}
    (h : Books e user Q own σ body) : Books e user Q own σ (Client.locked lock access body) := by
  refine ⟨?_, nofun⟩
  show Books e user Q own σ
    (body >>= fun result => Program.ask (S := Steps) (.release lock) >>= fun _ => pure result)
  exact trans h fun _ _ ha => ha

theorem touch (t : Touch) {Q : Pending → t.Answer → Prop} (ht : σ.AllowsTouch t)
    (hkeeps : t.Keeps user) (h : ∀ answer, t.Gives user answer → Q (σ.touched t) answer) :
    Books e user Q own σ (Client.touch t) := ⟨ht, hkeeps, h⟩

theorem lockedTouch {lock : Lock} {access : Access} (t : Touch) {Q : Pending → t.Answer → Prop}
    (ht : σ.AllowsTouch t) (hkeeps : t.Keeps user)
    (h : ∀ answer, t.Gives user answer → Q (σ.touched t) answer) :
    Books e user Q own σ (Client.locked lock access (Client.touch t)) :=
  locked (touch t ht hkeeps h)

theorem traced {text : String} {Q : Pending → Unit → Prop} (h : Q σ ()) :
    Books e user Q own σ (traced text) := by
  refine bind (touch .isTraced trivial trivial fun traced _ => ?_)
  cases traced with
  | true => exact touch (.trace text) trivial trivial fun _ _ => h
  | false => exact h

/-! ## One exchange -/

/-- What is pending after an exchange: a logon of the client's own is still to be counted. -/
def afterExchange (σ : Pending) : Pending := if σ = .logon then .logonCount else .nothing

theorem settle {r : Request} {d : Delivery} {Q : Pending → Result Response → Prop}
    (h : ∀ result, Q σ result) : Books e user Q own σ (settle r d).run := by
  cases d with
  | answered status headers body => exact bindTask (lift (traced (h _)))
  | brokenOff status => exact h _
  | lost => exact h _
  | cancelled => exact h _

theorem dispatch {r : Request} {token : Option String} {Q : Pending → Result Response → Prop}
    (hclear : σ.isClear = true) (hown : own = true → σ = .logon)
    (hlogon : σ = .logon → r.cancellable = false ∧
      ∀ headers verification, Headers.ofRequest Identity.userAgent r token = .ok headers →
        ∃ newPassword, Message.IsLogonOf ⟨r, headers, token, verification⟩ e user newPassword)
    (hbad : ∀ failure, Headers.ofRequest Identity.userAgent r token = .error failure →
      Q σ (.error failure))
    (h : ∀ result, Q (afterExchange σ) result) : Books e user Q own σ (dispatch r token).run := by
  refine bindTask ?_
  cases hheaders : Headers.ofRequest Identity.userAgent r token with
  | error failure => exact hbad failure hheaders
  | ok headers =>
      refine bindTask (lift (traced ?_))
      refine bindTask (lift (lockedTouch .verification trivial trivial fun verification _ => ?_))
      -- Whatever becomes of the message, it is counted next.
      have hcount {σ' : Pending} {d : Delivery}
          (hallows : σ'.AllowsTouch (.countRequest d.isAnswered))
          (hafter : σ'.touched (.countRequest d.isAnswered) = afterExchange σ) :
          Books e user Q own σ'
            ((counted d.isAnswered : Task Unit) >>= fun _ => Client.settle r d).run := by
        refine bindTask (lift (lockedTouch _ hallows trivial fun _ _ => ?_))
        rw [hafter]
        exact settle h
      refine bindTask (lift ⟨hclear, hown, fun hσ => (hlogon hσ).2 headers verification hheaders,
        fun d _ => hcount (.inl ⟨_, rfl⟩) ?_, fun hc => ?_⟩)
      · cases σ <;> rfl
      · have hσ : σ ≠ .logon := fun hσ => Bool.false_ne_true ((hlogon hσ).1.symm.trans hc)
        have hafter : Pending.nothing = afterExchange σ := (if_neg hσ).symm
        have hstopped : σ.givenUp = .stopped := by
          cases σ with
          | nothing | logon | stopped => rfl
          | answer own | request own answered | logonCount => cases hclear
        show Books e user _ own σ.givenUp _ ∧
          Books e user _ own (Pending.answer (σ == .logon)).givenUp _
        rw [hstopped, beq_false_of_ne hσ]
        exact ⟨hcount (.inr ⟨rfl, rfl⟩) hafter, hcount (.inl ⟨_, rfl⟩) hafter⟩

theorem dispatchIdle {r : Request} {token : Option String} {Q : Pending → Result Response → Prop}
    (hσ : σ.isIdle = true) (h : ∀ σ, σ.isIdle = true → ∀ result, Q σ result) :
    Books e user Q false σ (Client.dispatch r token).run := by
  have hlogon : σ ≠ .logon := by
    rintro rfl
    cases hσ
  refine dispatch (Pending.isClear_of_isIdle hσ) nofun (fun heq => absurd heq hlogon)
    (fun failure _ => h σ hσ _) fun result => ?_
  rw [afterExchange, if_neg hlogon]
  exact h _ rfl result

/-! ## Logging on and off -/

theorem requestLogon {newPassword : Option String} {Q : Pending → Result LogonData → Prop}
    (hσ : σ.isIdle = true) (h : ∀ result, Q .nothing result) :
    Books e user Q own σ (requestLogon e newPassword).run := by
  refine bindTask (lift (lockedTouch .options (Pending.isClear_of_isIdle hσ) trivial
    fun o ho => ?_))
  dsimp only
  rw [logonRequest_eq e ho]
  refine bindTask (lift (dispatch rfl (fun _ => rfl) (fun _ => ⟨rfl, ?_⟩) ?_ fun answer => ?_))
  · exact fun headers verification hheaders => ⟨newPassword, ⟨hheaders, rfl, rfl⟩⟩
  · intro failure hfailure
    obtain ⟨headers, hheaders⟩ := ofRequest_logonRequest e user newPassword
    rw [hheaders] at hfailure
    cases hfailure
  · refine bindTask (lift (lockedTouch .countLogon rfl trivial fun _ _ => ?_))
    cases answer with
    | ok response => exact bindTask (h _)
    | error failure => exact bindTask (h _)

theorem installLogon {Q : Pending → Result Unit → Prop} (hσ : σ.isIdle = true)
    (h : ∀ result, Q .nothing result) : Books e user Q own σ (installLogon e).run := by
  refine bindTask (requestLogon hσ fun opened => ?_)
  cases opened with
  | ok data => exact lift (touch (.install data) trivial trivial fun _ _ => h _)
  | error failure => exact h _

theorem closeSession {token : String} {Q : Pending → Result Unit → Prop} (hσ : σ.isIdle = true)
    (h : ∀ σ, σ.isIdle = true → ∀ result, Q σ result) :
    Books e user Q false σ (closeSession e token).run := by
  refine bindTask (dispatchIdle hσ fun σ hσ answer => ?_)
  cases answer with
  | ok response => exact h σ hσ _
  | error failure => exact h σ hσ _

theorem currentToken {Q : Pending → Option String → Prop} (h : ∀ token, Q σ token) :
    Books e user Q own σ currentToken :=
  bind (lockedTouch .session trivial trivial fun s _ => h s.token?)

theorem logoff {Q : Pending → Result Unit → Prop} (hσ : σ.isIdle = true)
    (h : ∀ σ, σ.isIdle = true → ∀ result, Q σ result) : Books e user Q false σ (logoff e).run := by
  refine locked (bind (touch .session trivial trivial fun s _ => ?_))
  split
  · exact h σ hσ _
  · exact bind (touch .clear trivial trivial fun _ _ => closeSession hσ h)

theorem changePassword {newPassword : String} {Q : Pending → Result Unit → Prop}
    (hσ : σ.isIdle = true) (h : ∀ σ, σ.isIdle = true → ∀ result, Q σ result) :
    Books e user Q false σ (changePassword e newPassword).run := by
  refine bindTask (requestLogon hσ fun opened => ?_)
  cases opened with
  | ok data => exact closeSession rfl h
  | error failure => exact h _ rfl _

theorem isLoggedOn {refresh : Bool} {Q : Pending → Bool → Prop} (hσ : σ.isIdle = true)
    (h : ∀ σ, σ.isIdle = true → ∀ valid, Q σ valid) :
    Books e user Q false σ (isLoggedOn e refresh) := by
  refine bind (currentToken fun token => ?_)
  split
  · exact h σ hσ _
  split
  · refine bind (dispatchIdle hσ fun σ hσ answer => ?_)
    cases answer with
    | error failure => exact h σ hσ _
    | ok response =>
        show Books e user Q false σ (if response.status = 200 then pure true else _)
        split
        · exact h σ hσ _
        split
        · refine bind (locked (bind (touch .session trivial trivial fun s _ => ?_)))
          split
          · exact touch .clear trivial trivial fun _ _ => h σ hσ _
          · exact h σ hσ _
        · exact h σ hσ _
  · exact h σ hσ _

/-! ## Work that is given up -/

theorem giveUpAll {Q : Pending → Option α → Prop} (locks : List Lock) (h : Q σ none) :
    Books e user Q own σ (.bind (releaseAll locks) fun _ => .done none) := by
  refine bind ?_
  induction locks with
  | nil => exact h
  | cons lock rest ih => exact ih

/-- Work that sends nothing but logons of the client's own may be guarded. -/
theorem guarded {Q : Pending → Option α → Prop} {p : Action α} {locks : List Lock}
    (hown : σ.isForeign = false) (hstop : Q .stopped none)
    (h : Books e user (fun σ a => Q σ (some a)) true σ p) :
    Books e user Q own σ (guarded locks p) := by
  have hgiveUp {σ : Pending} (hown : σ.isForeign = false) (locks : List Lock) :
      σ.MayStop ∧ Books e user Q own σ.givenUp (.bind (releaseAll locks) fun _ => .done none) := by
    obtain ⟨hmay, hstopped⟩ := Pending.givenUp_of_isForeign hown
    rw [hstopped]
    exact ⟨hmay, giveUpAll locks hstop⟩
  induction p generalizing σ locks with
  | done a => exact h
  | perform step next ih =>
      cases step with
      | touch t =>
          exact ⟨h.1, h.2.1, fun answer hgives =>
            ih answer (Pending.isForeign_touched hown t) (h.2.2 answer hgives)⟩
      | release lock => exact ih () hown h
      | acquire lock access cancellable => exact ⟨ih false hown h.1, fun _ => hgiveUp hown _⟩
      | exchange m cancellable =>
          obtain ⟨hclear, hlogon, hm, hd, -⟩ := h
          obtain rfl := hlogon rfl
          rw [Client.guarded]
          refine ⟨rfl, fun _ => rfl, hm, fun d hne => ?_, fun _ =>
            ⟨(hgiveUp hown _).2, (hgiveUp (σ := .answer true) rfl _).2⟩⟩
          cases d with
          | cancelled => exact absurd rfl hne
          | answered status headers body => exact ih _ rfl (hd _ hne)
          | brokenOff status => exact ih _ rfl (hd _ hne)
          | lost => exact ih _ rfl (hd _ hne)
      | pause interval cancellable => exact ⟨ih false hown h.1, fun _ => hgiveUp hown _⟩

theorem untilCancelled {r : Request} {work : Task α} {Q : Pending → Result α → Prop}
    (hσ : σ.isIdle = true) (hstop : ∀ σ, σ.isIdle = true →
      Q σ (.error (.ofCause (.cancelled r.method r.url.render))))
    (h : Books e user Q true σ work.run) : Books e user Q false σ (untilCancelled r work).run := by
  rw [Client.untilCancelled]
  split
  · exact bind (guarded (Pending.isForeign_of_isIdle hσ) (hstop _ rfl) h)
  · exact h.weaken

theorem ensureLoggedOn {Q : Pending → Result Unit → Prop} (hσ : σ.isIdle = true)
    (h : ∀ σ, σ.isIdle = true → ∀ result, Q σ result) :
    Books e user Q own σ (ensureLoggedOn e).run := by
  refine bind (lockedTouch .session trivial trivial fun s _ => ?_)
  split
  · exact h σ hσ _
  · refine locked (bind (touch .session trivial trivial fun s' _ => ?_))
    split
    · exact h σ hσ _
    · exact installLogon hσ (h _ rfl)

theorem relogon {stale : Option String} {Q : Pending → Result Unit → Prop} (hσ : σ.isIdle = true)
    (h : ∀ σ, σ.isIdle = true → ∀ result, Q σ result) :
    Books e user Q own σ (relogon e stale).run := by
  refine locked (bind (touch .session trivial trivial fun s _ => ?_))
  split
  · exact h σ hσ _
  · refine bind (requestLogon hσ fun opened => ?_)
    cases opened with
    | ok data => exact bind (touch (.install data) trivial trivial fun _ _ => h _ rfl _)
    | error failure => exact bind (touch .clear trivial trivial fun _ _ => h _ rfl _)

/-! ## Executing a request -/

theorem attempt {r : Request} {Q : Pending → Result (Option String × Response) → Prop}
    (hσ : σ.isIdle = true) (h : ∀ σ, σ.isIdle = true → ∀ result, Q σ result) :
    Books e user Q false σ (attempt r).run := by
  refine bindTask (lift (currentToken fun token => ?_))
  refine bindTask (dispatchIdle hσ fun σ hσ answer => ?_)
  cases answer with
  | ok response => exact h σ hσ _
  | error failure => exact h σ hσ _

theorem inSession {r : Request} {Q : Pending → Result Response → Prop} (hσ : σ.isIdle = true)
    (h : ∀ σ, σ.isIdle = true → ∀ result, Q σ result) :
    Books e user Q false σ (inSession e r).run := by
  refine bindTask (attempt hσ fun σ hσ first => ?_)
  rcases first with failure | ⟨token, response⟩
  · exact h σ hσ _
  dsimp only
  split
  · exact h σ hσ _
  split
  · exact h σ hσ _
  refine bindTask (untilCancelled hσ (fun σ hσ => h σ hσ _) (relogon hσ fun σ hσ relogged => ?_))
  rcases relogged with failure | ⟨⟩
  · exact h σ hσ _
  refine bindTask (attempt hσ fun σ hσ second => ?_)
  rcases second with failure | ⟨token, response⟩
  · exact h σ hσ _
  · exact h σ hσ _

theorem execute {r : Request} {Q : Pending → Result Response → Prop} (hσ : σ.isIdle = true)
    (h : ∀ σ, σ.isIdle = true → ∀ result, Q σ result) :
    Books e user Q false σ (execute e r).run := by
  rw [execute_eq]
  split
  · refine bindTask (untilCancelled hσ (fun σ hσ => h σ hσ _)
      (ensureLoggedOn hσ fun σ hσ opened => ?_))
    rcases opened with failure | ⟨⟩
    · exact h σ hσ _
    · exact inSession hσ h
  · exact inSession hσ h

/-! ## Calls and operations on resources -/

theorem setSkipCertVerify {skip : Bool} {Q : Pending → Result Unit → Prop} (hσ : σ.isIdle = true)
    (h : ∀ σ, σ.isClear = true → ∀ result, Q σ result) :
    Books e user Q false σ (setSkipCertVerify skip).run := by
  refine locked (bind (touch .options (Pending.isClear_of_isIdle hσ) trivial fun o ho =>
    bind (touch (.verify _) trivial trivial fun verified _ => ?_)))
  cases verified with
  | error failure => exact h .logon rfl _
  | ok verification =>
      exact bind (lockedTouch (.setVerification _) trivial trivial fun _ _ =>
        bind (touch (.setOptions _) trivial ⟨ho.username, ho.password⟩ fun _ _ => h .logon rfl _))

theorem answerTalk (effect : Talk.Effect) {Q : Pending → Talk.Answer effect → Prop}
    (hσ : σ.isIdle = true) (h : ∀ σ, σ.isIdle = true → ∀ answer, Q σ answer) :
    Books e user Q false σ (answerTalk e effect) := by
  cases effect with
  | execute r => exact execute hσ h
  | sessionId => exact currentToken (h σ hσ)
  | now => exact touch .now trivial trivial fun now _ => h σ hσ now
  | pause interval cancellable =>
      obtain ⟨hmay, hstopped⟩ := Pending.givenUp_of_isForeign (Pending.isForeign_of_isIdle hσ)
      exact ⟨h σ hσ _, fun _ => ⟨hmay, h _ (by rw [hstopped]; rfl) _⟩⟩

theorem perform {p : Program Talk α} {Q : Pending → α → Prop} (hσ : σ.isIdle = true)
    (h : ∀ σ, σ.isIdle = true → ∀ a, Q σ a) : Books e user Q false σ (perform e p) := by
  induction p generalizing σ with
  | done a => exact h σ hσ a
  | perform effect next ih =>
      exact bind (answerTalk effect hσ fun σ hσ answer => ih answer hσ)

theorem call {c : Call} {Q : Pending → Outcome → Prop} (hσ : σ.isIdle = true)
    (h : ∀ σ, σ.isClear = true → ∀ outcome, Q σ outcome) :
    Books e user Q false σ (c.operation e) := by
  have hidle (σ : Pending) (hσ : σ.isIdle = true) := h σ (Pending.isClear_of_isIdle hσ)
  cases c with
  | logon => exact map (locked (installLogon hσ fun _ => h _ rfl _))
  | logoff => exact map (logoff hσ fun σ hσ _ => hidle σ hσ _)
  | logonConsole => exact map (requestLogon hσ fun _ => h _ rfl _)
  | logoffConsole sessionId => exact map (closeSession hσ fun σ hσ _ => hidle σ hσ _)
  | changePassword newPassword => exact map (changePassword hσ fun σ hσ _ => hidle σ hσ _)
  | isLoggedOn refresh => exact map (isLoggedOn hσ fun σ hσ _ => hidle σ hσ _)
  | execute r => exact map (execute hσ fun σ hσ _ => hidle σ hσ _)
  | setSkipCertVerify skip => exact map (setSkipCertVerify hσ fun σ hσ _ => h σ hσ _)
  | traceOn writer => exact map (touch _ trivial trivial fun _ _ => hidle σ hσ _)
  | traceOff => exact map (touch _ trivial trivial fun _ _ => hidle σ hσ _)
  | topics => exact map (bind (lockedTouch .session trivial trivial fun _ _ => hidle σ hσ _))
  | statistics => exact map (lockedTouch .statistics trivial trivial fun _ _ => hidle σ hσ _)

end Books

end HmcClient.Client
