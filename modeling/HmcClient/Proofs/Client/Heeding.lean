import HmcClient.Proofs.Client.Conduct

/-!
# Which operations heed a cancellation

A cancelled operation stops at its next wait that can be cancelled, so what a cancellation can do is
told by where these waits are. `Heeds` says two things of a program, along every branch of its tree.
If asked to, that each of its messages can be cancelled, so that none is sent by a cancelled
operation. And that it clears the session only where it is about to end: no wait comes after that,
so an operation that has cleared the session is not cancelled any more.

A logon is sent by the client itself and cannot be cancelled as a message. It is the guard around
the work for a request that makes it so, whatever that work is, and so the first half holds of
guarded work and not of the work as such.
-/

namespace HmcClient.Client

/-- Whether a program heeds a cancellation and ends as promised, where the flag tells whether it has
cleared the session. `strict` asks that each message can be cancelled. -/
def Heeds {α : Type} (strict : Bool) (Q : Bool → α → Prop) : Bool → Action α → Prop
  | cleared, .done a => Q cleared a
  | cleared, .perform (.touch t) next => ∀ answer,
    Heeds strict Q (cleared || decide (t = .clear)) (next answer)
  | cleared, .perform (.release _) next => Heeds strict Q cleared (next ())
  | cleared, .perform (.acquire _ _ cancellable) next =>
    cleared = false ∧ Heeds strict Q false (next false) ∧
      (cancellable = true → Heeds strict Q false (next true))
  | cleared, .perform (.exchange _ cancellable) next =>
    cleared = false ∧ (strict = true → cancellable = true) ∧
      ∀ d, (d = .cancelled → cancellable = true) → Heeds strict Q false (next d)
  | cleared, .perform (.pause _ cancellable) next =>
    cleared = false ∧ Heeds strict Q false (next false) ∧
      (cancellable = true → Heeds strict Q false (next true))

namespace Heeds

variable {α β : Type} {strict cleared : Bool}

/-! ## Putting programs together -/

theorem trans {Q : Bool → α → Prop} {Q' : Bool → β → Prop} {p : Action α} {f : α → Action β}
    (h : Heeds strict Q cleared p) (hf : ∀ c a, Q c a → Heeds strict Q' c (f a)) :
    Heeds strict Q' cleared (p >>= f) := by
  show Heeds strict Q' cleared (Program.bind p f)
  induction p generalizing cleared with
  | done a => exact hf cleared a h
  | perform step next ih =>
      cases step with
      | touch t => exact fun answer => ih answer (h answer)
      | release lock => exact ih () h
      | acquire lock access cancellable =>
          exact ⟨h.1, ih false h.2.1, fun hc => ih true (h.2.2 hc)⟩
      | exchange m cancellable => exact ⟨h.1, h.2.1, fun d hd => ih d (h.2.2 d hd)⟩
      | pause interval cancellable =>
          exact ⟨h.1, ih false h.2.1, fun hc => ih true (h.2.2 hc)⟩

theorem bind {Q : Bool → β → Prop} {p : Action α} {f : α → Action β}
    (h : Heeds strict (fun c a => Heeds strict Q c (f a)) cleared p) :
    Heeds strict Q cleared (p >>= f) :=
  trans h fun _ _ h => h

theorem map {Q : Bool → β → Prop} {p : Action α} {f : α → β}
    (h : Heeds strict (fun c a => Q c (f a)) cleared p) : Heeds strict Q cleared (f <$> p) := by
  rw [map_eq_pure_bind]
  exact bind h

/-- One task after the other. A failure of the first is the end. -/
theorem bindTask {Q : Bool → Result β → Prop} {x : Task α} {f : α → Task β}
    (h : Heeds strict (fun c result =>
      match result with
      | .ok a => Heeds strict Q c (f a).run
      | .error failure => Q c (.error failure)) cleared x.run) :
    Heeds strict Q cleared (x >>= f).run := by
  rw [ExceptT.run_bind]
  refine trans h fun c result hr => ?_
  cases result with
  | ok a => exact hr
  | error failure => exact hr

theorem lift {Q : Bool → Result α → Prop} {p : Action α}
    (h : Heeds strict (fun c a => Q c (.ok a)) cleared p) :
    Heeds strict Q cleared (liftM p : Task α).run :=
  map h

theorem touch {t : Touch} {Q : Bool → t.Answer → Prop} (ht : t ≠ .clear)
    (h : ∀ answer, Q cleared answer) : Heeds strict Q cleared (Client.touch t) := by
  intro answer
  rw [decide_eq_false ht, Bool.or_false]
  exact h answer

theorem clear {Q : Bool → Unit → Prop} (h : Q true ()) :
    Heeds strict Q cleared (Client.touch .clear) := by
  intro answer
  rw [decide_eq_true rfl, Bool.or_true]
  exact h

theorem locked {lock : Lock} {access : Access} {body : Action α} {Q : Bool → α → Prop}
    (h : Heeds strict Q false body) : Heeds strict Q false (Client.locked lock access body) := by
  refine ⟨rfl, ?_, fun hc => nomatch hc⟩
  show Heeds strict Q false
    (body >>= fun result => Program.ask (S := Steps) (.release lock) >>= fun _ => pure result)
  exact trans h fun _ _ ha => ha

/-- What is done to a cell under its lock, if it does not clear the session. -/
theorem lockedTouch {lock : Lock} {access : Access} {t : Touch} {Q : Bool → t.Answer → Prop}
    (ht : t ≠ .clear) (h : ∀ answer, Q false answer) :
    Heeds strict Q false (Client.locked lock access (Client.touch t)) :=
  locked (touch ht h)

/-! ## One exchange -/

theorem traced {text : String} {Q : Bool → Unit → Prop} (h : Q cleared ()) :
    Heeds strict Q cleared (traced text) := by
  refine bind (touch (by decide) fun enabled => ?_)
  split
  · exact touch (by simp) fun _ => h
  · exact h

theorem settle {r : Request} {d : Delivery} {Q : Bool → Result Response → Prop}
    (h : Q cleared (d.outcome r)) : Heeds strict Q cleared (settle r d).run := by
  cases d with
  | answered status headers body => exact bindTask (lift (traced h))
  | brokenOff status => exact h
  | lost => exact h
  | cancelled => exact h

theorem dispatch {r : Request} {token : Option String} {Q : Bool → Result Response → Prop}
    (hstrict : strict = true → r.cancellable = true)
    (hbad : ∀ failure, Headers.ofRequest Identity.userAgent r token = .error failure →
      Q false (.error failure))
    (h : ∀ d : Delivery, (d = .cancelled → r.cancellable = true) → Q false (d.outcome r)) :
    Heeds strict Q false (dispatch r token).run := by
  refine bindTask ?_
  cases hheaders : Headers.ofRequest Identity.userAgent r token with
  | error failure => exact hbad failure hheaders
  | ok headers =>
      refine bindTask (lift (traced ?_))
      refine bindTask (lift (lockedTouch (by decide) fun verification => ?_))
      refine bindTask (lift ⟨rfl, hstrict, fun d hd => ?_⟩)
      exact bindTask (lift (lockedTouch (by simp) fun _ => settle (h d hd)))

/-! ## One logon -/

theorem requestLogon {e : Endpoint} {newPassword : Option String}
    {Q : Bool → Result LogonData → Prop} (h : ∀ d : Delivery, d ≠ .cancelled → Q false d.opened) :
    Heeds false Q false (requestLogon e newPassword).run := by
  refine bindTask (lift (lockedTouch (by decide) fun o => ?_))
  refine bindTask (lift (dispatch (fun hs => nomatch hs) ?_ fun d hd => ?_))
  · intro failure hfailure
    obtain ⟨headers, hheaders⟩ := ofRequest_logonRequest e o newPassword
    rw [hheaders] at hfailure
    cases hfailure
  · refine bindTask (lift (lockedTouch (by decide) fun _ => ?_))
    -- A logon is no message that can be cancelled by itself.
    have hopened := h d fun hcancelled => nomatch hd hcancelled
    cases d with
    | answered status headers body => exact bindTask hopened
    | brokenOff status => exact bindTask hopened
    | lost => exact bindTask hopened
    | cancelled => exact nomatch hd rfl

theorem installLogon {e : Endpoint} {Q : Bool → Result Unit → Prop}
    (h : ∀ result, Q false result) : Heeds false Q false (installLogon e).run := by
  refine bindTask (requestLogon fun d _ => ?_)
  cases d.opened with
  | ok data => exact lift (touch (by simp) fun _ => h _)
  | error failure => exact h _

/-! ## Work that is given up -/

theorem releaseAll {Q : Bool → Unit → Prop} (locks : List Lock) (h : Q cleared ()) :
    Heeds strict Q cleared (releaseAll locks) := by
  induction locks with
  | nil => exact h
  | cons lock rest ih => exact ih

/-- Whatever work is guarded, each of its messages can be cancelled. Nothing is promised of what the
work does with a message that is cancelled, since it is given up before it can do anything. -/
theorem guarded {Q : Bool → Option α → Prop} {p : Action α} {locks : List Lock}
    (hstop : Q false none) (h : Heeds false (fun c a => Q c (some a)) cleared p) :
    Heeds strict Q cleared (guarded locks p) := by
  have hgiveUp : ∀ locks, Heeds strict Q false
      (.bind (Client.releaseAll locks) fun _ => .done none) :=
    fun locks => bind (releaseAll locks hstop)
  induction p generalizing cleared locks with
  | done a => exact h
  | perform step next ih =>
      cases step with
      | touch t => exact fun answer => ih answer (h answer)
      | release lock => exact ih () h
      | acquire lock access cancellable => exact ⟨h.1, ih false h.2.1, fun _ => hgiveUp _⟩
      | exchange m cancellable =>
          rw [Client.guarded]
          refine ⟨h.1, fun _ => rfl, fun d _ => ?_⟩
          cases d with
          | cancelled => exact hgiveUp _
          | answered status headers body => exact ih _ (h.2.2 _ (by simp))
          | brokenOff status => exact ih _ (h.2.2 _ (by simp))
          | lost => exact ih _ (h.2.2 _ (by simp))
      | pause interval cancellable => exact ⟨h.1, ih false h.2.1, fun _ => hgiveUp _⟩

theorem untilCancelled {r : Request} (hr : r.cancellable = true) {work : Task α}
    {Q : Bool → Result α → Prop}
    (hstop : Q false (.error (.ofCause (.cancelled r.method r.url.render))))
    (h : Heeds false Q false work.run) : Heeds true Q false (untilCancelled r work).run := by
  rw [Client.untilCancelled, if_pos hr]
  exact bind (guarded hstop h)

theorem ensureLoggedOn {e : Endpoint} {Q : Bool → Result Unit → Prop}
    (h : ∀ result, Q false result) : Heeds false Q false (ensureLoggedOn e).run := by
  refine bind (lockedTouch (by decide) fun s => ?_)
  split
  · exact h _
  · refine locked (bind (touch (by decide) fun s' => ?_))
    split
    · exact h _
    · exact installLogon h

/-- A session is cleared only where a logon has failed, and that failure is then the end. -/
theorem relogon {e : Endpoint} {stale : Option String} {Q : Bool → Result Unit → Prop}
    (h : ∀ result, Q false result)
    (hfailed : ∀ (d : Delivery) failure, d ≠ .cancelled → d.opened = .error failure →
      Q true (.error failure)) : Heeds false Q false (relogon e stale).run := by
  refine locked (bind (touch (by decide) fun s => ?_))
  split
  · exact h _
  · refine bind (requestLogon fun d hd => ?_)
    cases hopened : d.opened with
    | ok data => exact bind (touch (by simp) fun _ => h _)
    | error failure => exact bind (clear (hfailed d failure hd hopened))

/-! ## Executing a request -/

theorem attempt {r : Request} (hr : r.cancellable = true)
    {Q : Bool → Result (Option String × Response) → Prop} (h : ∀ result, Q false result) :
    Heeds true Q false (attempt r).run := by
  refine bindTask (lift (bind (lockedTouch (by decide) fun s => ?_)))
  refine bindTask (dispatch (fun _ => hr) (fun _ _ => h _) fun d _ => ?_)
  cases d.outcome r with
  | ok response => exact h _
  | error failure => exact h _

theorem inSession {e : Endpoint} {r : Request} (hr : r.cancellable = true)
    {Q : Bool → Result Response → Prop} (h : ∀ result, Q false result)
    (hfailed : ∀ (d : Delivery) failure, d ≠ .cancelled → d.opened = .error failure →
      Q true (.error failure)) : Heeds true Q false (inSession e r).run := by
  refine bindTask (attempt hr fun first => ?_)
  rcases first with failure | ⟨token, response⟩
  · exact h _
  dsimp only
  split
  · exact h _
  split
  · exact h _
  refine bindTask (untilCancelled hr (h _) (relogon (fun relogged => ?_) hfailed))
  rcases relogged with failure | ⟨⟩
  · exact h _
  refine bindTask (attempt hr fun second => ?_)
  rcases second with failure | ⟨token, response⟩
  · exact h _
  · exact h _

/-- A request that can be cancelled heeds that. If it clears the session, it ends with the failure
of the logon that was to replace it. -/
theorem execute {e : Endpoint} {r : Request} (hr : r.cancellable = true)
    {Q : Bool → Result Response → Prop} (h : ∀ result, Q false result)
    (hfailed : ∀ (d : Delivery) failure, d ≠ .cancelled → d.opened = .error failure →
      Q true (.error failure)) : Heeds true Q false (execute e r).run := by
  rw [execute_eq]
  split
  · refine bindTask (untilCancelled hr (h _) (ensureLoggedOn fun opened => ?_))
    rcases opened with failure | ⟨⟩
    · exact h _
    · exact inSession hr h hfailed
  · exact inSession hr h hfailed

end Heeds

end HmcClient.Client
