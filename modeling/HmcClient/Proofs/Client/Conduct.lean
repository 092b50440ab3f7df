import HmcClient.Proofs.Client.Follows
import HmcClient.Proofs.Exchange.Endpoint

/-!
# What the parts of an operation do

The operations of the client are made of a few parts: reading the session, one exchange, one logon,
and work that is given up when a request is cancelled. There is one lemma for each, and no later
proof looks inside a part again.

In these lemmas an operation is in one of two places. Outside of all locks its account is
`⟨[], deeds⟩`. Inside the lock of the session, alone, it is `within deeds`. The locks of the
options, the connection and the statistics are taken and given back within a part, so they never
show.
-/

namespace HmcClient.Client

/-- The account of an operation that is alone inside the lock of the session. -/
def within (deeds : List Deed) : Account := ⟨[(.session, .exclusive)], deeds⟩

theorem within_precedes (deeds : List Deed) {lock : Lock} (h : 1 ≤ lock.rank) :
    (within deeds).Precedes lock := by
  intro held hheld
  obtain rfl := List.mem_singleton.1 hheld
  exact h

/-- What has to hold where an operation is about to leave the lock of the session. -/
def Leaving {α : Type} (R : Rules) (Q : Account → α → Prop) (g : Account) (a : α) : Prop :=
  ∃ deeds, g = within deeds ∧ R deeds .left ∧ Q ⟨[], .left :: deeds⟩ a

/-- What has to hold where a stage of an operation ends outside of all locks: the next stage can
begin, or the operation ends with the same failure. -/
def Ending {α β : Type} (P : List Deed → α → Prop) (Q : Account → Result β → Prop) (g : Account) :
    Result α → Prop
  | .ok a => g.held = [] ∧ P g.deeds a
  | .error failure => Q g (.error failure)

/-- Whether a message is what a request is sent as, in a session or without one. -/
structure Message.IsOf (m : Message) (r : Request) (token : Option String) : Prop where
  headers : Headers.ofRequest Identity.userAgent r token = .ok m.headers
  request : m.request = r
  token : m.token = token

/-- Whether a message is a logon of the user of a client. -/
def Message.IsLogonOf (m : Message) (e : Endpoint) (user : Options)
    (newPassword : Option String) : Prop :=
  m.IsOf (logonRequest e user newPassword) none

/-- What an exchange gives to who asked for it. -/
def Delivery.outcome (r : Request) : Delivery → Result Response
  | .answered status _ body => .ok ⟨status, body⟩
  | .brokenOff status => .error ((Failure.ofCause .brokenBody).withStatus status)
  | .lost => .error (.ofCause .requestFailed)
  | .cancelled => .error (.ofCause (.cancelled r.method r.url.render))

/-- The session that a logon has opened. -/
def Delivery.opened : Delivery → Result LogonData
  | .answered status _ body => Logon.opened ⟨status, body⟩
  | .brokenOff status => .error ((Failure.ofCause .brokenBody).withStatus status)
  | _ => .error (.ofCause .requestFailed)

/-- What is done with a request once a session has been made sure of. -/
def inSession (e : Endpoint) (r : Request) : Task Response := do
  let (token, response) ← attempt r
  if response.isExpected then return response
  if r.isLogon || !response.rejectsSession then throw response.failure
  untilCancelled r (relogon e token)
  let (_, second) ← attempt r
  ofResult (regular second)

theorem execute_eq (e : Endpoint) (r : Request) :
    execute e r = if !r.isLogon then do
      untilCancelled r (ensureLoggedOn e)
      inSession e r
    else inSession e r := rfl

/-! ## Sessions and logons -/

theorem Session.isAuthenticated_of_token? {s : Session} {id : String} (h : s.token? = some id) :
    s.isAuthenticated = true := by
  unfold Session.token? at h
  split at h
  · cases h
  · next hempty => simpa [Session.isAuthenticated] using hempty

theorem Session.token?_eq_some {s : Session} (h : s.isAuthenticated = true) :
    s.token? = some s.token := by
  unfold Session.token?
  split
  · next hempty => simp [Session.isAuthenticated, hempty] at h
  · rfl

theorem Session.token_of_token? {s : Session} {id : String} (h : s.token? = some id) :
    s.token = id := by
  rw [Session.token?_eq_some (Session.isAuthenticated_of_token? h)] at h
  exact Option.some.inj h

theorem Session.token?_ofLogon {data : LogonData} (h : data.sessionId ≠ "") :
    (Session.ofLogon data).token? = some data.sessionId := by
  refine if_neg fun hempty => h ?_
  simpa [Session.ofLogon] using hempty

theorem Logon.of_opened_eq_ok {response : Response} {data : LogonData}
    (h : Logon.opened response = .ok data) :
    Response.accepts [200, 201] response.status = true ∧ data.sessionId ≠ "" := by
  unfold Logon.opened at h
  cases hdocument : response.document LogonData.codec [200, 201] with
  | error failure => rw [hdocument] at h; cases h
  | ok data' =>
      rw [hdocument] at h
      have haccepts : Response.accepts [200, 201] response.status = true := by
        unfold Response.document at hdocument
        split at hdocument
        · cases hdocument
        · next hok => simpa using hok
      refine ⟨haccepts, ?_⟩
      change (if data'.sessionId.isEmpty then _ else _) = _ at h
      split at h
      · cases h
      · next hid =>
          obtain rfl := Except.ok.inj h
          rintro hempty
          rw [hempty] at hid
          exact hid rfl

/-- A logon says no more of the options than whose they are. -/
theorem logonRequest_eq (e : Endpoint) {o user : Options} (h : o.SameUser user)
    (newPassword : Option String) :
    logonRequest e o newPassword = logonRequest e user newPassword := by
  rw [logonRequest, logonRequest, h.username, h.password]

/-- A logon can always be sent, since its only header that could be refused is a fixed one. -/
theorem ofRequest_logonRequest (e : Endpoint) (o : Options) (newPassword : Option String) :
    ∃ headers, Headers.ofRequest Identity.userAgent (logonRequest e o newPassword) none =
      .ok headers := by
  have htype : Header.sendable "content-type" "content-type" Request.documentType =
      .ok (Header.ofText "content-type" Request.documentType) := by
    rw [Header.sendable]
    exact if_pos (by decide +kernel)
  refine ⟨[Header.ofText "user-agent" Identity.userAgent,
    Header.ofText "content-type" Request.documentType], ?_⟩
  show (Header.sendable "content-type" "content-type" Request.documentType >>= fun contentType =>
    Except.ok [Header.ofText "user-agent" Identity.userAgent, contentType]) = _
  rw [htype]
  rfl

/-- A logon is told to be one by its method and its URL. -/
theorem isLogon_logonRequest {idna : Idna} {text : String} {e : Endpoint}
    (h : Endpoint.parse idna text = .ok e) (o : Options) (newPassword : Option String) :
    (logonRequest e o newPassword).isLogon = true := by
  have hplain : ∀ c ∈ "sessions".toList, Url.Path.isSeparator true c = false := by
    simp [Url.Path.isSeparator]
  obtain ⟨before, hpath⟩ := Endpoint.resourceUrl_path h
    (show Logon.sessionsUri.toList = '/' :: "sessions".toList by decide) (by decide) hplain
    (by decide)
  have hurl : (logonRequest e o newPassword).url.path = .segments (before ++ ["sessions"]) := by
    show (e.resourceUrl Logon.sessionsUri).path = _
    rw [hpath]
    have hencode : Url.Path.encodeSegment "sessions".toList = "sessions" := by decide
    rw [hencode]
  have hends := Request.endsWith_segments before "sessions"
  rw [← hurl] at hends
  rw [Request.isLogon, Bool.and_eq_true]
  exact ⟨rfl, hends⟩

theorem Message.IsLogonOf.isLogon {m : Message} {idna : Idna} {text : String} {e : Endpoint}
    {user : Options} {newPassword : Option String} (h : m.IsLogonOf e user newPassword)
    (he : Endpoint.parse idna text = .ok e) : m.request.isLogon = true := by
  rw [h.request]
  exact isLogon_logonRequest he user newPassword

namespace Rules

/-- Rules that let every operation into the lock of the session and let it look at the session. -/
structure Open (R : Rules) : Prop where
  entered : ∀ deeds access, R deeds (.entered access)
  read : ∀ deeds s, R deeds (.read s)
  looked : ∀ deeds s, R (.read s :: .entered .shared :: deeds) .left
  stopped : ∀ deeds, .gaveUp ∈ deeds → R deeds .left

end Rules

namespace Follows

variable {α : Type} {user : Options} {R : Rules}

/-! ## Reading the session -/

theorem readSession (hR : R.Open) {Q : Account → Session → Prop} {deeds : List Deed}
    (h : ∀ s, Q ⟨[], .left :: .read s :: .entered .shared :: deeds⟩ s) :
    Follows user R Q ⟨[], deeds⟩ (readCell .session .session) := by
  refine Follows.locked (by intro h hh; cases hh) (fun _ => hR.entered _ _) ?_
  refine touchSession ⟨.shared, List.mem_singleton.2 rfl⟩ (fun s => hR.read _ s)
    fun s => ⟨⟨.shared, List.mem_singleton.2 rfl⟩, fun _ => hR.looked deeds s, h s⟩

theorem currentToken (hR : R.Open) {Q : Account → Option String → Prop} {deeds : List Deed}
    (h : ∀ s, Q ⟨[], .left :: .read s :: .entered .shared :: deeds⟩ s.token?) :
    Follows user R Q ⟨[], deeds⟩ currentToken :=
  bind (readSession hR h)

theorem alone (hR : R.Open) {body : Action α} {Q : Account → α → Prop} {deeds : List Deed}
    (h : Follows user R (Leaving R Q) (within (.entered .exclusive :: deeds)) body) :
    Follows user R Q ⟨[], deeds⟩ (Client.locked .session .exclusive body) := by
  refine Follows.locked (by intro h hh; cases hh) (fun _ => hR.entered _ _) (mono ?_ h)
  rintro g a ⟨deeds', rfl, hleft, hQ⟩
  exact ⟨⟨.exclusive, List.mem_singleton.2 rfl⟩, fun _ => hleft, hQ⟩

theorem look (hR : R.Open) {Q : Account → Session → Prop} {deeds : List Deed}
    (h : ∀ s, Q (within (.read s :: deeds)) s) :
    Follows user R Q (within deeds) (touch .session) :=
  touchSession ⟨.exclusive, List.mem_singleton.2 rfl⟩ (fun s => hR.read _ s) h

theorem install {data : LogonData} {Q : Account → Unit → Prop} {deeds : List Deed}
    (hmay : R deeds (.installed data)) (h : Q (within (.installed data :: deeds)) ()) :
    Follows user R Q (within deeds) (touch (.install data)) :=
  touchInstall (List.mem_singleton.2 rfl) hmay h

theorem clear {Q : Account → Unit → Prop} {deeds : List Deed}
    (hmay : R deeds .cleared) (h : Q (within (.cleared :: deeds)) ()) :
    Follows user R Q (within deeds) (touch .clear) :=
  touchClear (List.mem_singleton.2 rfl) hmay h

/-! ## One exchange -/

theorem traced {text : String} {Q : Account → Unit → Prop} {g : Account} (h : Q g ()) :
    Follows user R Q g (traced text) := by
  refine bind (touchQuietly (fun _ => rfl) trivial fun enabled _ => ?_)
  cases enabled with
  | false => exact h
  | true => exact touchQuietly (fun _ => rfl) trivial fun _ _ => h

theorem counted {answered : Bool} {Q : Account → Unit → Prop} {g : Account}
    (horder : g.Precedes .statistics) (h : Q g ()) : Follows user R Q g (counted answered) :=
  lockedQuietly (by decide) horder (fun _ => rfl) trivial fun _ _ => h

theorem settle {r : Request} {d : Delivery} {Q : Account → Result Response → Prop} {g : Account}
    (h : Q g (d.outcome r)) : Follows user R Q g (settle r d).run := by
  cases d with
  | answered status headers body =>
      exact bindTask (lift (traced h))
  | brokenOff status => exact h
  | lost => exact h
  | cancelled => exact h

/-- A request is sent once. Either a header cannot be sent, or the message is sent and something
becomes of it, or the request is cancelled, before or after the message is sent. -/
theorem dispatch {r : Request} {token : Option String} {Q : Account → Result Response → Prop}
    {g : Account} (horder : g.Precedes .connection)
    (hbad : ∀ failure, Headers.ofRequest Identity.userAgent r token = .error failure →
      Q g (.error failure))
    (hsend : ∀ m : Message, m.IsOf r token → R g.deeds (.sent m))
    (hhear : ∀ (m : Message) (d : Delivery), m.IsOf r token → d ≠ .cancelled →
      Q ((g.add (.sent m)).add (.heard m d)) (d.outcome r))
    (hstop : r.cancellable = true → ∀ g', g' = g.add .gaveUp ∨
        (∃ m : Message, m.IsOf r token ∧ g' = (g.add (.sent m)).add .gaveUp) →
      Q g' (.error (.ofCause (.cancelled r.method r.url.render)))) :
    Follows user R Q g (dispatch r token).run := by
  have hstat : ∀ g' : Account, g'.held = g.held → g'.Precedes .statistics := by
    intro g' hg' h hh
    have := horder h (hg' ▸ hh)
    simp only [Lock.rank] at this ⊢
    omega
  refine bindTask (ofResult ?_)
  cases hheaders : Headers.ofRequest Identity.userAgent r token with
  | error failure => exact hbad failure hheaders
  | ok headers =>
      refine bindTask (lift (traced ?_))
      refine bindTask (lift ?_)
      refine lockedQuietly (by decide) horder (fun _ => rfl) trivial fun verification _ => ?_
      have hm : Message.IsOf ⟨r, headers, token, verification⟩ r token := ⟨hheaders, rfl, rfl⟩
      have hrest : ∀ (d : Delivery) (g' : Account), g'.held = g.held → Q g' (d.outcome r) →
          Follows user R Q g'
            (do Client.counted d.isAnswered; Client.settle r d : Task Response).run := by
        intro d g' hg' hQ
        exact bindTask (lift (counted (hstat g' hg') (settle hQ)))
      refine bindTask (lift ?_)
      refine ⟨hsend _ hm, fun d hd => hrest d _ rfl (hhear _ d hm hd), fun hc => ?_⟩
      exact ⟨hrest .cancelled _ rfl (hstop hc _ (.inl rfl)),
        hrest .cancelled _ rfl (hstop hc _ (.inr ⟨_, hm, rfl⟩))⟩

/-! ## One logon -/

/-- A logon is sent and something becomes of it. It is not given up by itself. -/
theorem requestLogon {e : Endpoint} {newPassword : Option String}
    {Q : Account → Result LogonData → Prop} {g : Account} (horder : g.Precedes .options)
    (hsend : ∀ m : Message, m.IsLogonOf e user newPassword → R g.deeds (.sent m))
    (hhear : ∀ (m : Message) (d : Delivery), m.IsLogonOf e user newPassword → d ≠ .cancelled →
      Q ((g.add (.sent m)).add (.heard m d)) d.opened) :
    Follows user R Q g (requestLogon e newPassword).run := by
  have hlater : ∀ (lock : Lock) (g' : Account), 1 ≤ lock.rank → g'.held = g.held →
      g'.Precedes lock := by
    intro lock g' hlock hg' h hh
    exact Nat.lt_of_lt_of_le (horder h (hg' ▸ hh)) hlock
  refine bindTask (lift (lockedQuietly (by decide) horder (fun _ => rfl) trivial fun o ho => ?_))
  dsimp only
  rw [logonRequest_eq e ho]
  refine bindTask (lift ?_)
  refine dispatch (hlater _ _ (by decide) rfl) ?_ (fun m hm => hsend m hm) ?_ ?_
  · intro failure hfailure
    obtain ⟨headers, hheaders⟩ := ofRequest_logonRequest e user newPassword
    rw [hheaders] at hfailure
    cases hfailure
  · intro m d hm hd
    refine bindTask (lift (lockedQuietly (by decide) (hlater _ _ (by decide) rfl) (fun _ => rfl)
      trivial fun _ _ => ?_))
    have hQ := hhear m d hm hd
    cases d with
    | answered status headers body => exact bindTask (ofResult (ofResult hQ))
    | brokenOff status => exact bindTask (ofResult hQ)
    | lost => exact bindTask (ofResult hQ)
    | cancelled => exact absurd rfl hd
  · intro hc
    cases hc

/-! ## Work that is given up -/

theorem releaseAll (hR : R.Open) {Q : Account → Unit → Prop} {locks : List Lock} {g : Account}
    (hlocks : g.held.map Prod.fst = locks) (honce : locks.Nodup) (hgave : .gaveUp ∈ g.deeds)
    (h : ∀ deeds, .gaveUp ∈ deeds → Q ⟨[], deeds⟩ ()) : Follows user R Q g (releaseAll locks) := by
  induction locks generalizing g with
  | nil =>
      cases g with
      | mk held deeds =>
          obtain rfl := List.map_eq_nil_iff.1 hlocks
          exact h deeds hgave
  | cons lock rest ih =>
      obtain ⟨access, hheld⟩ : ∃ access, (lock, access) ∈ g.held := by
        have : lock ∈ g.held.map Prod.fst := by rw [hlocks]; exact List.mem_cons_self
        obtain ⟨⟨_, access⟩, hmem, rfl⟩ := List.mem_map.1 this
        exact ⟨access, hmem⟩
      refine ⟨⟨access, hheld⟩, fun _ => hR.stopped _ hgave, ih ?_ (List.nodup_cons.1 honce).2 ?_⟩
      · rw [Account.leave_held_map, hlocks, List.filter_cons_of_neg (by simp)]
        refine List.filter_eq_self.2 fun other hother => ?_
        have := (List.nodup_cons.1 honce).1
        simp only [ne_eq, decide_not, Bool.not_eq_true', decide_eq_false_iff_not]
        rintro rfl
        exact this hother
      · exact Account.mem_leave_deeds hgave

/-- Work whose every wait can be cancelled. It keeps to the rules if the work does, and where it is
cancelled no lock stays held. `locks` are those taken since the work began, which are all. -/
theorem guarded (hR : R.Open) {Q : Account → Option α → Prop} {p : Action α} {locks : List Lock}
    {g : Account} (hlocks : g.held.map Prod.fst = locks) (honce : locks.Nodup)
    (hstop : ∀ deeds, .gaveUp ∈ deeds → Q ⟨[], deeds⟩ none)
    (h : Follows user R (fun g a => Q g (some a)) g p) : Follows user R Q g (guarded locks p) := by
  have hgiveUp : ∀ (g' : Account) (locks : List Lock), g'.held.map Prod.fst = locks →
      locks.Nodup → .gaveUp ∈ g'.deeds →
      Follows user R Q g' (.bind (Client.releaseAll locks) fun _ => .done none) :=
    fun g' locks hlocks honce hgave => bind (releaseAll hR hlocks honce hgave hstop)
  induction p generalizing g locks with
  | done a => exact h
  | perform step next ih =>
      cases step with
      | touch t =>
          refine ⟨h.1, fun answer hgives => ?_⟩
          have ha := h.2 answer hgives
          revert ha
          cases deedOf t answer with
          | none => exact fun ha => ih answer hlocks honce ha
          | some d =>
              exact fun ha => ⟨ha.1, ha.2.1, ih (g := g.add d) answer hlocks honce ha.2.2⟩
      | release lock =>
          refine ⟨h.1, h.2.1, ih () ?_ (honce.erase lock) h.2.2⟩
          rw [Account.leave_held_map, hlocks, honce.erase_eq_filter]
          exact List.filter_congr fun other _ => by cases other <;> cases lock <;> rfl
      | acquire lock access cancellable =>
          refine ⟨h.1, h.2.1, ih false ?_ ?_ h.2.2.1, fun _ => hgiveUp _ _ hlocks honce ?_⟩
          · simp only [Account.enter, List.map_cons, hlocks]
          · refine List.nodup_cons.2 ⟨fun hmem => ?_, honce⟩
            obtain ⟨held, hheld, rfl⟩ := List.mem_map.1 (hlocks ▸ hmem)
            exact Nat.lt_irrefl _ (h.1 held hheld)
          · exact List.mem_cons_self
      | exchange m cancellable =>
          rw [Client.guarded]
          refine ⟨h.1, fun d hd => ?_, fun _ => ⟨?_, ?_⟩⟩
          · have := ih (g := (g.add (.sent m)).add (.heard m d)) d hlocks honce (h.2.1 d hd)
            cases d with
            | cancelled => exact absurd rfl hd
            | answered status headers body => exact this
            | brokenOff status => exact this
            | lost => exact this
          · exact hgiveUp _ _ hlocks honce List.mem_cons_self
          · exact hgiveUp _ _ hlocks honce List.mem_cons_self
      | pause interval cancellable =>
          exact ⟨ih false hlocks honce h.1, fun _ => hgiveUp _ _ hlocks honce List.mem_cons_self⟩

theorem untilCancelled (hR : R.Open) {r : Request} {work : Task α}
    {Q : Account → Result α → Prop} {deeds : List Deed}
    (hstop : ∀ deeds, .gaveUp ∈ deeds →
      Q ⟨[], deeds⟩ (.error (.ofCause (.cancelled r.method r.url.render))))
    (h : Follows user R Q ⟨[], deeds⟩ work.run) :
    Follows user R Q ⟨[], deeds⟩ (untilCancelled r work).run := by
  unfold Client.untilCancelled
  split
  · exact bind (guarded hR rfl List.nodup_nil hstop h)
  · exact h

/-! ## Opening a session for a request -/

/-- The lock of the session is held alone, and a logon is sent for the client itself. It is
installed if it succeeds. -/
theorem installLogon {e : Endpoint} {Q : Account → Result Unit → Prop} {deeds : List Deed}
    (hsend : ∀ m : Message, m.IsLogonOf e user none → R deeds (.sent m))
    (hhear : ∀ (m : Message) (d : Delivery), m.IsLogonOf e user none → d ≠ .cancelled →
      match d.opened with
      | .ok data => R (.heard m d :: .sent m :: deeds) (.installed data) ∧
          Q (within (.installed data :: .heard m d :: .sent m :: deeds)) (.ok ())
      | .error failure => Q (within (.heard m d :: .sent m :: deeds)) (.error failure)) :
    Follows user R Q (within deeds) (installLogon e).run := by
  refine bindTask (requestLogon (within_precedes _ (by decide)) hsend fun m d hm hd => ?_)
  have := hhear m d hm hd
  cases hopened : d.opened with
  | ok data =>
      rw [hopened] at this
      exact lift (install this.1 this.2)
  | error failure =>
      rw [hopened] at this
      exact this

/-- A session is opened if none is held. It is looked for twice: before the lock of the session is
taken alone, and again inside. -/
theorem ensureLoggedOn (hR : R.Open) {e : Endpoint} {Q : Account → Result Unit → Prop}
    {deeds : List Deed}
    (hheld : ∀ s : Session, s.isAuthenticated = true →
      Q ⟨[], .left :: .read s :: .entered .shared :: deeds⟩ (.ok ()))
    (hlate : ∀ s s' : Session, s.isAuthenticated = false → s'.isAuthenticated = true →
      Leaving R Q (within (.read s' :: .entered .exclusive :: .left :: .read s ::
        .entered .shared :: deeds)) (.ok ()))
    (hlogon : ∀ s s' : Session, s.isAuthenticated = false → s'.isAuthenticated = false →
      Follows user R (Leaving R Q) (within (.read s' :: .entered .exclusive :: .left :: .read s ::
        .entered .shared :: deeds)) (Client.installLogon e).run) :
    Follows user R Q ⟨[], deeds⟩ (ensureLoggedOn e).run := by
  refine bind (readSession hR fun s => ?_)
  cases hauth : s.isAuthenticated with
  | true => exact hheld s hauth
  | false =>
      refine alone hR (bind (look hR fun s' => ?_))
      cases hauth' : s'.isAuthenticated with
      | true => exact hlate s s' hauth hauth'
      | false => exact hlogon s s' hauth hauth'

/-- A session is replaced, unless another one than the rejected is held. -/
theorem relogon (hR : R.Open) {e : Endpoint} {stale : Option String}
    {Q : Account → Result Unit → Prop} {deeds : List Deed}
    (hother : ∀ s : Session, s.isAuthenticated = true → s.token? ≠ stale →
      Leaving R Q (within (.read s :: .entered .exclusive :: deeds)) (.ok ()))
    (hsend : ∀ s : Session, (s.isAuthenticated = true → s.token? = stale) → ∀ m : Message,
      m.IsLogonOf e user none → R (.read s :: .entered .exclusive :: deeds) (.sent m))
    (hhear : ∀ s : Session, (s.isAuthenticated = true → s.token? = stale) →
      ∀ (m : Message) (d : Delivery), m.IsLogonOf e user none → d ≠ .cancelled →
      match d.opened with
      | .ok data =>
        R (.heard m d :: .sent m :: .read s :: .entered .exclusive :: deeds) (.installed data) ∧
          Leaving R Q (within (.installed data :: .heard m d :: .sent m :: .read s ::
            .entered .exclusive :: deeds)) (.ok ())
      | .error failure =>
        R (.heard m d :: .sent m :: .read s :: .entered .exclusive :: deeds) .cleared ∧
          Leaving R Q (within (.cleared :: .heard m d :: .sent m :: .read s ::
            .entered .exclusive :: deeds)) (.error failure)) :
    Follows user R Q ⟨[], deeds⟩ (relogon e stale).run := by
  refine alone hR (bind (look hR fun s => ?_))
  by_cases hkept : (s.isAuthenticated && s.token? != stale) = true
  · rw [if_pos hkept]
    simp only [Bool.and_eq_true, bne_iff_ne] at hkept
    exact hother s hkept.1 hkept.2
  · rw [if_neg hkept]
    have hstale : s.isAuthenticated = true → s.token? = stale := by
      intro hauth
      simpa [hauth] using hkept
    refine bind (requestLogon (within_precedes _ (by decide)) (hsend s hstale)
      fun m d hm hd => ?_)
    have := hhear s hstale m d hm hd
    cases hopened : d.opened with
    | ok data =>
        rw [hopened] at this
        exact bind (install this.1 this.2)
    | error failure =>
        rw [hopened] at this
        exact bind (clear this.1 this.2)

/-! ## Executing a request -/

/-- A request is sent once within the session that is held, if one is. -/
theorem attempt (hR : R.Open) {r : Request} {Q : Account → Result (Option String × Response) → Prop}
    {deeds : List Deed}
    (hbad : ∀ (s : Session) failure,
      Headers.ofRequest Identity.userAgent r s.token? = .error failure →
      Q ⟨[], .left :: .read s :: .entered .shared :: deeds⟩ (.error failure))
    (hsend : ∀ (s : Session) (m : Message), m.IsOf r s.token? →
      R (.left :: .read s :: .entered .shared :: deeds) (.sent m))
    (hhear : ∀ (s : Session) (m : Message) (d : Delivery), m.IsOf r s.token? → d ≠ .cancelled →
      Q ⟨[], .heard m d :: .sent m :: .left :: .read s :: .entered .shared :: deeds⟩
        ((d.outcome r).map fun response => (s.token?, response)))
    (hstop : ∀ deeds, .gaveUp ∈ deeds →
      Q ⟨[], deeds⟩ (.error (.ofCause (.cancelled r.method r.url.render)))) :
    Follows user R Q ⟨[], deeds⟩ (attempt r).run := by
  refine bindTask (lift (currentToken hR fun s => ?_))
  refine bindTask (dispatch (by intro h hh; cases hh) (fun failure => hbad s failure)
    (hsend s) ?_ ?_)
  · intro m d hm hd
    have := hhear s m d hm hd
    cases d with
    | cancelled => exact absurd rfl hd
    | answered status headers body => exact this
    | brokenOff status => exact this
    | lost => exact this
  · rintro - g' (rfl | ⟨m, -, rfl⟩)
    · exact hstop _ List.mem_cons_self
    · exact hstop _ List.mem_cons_self

/-- A request other than a logon is executed: a session is made sure of, the request is sent, and if
its answer rejects the session, another one is made sure of and the request is sent again. `Opened`,
`Rejected` and `Reopened` are what holds between these stages. -/
theorem execute (hR : R.Open) {e : Endpoint} {r : Request} (hr : r.isLogon = false)
    {Q : Account → Result Response → Prop} {Opened Reopened : List Deed → Prop}
    {Rejected : List Deed → Option String → Prop} {deeds : List Deed}
    (hensure : Follows user R (Ending (fun deeds _ => Opened deeds) Q) ⟨[], deeds⟩
      (Client.ensureLoggedOn e).run)
    (hfirst : ∀ deeds, Opened deeds → Follows user R (Ending (fun deeds p =>
        if p.2.isExpected then Q ⟨[], deeds⟩ (.ok p.2)
        else if p.2.rejectsSession then Rejected deeds p.1
        else Q ⟨[], deeds⟩ (.error p.2.failure)) Q) ⟨[], deeds⟩ (Client.attempt r).run)
    (hrelogon : ∀ deeds stale, Rejected deeds stale →
      Follows user R (Ending (fun deeds _ => Reopened deeds) Q) ⟨[], deeds⟩
        (Client.relogon e stale).run)
    (hsecond : ∀ deeds, Reopened deeds →
      Follows user R (Ending (fun deeds p => Q ⟨[], deeds⟩ (regular p.2)) Q) ⟨[], deeds⟩
        (Client.attempt r).run)
    (hstop : ∀ deeds, .gaveUp ∈ deeds →
      Q ⟨[], deeds⟩ (.error (.ofCause (.cancelled r.method r.url.render)))) :
    Follows user R Q ⟨[], deeds⟩ (execute e r).run := by
  unfold Client.execute
  rw [hr]
  refine bindTask (mono ?_ (untilCancelled hR hstop hensure))
  rintro ⟨held, deeds⟩ (failure | ⟨⟩) hg
  · exact hg
  obtain ⟨rfl, hopened⟩ := hg
  refine bindTask (mono ?_ (hfirst deeds hopened))
  rintro ⟨held, deeds⟩ (failure | ⟨token, response⟩) hg
  · exact hg
  obtain ⟨rfl, hanswered⟩ := hg
  dsimp only at hanswered ⊢
  by_cases hexpected : response.isExpected = true
  · rw [if_pos hexpected] at hanswered ⊢
    exact hanswered
  rw [if_neg hexpected] at hanswered ⊢
  by_cases hrejects : response.rejectsSession = true
  · rw [if_pos hrejects] at hanswered
    rw [hrejects]
    refine bindTask (mono ?_ (untilCancelled hR hstop (hrelogon deeds token hanswered)))
    rintro ⟨held, deeds⟩ (failure | ⟨⟩) hg
    · exact hg
    obtain ⟨rfl, hreopened⟩ := hg
    refine bindTask (mono ?_ (hsecond deeds hreopened))
    rintro ⟨held, deeds⟩ (failure | ⟨token, response⟩) hg
    · exact hg
    obtain ⟨rfl, hend⟩ := hg
    exact ofResult hend
  · rw [if_neg hrejects] at hanswered
    rw [Bool.eq_false_iff.2 hrejects]
    exact hanswered

theorem executeLogon {e : Endpoint} {r : Request} (hr : r.isLogon = true)
    {Q : Account → Result Response → Prop} {deeds : List Deed}
    (h : Follows user R (Ending (fun deeds p => Q ⟨[], deeds⟩ (regular p.2)) Q) ⟨[], deeds⟩
      (Client.attempt r).run) :
    Follows user R Q ⟨[], deeds⟩ (Client.execute e r).run := by
  unfold Client.execute
  rw [hr]
  refine bindTask (mono ?_ h)
  rintro ⟨held, deeds⟩ (failure | ⟨token, response⟩) hg
  · exact hg
  obtain ⟨rfl, hend⟩ := hg
  dsimp only [regular] at hend ⊢
  split
  · next hexpected =>
      rw [if_pos hexpected] at hend
      exact hend
  · next hexpected =>
      rw [if_neg hexpected] at hend
      exact hend

end Follows

end HmcClient.Client
