import HmcClient.Proofs.Client.Execution
import HmcClient.Proofs.Client.Runs

/-!
# What the calls of a client do to the session

Every call has its rules, and keeps to them. An executed request has the rules of its own module.
For all other calls the rules only say when the session may be written: a logon of the client may
install what it has opened, logging off may clear, and asking whether the session is still accepted
may clear what the console has rejected. No other call writes it.
-/

namespace HmcClient.Client

variable {user : Options}

namespace Rules

/-- The rules that only say when the session may be written. -/
def writes (installs : List Deed → LogonData → Prop) (clears : List Deed → Prop) : Rules :=
  fun deeds d =>
    match d with
    | .installed data => installs deeds data
    | .cleared => clears deeds
    | _ => True

/-- The rules of a call that does not write the session. -/
def quiet : Rules := writes (fun _ _ => False) fun _ => False

/-- Whether the last that was heard is that a logon for the client itself has opened a session. -/
def OpenedBy (e : Endpoint) (user : Options) (deeds : List Deed) (data : LogonData) : Prop :=
  ∃ m status headers body earlier, deeds = .heard m (.answered status headers body) ::
    .sent m :: earlier ∧ m.IsLogonOf e user none ∧ Logon.opened ⟨status, body⟩ = .ok data

theorem OpenedBy.of_heard {e : Endpoint} {m : Message} {d : Delivery} {data : LogonData}
    (hm : m.IsLogonOf e user none) (hd : d.opened = .ok data) {deeds : List Deed} :
    OpenedBy e user (.heard m d :: .sent m :: deeds) data := by
  obtain ⟨status, headers, body, rfl, hdata⟩ := Delivery.opened_eq_ok hd
  exact ⟨m, status, headers, body, deeds, rfl, hm, hdata⟩

def logon (e : Endpoint) (user : Options) : Rules := writes (OpenedBy e user) fun _ => False

def logoff : Rules := writes (fun _ _ => False) fun _ => True

def asking : Rules := writes (fun _ _ => False) fun deeds =>
  ∃ s earlier, deeds = .read s :: .entered .exclusive :: earlier ∧ Yields earlier s

variable {installs : List Deed → LogonData → Prop} {clears : List Deed → Prop}

theorem writes_open : (writes installs clears).Open where
  entered _ _ := trivial
  read _ _ := trivial
  looked _ _ := trivial
  stopped _ _ := trivial

end Rules

namespace Call

def rules (e : Endpoint) (user : Options) : Call → Rules
  | logon => .logon e user
  | logoff => .logoff
  | isLoggedOn _ => .asking
  | execute r => if r.isLogon then .quiet else .execute e user r
  | _ => .quiet

/-- How a call is left: outside of all locks, and if it was to execute a request, as that ends. -/
def Left (e : Endpoint) (user : Options) (call : Call) (g : Account) (outcome : Outcome) : Prop :=
  g.held = [] ∧ ∀ r, call = .execute r → r.isLogon = false →
    ∃ result, outcome = .answered result ∧ Concluded e user r g.deeds result

end Call

namespace Follows

variable {α : Type} {e : Endpoint} {installs : List Deed → LogonData → Prop}
  {clears : List Deed → Prop}

/-! ## Exchanges whose answer does not matter -/

theorem dispatchFreely {r : Request} {token : Option String} {Q : Account → Result Response → Prop}
    {g : Account} (horder : g.Precedes .connection)
    (h : ∀ g' result, g'.held = g.held → Q g' result) :
    Follows user (.writes installs clears) Q g (Client.dispatch r token).run := by
  refine dispatch horder (fun _ _ => h _ _ rfl) (fun _ _ => trivial) (fun _ _ _ _ => h _ _ rfl) ?_
  rintro - g' (rfl | ⟨m, -, rfl⟩)
  · exact h _ _ rfl
  · exact h _ _ rfl

theorem closeSession {token : String} {Q : Account → Result Unit → Prop} {g : Account}
    (horder : g.Precedes .connection) (h : ∀ g' result, g'.held = g.held → Q g' result) :
    Follows user (.writes installs clears) Q g (Client.closeSession e token).run := by
  refine bindTask (dispatchFreely horder fun g' result hg' => ?_)
  cases result with
  | ok response => exact ofResult (h _ _ hg')
  | error failure => exact h _ _ hg'

theorem requestLogonFreely {newPassword : Option String} {Q : Account → Result LogonData → Prop}
    {g : Account} (horder : g.Precedes .options) (h : ∀ g' result, g'.held = g.held → Q g' result) :
    Follows user (.writes installs clears) Q g (Client.requestLogon e newPassword).run :=
  requestLogon horder (fun _ _ => trivial) fun _ _ _ _ => h _ _ rfl

theorem attemptFreely {r : Request} {Q : Account → Result (Option String × Response) → Prop}
    (h : ∀ deeds result, Q ⟨[], deeds⟩ result) {deeds : List Deed} :
    Follows user (.writes installs clears) Q ⟨[], deeds⟩ (Client.attempt r).run :=
  attempt Rules.writes_open (fun _ _ _ => h _ _) (fun _ _ _ => trivial) (fun _ _ _ _ _ => h _ _)
    fun _ _ => h _ _

/-! ## The calls -/

theorem precedes_opening (lock : Lock) : Account.opening.Precedes lock := fun _ h => nomatch h

theorem logon_rules :
    Follows user (.logon e user) (fun g _ => g.held = []) .opening (logon e).run := by
  refine alone Rules.writes_open (installLogon (fun _ _ => trivial) fun m d hm hd => ?_)
  cases hopened : d.opened with
  | ok data => exact ⟨.of_heard hm hopened, _, rfl, trivial, rfl⟩
  | error failure => exact ⟨_, rfl, trivial, rfl⟩

theorem logoff_rules :
    Follows user .logoff (fun g _ => g.held = []) .opening (logoff e).run := by
  refine alone Rules.writes_open (bind (look Rules.writes_open fun s => ?_))
  cases s.token? with
  | none => exact ⟨_, rfl, trivial, rfl⟩
  | some token =>
      refine bind (clear trivial (closeSession (within_precedes _ (by decide)) ?_))
      rintro ⟨held, deeds⟩ result rfl
      exact ⟨deeds, rfl, trivial, rfl⟩

theorem changePassword_rules {newPassword : String} :
    Follows user .quiet (fun g _ => g.held = []) .opening (changePassword e newPassword).run := by
  refine bindTask (requestLogonFreely (precedes_opening _) fun g' result hg' => ?_)
  cases result with
  | ok data =>
      refine closeSession (fun h hh => ?_) fun g'' result hg'' => hg''.trans hg'
      rw [hg'] at hh
      cases hh
  | error failure => exact hg'

theorem giveUp {token : String} {deeds : List Deed} (h : Rejection deeds (some token))
    {Q : Account → Unit → Prop} (hQ : ∀ deeds, Q ⟨[], deeds⟩ ()) :
    Follows user .asking Q ⟨[], deeds⟩ (giveUp token) := by
  refine alone Rules.writes_open (bind (look Rules.writes_open fun s => ?_))
  split
  · next hs =>
      refine clear ⟨s, _, rfl, fun _ => ?_⟩ ⟨_, rfl, trivial, hQ _⟩
      rw [hs]
      exact h
  · exact ⟨_, rfl, trivial, hQ _⟩

theorem probe {token : String} {deeds : List Deed} :
    Follows user .asking (fun g _ => g.held = []) ⟨[], deeds⟩ (probe e token) := by
  refine bind (dispatch (fun h hh => nomatch hh) (fun _ _ => rfl) (fun _ _ => trivial) ?_
    fun hc => nomatch hc)
  intro m d hm hd
  cases d with
  | cancelled => exact absurd rfl hd
  | brokenOff status => exact pure rfl
  | lost => exact pure rfl
  | answered status headers body =>
      dsimp only [Delivery.outcome]
      split
      · exact pure rfl
      · split
        · next hrejects =>
            refine bind (giveUp ?_ fun _ => rfl)
            exact ⟨m, .answered status headers body, by simp, hm.token, hrejects⟩
        · exact pure rfl

theorem isLoggedOn_rules {refresh : Bool} :
    Follows user .asking (fun g _ => g.held = []) .opening (isLoggedOn e refresh) := by
  refine bind (currentToken Rules.writes_open fun s => ?_)
  cases s.token? with
  | none => exact pure rfl
  | some token =>
      cases refresh with
      | true => exact probe
      | false => exact pure rfl

theorem execute_quiet {r : Request} (hr : r.isLogon = true) :
    Follows user .quiet (fun g _ => g.held = []) .opening (Client.execute e r).run := by
  refine executeLogon hr (attemptFreely fun deeds result => ?_)
  cases result with
  | ok p => exact ⟨rfl, rfl⟩
  | error failure => rfl

theorem setSkipCertVerify_rules {skip : Bool} :
    Follows user .quiet (fun g _ => g.held = []) .opening (setSkipCertVerify skip).run := by
  have horder : (Account.opening.enter .options .exclusive).Precedes .connection := by
    intro held hheld
    obtain rfl := List.mem_singleton.1 hheld
    decide
  have hleave : (∃ access, (.options, access) ∈ (Account.opening.enter .options .exclusive).held) ∧
      (Lock.options = .session → Rules.quiet (Account.opening.enter .options .exclusive).deeds
        .left) ∧ ((Account.opening.enter .options .exclusive).leave .options).held = [] :=
    ⟨⟨.exclusive, List.mem_singleton.2 rfl⟩, (fun h => nomatch h), rfl⟩
  refine locked (precedes_opening _) (fun h => nomatch h) ?_
  refine bind (touchQuietly (fun _ => rfl) trivial fun o ho => ?_)
  refine bind (touchQuietly (fun _ => rfl) trivial fun v _ => ?_)
  cases v with
  | error failure => exact hleave
  | ok verification =>
      refine bind (lockedQuietly (by decide) horder (fun _ => rfl) trivial fun _ _ => ?_)
      exact bind (touchQuietly (fun _ => rfl) ⟨ho.username, ho.password⟩ fun _ _ => hleave)

theorem topics_rules : Follows user .quiet (fun g _ => g.held = []) .opening topics :=
  bind (readSession Rules.writes_open fun _ => pure rfl)

theorem statistics_rules : Follows user .quiet (fun g _ => g.held = []) .opening statistics :=
  lockedQuietly (by decide) (precedes_opening _) (fun _ => rfl) trivial fun _ _ => rfl

end Follows

/-- Every call keeps to its rules. -/
theorem Call.follows (e : Endpoint) (call : Call) :
    Follows user (call.rules e user) (call.Left e user) .opening (call.operation e) := by
  have hplain : ∀ {R : Rules} {β : Type} {p : Action β} {f : β → Outcome},
      (∀ r, call ≠ .execute r) → Follows user R (fun g _ => g.held = []) .opening p →
      Follows user R (call.Left e user) .opening (f <$> p) := by
    intro R β p f hcall h
    exact .map (.mono (fun g a hg => ⟨hg, fun r hr => absurd hr (hcall r)⟩) h)
  cases call with
  | logon => exact hplain (by simp) Follows.logon_rules
  | logoff => exact hplain (by simp) Follows.logoff_rules
  | logonConsole =>
      exact hplain (by simp) (Follows.requestLogonFreely (Follows.precedes_opening _)
        fun _ _ hg' => hg')
  | logoffConsole sessionId =>
      exact hplain (by simp) (Follows.closeSession (Follows.precedes_opening _)
        fun _ _ hg' => hg')
  | changePassword newPassword => exact hplain (by simp) Follows.changePassword_rules
  | isLoggedOn refresh => exact hplain (by simp) Follows.isLoggedOn_rules
  | execute r =>
      cases hr : r.isLogon with
      | true =>
          rw [Call.rules, if_pos hr]
          refine .map (.mono (fun g a hg => ⟨hg, ?_⟩) (Follows.execute_quiet hr))
          rintro r' h hr'
          cases h
          rw [hr] at hr'
          cases hr'
      | false =>
          rw [Call.rules, if_neg (by rw [hr]; exact Bool.false_ne_true)]
          refine .map (.mono (fun g a hg => ⟨hg.1, ?_⟩) (Follows.execute_rules hr))
          rintro r' h hr'
          cases h
          exact ⟨a, rfl, hg.2⟩
  | setSkipCertVerify skip => exact hplain (by simp) Follows.setSkipCertVerify_rules
  | traceOn writer =>
      exact hplain (by simp) (Follows.touchQuietly (fun _ => rfl) trivial fun _ _ => rfl)
  | traceOff => exact hplain (by simp) (Follows.touchQuietly (fun _ => rfl) trivial fun _ _ => rfl)
  | topics => exact hplain (by simp) Follows.topics_rules
  | statistics => exact hplain (by simp) Follows.statistics_rules

/-! ## What every call sends -/

namespace Rules

/-- The rules of a request that is sent as it is: once, within the session that was read. -/
def passing (r : Request) : Rules := fun deeds d =>
  match d with
  | .sent m => ∃ s, deeds = [.left, .read s, .entered .shared] ∧ m.IsOf r s.token?
  | .installed _ | .cleared => False
  | _ => True

theorem passing_open {r : Request} : (passing r).Open where
  entered _ _ := trivial
  read _ _ := trivial
  looked _ _ := trivial
  stopped _ _ := trivial

end Rules

/-- The rules of a call, with those for a logon that is sent as a request. -/
def Call.sending (e : Endpoint) (user : Options) : Call → Rules
  | execute r => if r.isLogon then .passing r else .execute e user r
  | call => call.rules e user

theorem Call.rules_of_sending {e : Endpoint} {call : Call} {deeds : List Deed} {d : Deed}
    (h : call.sending e user deeds d) : call.rules e user deeds d := by
  cases call with
  | execute r =>
      rw [sending] at h
      rw [rules]
      split at h
      · next hr =>
          rw [if_pos hr]
          cases d with
          | installed data => exact h
          | cleared => exact h
          | _ => trivial
      · next hr =>
          rw [if_neg hr]
          exact h
  | _ => exact h

theorem Follows.execute_passing {e : Endpoint} {r : Request} (hr : r.isLogon = true) :
    Follows user (.passing r) (fun g _ => g.held = []) .opening (Client.execute e r).run := by
  refine executeLogon hr (attempt Rules.passing_open ?_ ?_ ?_ ?_)
  · intro s failure hbad
    exact rfl
  · intro s m hm
    exact ⟨s, rfl, hm⟩
  · intro s m d hm hd
    cases d.outcome r with
    | ok response => exact ⟨rfl, rfl⟩
    | error failure => exact rfl
  · intro deeds hstop
    exact rfl

theorem Call.follows_sending (e : Endpoint) (call : Call) :
    Follows user (call.sending e user) (fun g _ => g.held = []) .opening (call.operation e) := by
  have hrules : Follows user (call.rules e user) (fun g _ => g.held = []) .opening
      (call.operation e) :=
    .mono (fun _ _ hleft => hleft.1) (call.follows e)
  cases call with
  | execute r =>
      rw [sending]
      rw [rules] at hrules
      split
      · next hr => exact .map (Follows.execute_passing hr)
      · next hr =>
          rw [if_neg hr] at hrules
          exact hrules
  | _ => exact hrules

/-! ## Worlds of calls -/

/-- The rules of each of several calls. -/
def rulesOf (e : Endpoint) (user : Options) (calls : List Call) (t : Nat) : Rules :=
  match calls[t]? with
  | some call => call.rules e user
  | none => fun _ _ => False

def endsOf (e : Endpoint) (user : Options) (calls : List Call) (t : Nat) (g : Account)
    (outcome : Outcome) : Prop :=
  ∃ call, calls[t]? = some call ∧ call.Left e user g outcome

theorem rulesOf_iff {e : Endpoint} {calls : List Call} {t : Nat} {deeds : List Deed} {d : Deed} :
    rulesOf e user calls t deeds d ↔ ∃ call, calls[t]? = some call ∧ call.rules e user deeds d := by
  unfold rulesOf
  cases calls[t]? with
  | none => simp
  | some call => simp

theorem World.Leads.calls_kept {e : Endpoint} {shared : Shared} {calls : List Call} {A : Answers}
    {P : List Entry → Message → Delivery → Prop} {w : World Outcome}
    (hP : ∀ log m d, P log m d → A (history shared.session log) m d)
    (h : Leads P (World.ofCalls e shared calls) w) :
    ∃ held, w.Kept shared.options (rulesOf e shared.options calls) (endsOf e shared.options calls)
      shared.session A held := by
  refine h.kept hP (Kept.start fun t p hp => ?_)
  rw [List.getElem?_map, Option.map_eq_some_iff] at hp
  obtain ⟨call, hcall, rfl⟩ := hp
  rw [rulesOf, hcall]
  exact .mono (fun g outcome hleft => ⟨call, hcall, hleft⟩) (call.follows e)

theorem World.Reaches.calls_kept {e : Endpoint} {shared : Shared} {calls : List Call}
    {w : World Outcome} (h : Reaches (World.ofCalls e shared calls) w) :
    ∃ held, w.Kept shared.options (rulesOf e shared.options calls) (endsOf e shared.options calls)
      shared.session (fun _ _ _ => True) held :=
  h.leads.calls_kept fun _ _ _ _ => trivial

/-- The rules of each of several calls, where a call has other rules than its own. -/
def Rules.each (R : Call → Rules) (calls : List Call) (t : Nat) : Rules :=
  match calls[t]? with
  | some call => R call
  | none => fun _ _ => False

theorem Rules.each_iff {R : Call → Rules} {calls : List Call} {t : Nat} {deeds : List Deed}
    {d : Deed} : each R calls t deeds d ↔ ∃ call, calls[t]? = some call ∧ R call deeds d := by
  unfold each
  cases calls[t]? with
  | none => simp
  | some call => simp

/-- Rules that every call keeps to hold of each of several calls. -/
theorem World.Reaches.each_kept {e : Endpoint} {shared : Shared} {calls : List Call}
    {R : Call → Rules} {Q : Call → Account → Outcome → Prop} {w : World Outcome}
    (hR : ∀ call, Follows shared.options (R call) (Q call) .opening (call.operation e))
    (h : Reaches (World.ofCalls e shared calls) w) :
    ∃ held, w.Kept shared.options (.each R calls)
      (fun t g outcome => ∃ call, calls[t]? = some call ∧ Q call g outcome) shared.session
      (fun _ _ _ => True) held := by
  refine h.leads.kept (fun _ _ _ _ => trivial) (Kept.start fun t p hp => ?_)
  rw [List.getElem?_map, Option.map_eq_some_iff] at hp
  obtain ⟨call, hcall, rfl⟩ := hp
  have hrules : Rules.each R calls t = R call := by rw [Rules.each, hcall]
  rw [hrules]
  exact .mono (fun g outcome hend => ⟨call, hcall, hend⟩) (hR call)

/-! ## A client to try things on -/

/-- The token that a message carries, with the operation that has sent it. -/
def Entry.carried? : Entry → Option (Nat × String)
  | sent t m => m.token.map (Prod.mk t)
  | _ => none

theorem Entry.sent_of_carried {entry : Entry} {t : Nat} {id : String}
    (h : entry.carried? = some (t, id)) : ∃ m, entry = .sent t m ∧ m.token = some id := by
  cases entry with
  | sent u m =>
      obtain ⟨id', hid, hpair⟩ := Option.map_eq_some_iff.1 h
      obtain ⟨rfl, rfl⟩ := Prod.mk.inj hpair
      exact ⟨m, rfl, hid⟩
  | _ => cases h

namespace Sample

def endpoint : Endpoint :=
  ⟨⟨"https", "", none, some (.name "hmc"), none, .segments [""], none, none⟩⟩

theorem parse_endpoint : Endpoint.parse .asciiOnly "https://hmc" = .ok endpoint := rfl

def options : Options := ⟨"user", "secret", false, none, false, 0⟩

def shared (token : String) : Shared :=
  ⟨⟨token, ⟨"", ""⟩⟩, options, .standard, .zero, .off, fun _ => false, [], ⟨0⟩⟩

def request : Request := .get (endpoint.resourceUrl "/cpcs")

/-- An answer that opens a session. -/
def opening : Delivery :=
  .answered 200 [] (Utf8.encode "\x7b\"api-session\": \"s1\", \"notif-topic\": \"n1\"\x7d")

/-- An answer that rejects a session. -/
def rejecting : Delivery := .answered 401 [] []

/-- An answer that is a regular one. -/
def accepting : Delivery := .answered 200 [] []

/-- An operation goes on several times. -/
def advances (t count : Nat) : List Event := List.replicate count (.advance t)

end Sample

end HmcClient.Client
