import HmcClient.Proofs.Client.Conduct

/-!
# What it is to execute a request

The rules of an executed request, and the proof that it keeps to them. They say when a logon may be
sent, when the request itself may be sent, and when the session may be written. The session is
written only in one place: alone inside its lock, with a logon sent since the session was read, and
only if the console has rejected the session that was read or there was none.

How a request can end is told by `Concluded`. There are four ways besides being cancelled, and each
says what was heard last.
-/

namespace HmcClient.Client

variable {user : Options}

/-- Whether an answer says that the session is not valid. -/
def Delivery.rejects : Delivery → Bool
  | .answered status _ body => Response.rejectsSession ⟨status, body⟩
  | _ => false

def Delivery.isRegular : Delivery → Bool
  | .answered status _ _ => isExpectedStatus status
  | _ => false

/-- Whether an operation has been told that the session of a token is not valid. -/
def Rejection (deeds : List Deed) (token : Option String) : Prop :=
  ∃ m d, .heard m d ∈ deeds ∧ m.token = token ∧ d.rejects = true

/-- Whether an operation may write over a session: there is none, or it is known not to be valid. -/
def Yields (deeds : List Deed) (s : Session) : Prop :=
  s.isAuthenticated = true → Rejection deeds s.token?

/-- Whether an operation has found a session with another token, or has opened one itself. -/
def Finds (deeds : List Deed) (token : Option String) : Prop :=
  (∃ s, .read s ∈ deeds ∧ s.isAuthenticated = true ∧ s.token? ≠ token) ∨
    ∃ data, .installed data ∈ deeds

/-- Whether nothing but logons for the client itself has been sent. -/
def OnlyLogons (e : Endpoint) (user : Options) (deeds : List Deed) : Prop :=
  ∀ m, .sent m ∈ deeds → m.IsLogonOf e user none

/-- Whether a request has been sent once and been rejected, and another session has been found
since. -/
def Renewed (e : Endpoint) (user : Options) (r : Request) (deeds : List Deed) : Prop :=
  ∃ later m d earlier, deeds = later ++ .heard m d :: .sent m :: earlier ∧ m.IsOf r m.token ∧
    d.rejects = true ∧ OnlyLogons e user later ∧ OnlyLogons e user earlier ∧ Finds later m.token

/-- Whether a logon that the operation has sent is still to be settled: it has no answer yet, or it
has opened a session. -/
def Deed.owes : List Deed → Bool
  | .sent m :: _ => m.request.isLogon
  | .heard _ d :: earlier => d.opened.isOk && owes earlier
  | .read _ :: earlier => owes earlier
  | _ => false

/-- The rules of an executed request. -/
def Rules.execute (e : Endpoint) (user : Options) (r : Request) : Rules := fun deeds d =>
  match d with
  | .sent m => .gaveUp ∉ deeds ∧
    ((m.IsLogonOf e user none ∧ ∃ s earlier, deeds = .read s :: .entered .exclusive :: earlier ∧
        Yields earlier s) ∨
      ∃ s earlier, deeds = .left :: .read s :: .entered .shared :: earlier ∧ m.IsOf r s.token? ∧
        Finds earlier none ∧ (OnlyLogons e user earlier ∨ Renewed e user r earlier))
  | .installed data => ∃ m status headers body s earlier,
    deeds = .heard m (.answered status headers body) :: .sent m :: .read s ::
      .entered .exclusive :: earlier ∧
    m.IsLogonOf e user none ∧ Logon.opened ⟨status, body⟩ = .ok data ∧ Yields earlier s
  | .cleared => ∃ m d failure s earlier,
    deeds = .heard m d :: .sent m :: .read s :: .entered .exclusive :: earlier ∧
    m.IsLogonOf e user none ∧ d.opened = .error failure ∧ Yields earlier s
  | .left => Deed.owes deeds = false ∨ .gaveUp ∈ deeds
  | _ => True

/-- How an executed request ends. -/
inductive Concluded (e : Endpoint) (user : Options) (r : Request) :
    List Deed → Result Response → Prop where
  /-- The last answer is a regular one. -/
  | answered {m : Message} {status : Nat} {headers : Headers} {body : List UInt8}
    {earlier : List Deed} (hm : m.IsOf r m.token)
    (hexpected : Response.isExpected ⟨status, body⟩ = true) :
    Concluded e user r (.heard m (.answered status headers body) :: .sent m :: earlier)
      (.ok ⟨status, body⟩)
  /-- The last answer is not, or there was none. -/
  | failed {m : Message} {d : Delivery} {earlier : List Deed} {failure : Failure}
    (hm : m.IsOf r m.token) (hd : (d.outcome r >>= regular) = .error failure)
    (hrejects : d.rejects = true → ∃ s before,
      earlier = .left :: .read s :: .entered .shared :: before ∧ Renewed e user r before) :
    Concluded e user r (.heard m d :: .sent m :: earlier) (.error failure)
  /-- The request cannot be sent because of a header. -/
  | unsendable {s : Session} {earlier : List Deed} {failure : Failure} (hfinds : Finds earlier none)
    (hbad : Headers.ofRequest Identity.userAgent r s.token? = .error failure) :
    Concluded e user r (.left :: .read s :: .entered .shared :: earlier) (.error failure)
  /-- A logon has failed. -/
  | noSession {m : Message} {d : Delivery} {deeds : List Deed} {failure : Failure}
    (hm : m.IsLogonOf e user none) (hd : d.opened = .error failure) (hheard : .heard m d ∈ deeds) :
    Concluded e user r deeds (.error failure)
  | cancelled {deeds : List Deed} {result : Result Response} (hstop : .gaveUp ∈ deeds) :
    Concluded e user r deeds result

variable {e : Endpoint} {r : Request}

theorem Rules.execute_open : (Rules.execute e user r).Open where
  entered _ _ := trivial
  read _ _ := trivial
  looked _ _ := .inl rfl
  stopped _ h := .inr h

theorem Delivery.opened_eq_ok {d : Delivery} {data : LogonData} (h : d.opened = .ok data) :
    ∃ status headers body, d = .answered status headers body ∧
      Logon.opened ⟨status, body⟩ = .ok data := by
  cases d with
  | answered status headers body => exact ⟨status, headers, body, rfl, h⟩
  | brokenOff status => cases h
  | lost => cases h
  | cancelled => cases h

theorem Delivery.opened_of_mem {d : Delivery} {data : LogonData}
    (h : data ∈ d.opened.toOption) : d.opened = .ok data := by
  cases hopened : d.opened with
  | ok data' =>
      rw [hopened] at h
      obtain rfl := Option.some.inj h
      rfl
  | error failure =>
      rw [hopened] at h
      cases h

theorem Delivery.of_isRegular {d : Delivery} (h : d.isRegular = true) :
    ∃ status headers body, d = .answered status headers body ∧ isExpectedStatus status = true := by
  cases d with
  | answered status headers body => exact ⟨status, headers, body, rfl, h⟩
  | _ => cases h

theorem Finds.mono {deeds deeds' : List Deed} {token : Option String} (h : Finds deeds token)
    (hsub : deeds ⊆ deeds') : Finds deeds' token := by
  rcases h with ⟨s, hs, hauth⟩ | ⟨data, hdata⟩
  · exact .inl ⟨s, hsub hs, hauth⟩
  · exact .inr ⟨data, hsub hdata⟩

theorem Yields.mono {deeds deeds' : List Deed} {s : Session} (h : Yields deeds s)
    (hsub : deeds ⊆ deeds') : Yields deeds' s := by
  intro hauth
  obtain ⟨m, d, hmem, htoken, hrejects⟩ := h hauth
  exact ⟨m, d, hsub hmem, htoken, hrejects⟩

/-! ## The stages -/

/-- Where the request can be sent for the first time. -/
structure Opened (e : Endpoint) (user : Options) (deeds : List Deed) : Prop where
  goesOn : .gaveUp ∉ deeds
  logons : OnlyLogons e user deeds
  finds : Finds deeds none

/-- Where the request has been sent once and been rejected. -/
structure Rejected (e : Endpoint) (user : Options) (r : Request) (deeds : List Deed)
    (stale : Option String) : Prop where
  goesOn : .gaveUp ∉ deeds
  heard : ∃ m d earlier, deeds = .heard m d :: .sent m :: earlier ∧ m.IsOf r stale ∧
    d.rejects = true ∧ OnlyLogons e user earlier
  finds : Finds deeds none

/-- Where the request can be sent for the second time. -/
structure Reopened (e : Endpoint) (user : Options) (r : Request) (deeds : List Deed) : Prop where
  goesOn : .gaveUp ∉ deeds
  renewed : Renewed e user r deeds
  finds : Finds deeds none

def Executed (e : Endpoint) (user : Options) (r : Request) (g : Account)
    (result : Result Response) : Prop :=
  g.held = [] ∧ Concluded e user r g.deeds result

namespace Follows

theorem ensureLoggedOn_execute :
    Follows user (Rules.execute e user r)
      (Ending (fun deeds _ => Opened e user deeds) (Executed e user r))
      ⟨[], []⟩ (Client.ensureLoggedOn e).run := by
  have hnone : ∀ s : Session, s.isAuthenticated = true → s.token? ≠ none := by
    intro s hs
    rw [Session.token?_eq_some hs]
    exact Option.some_ne_none _
  refine ensureLoggedOn Rules.execute_open ?_ ?_ ?_
  · intro s hs
    exact ⟨rfl, by simp, by simp [OnlyLogons], .inl ⟨s, by simp, hs, hnone s hs⟩⟩
  · intro s s' hs hs'
    exact ⟨_, rfl, .inl rfl, rfl, by simp, by simp [OnlyLogons],
      .inl ⟨s', by simp, hs', hnone s' hs'⟩⟩
  · intro s s' hs hs'
    have hyields : ∀ deeds, Yields deeds s' := fun _ hauth => nomatch hauth.symm.trans hs'
    refine installLogon (fun m hm => ?_) fun m d hm hd => ?_
    · exact ⟨by simp, .inl ⟨hm, s', _, rfl, hyields _⟩⟩
    · cases hopened : d.opened with
      | ok data =>
          obtain ⟨status, headers, body, rfl, hdata⟩ := Delivery.opened_eq_ok hopened
          refine ⟨⟨m, status, headers, body, s', _, rfl, hm, hdata, hyields _⟩, _, rfl, .inl rfl,
            rfl, by simp, ?_, .inr ⟨data, by simp⟩⟩
          intro m' hm'
          obtain rfl : m' = m := by simpa using hm'
          exact hm
      | error failure =>
          refine ⟨_, rfl, .inl ?_, rfl, .noSession hm hopened (by simp)⟩
          rw [Deed.owes, hopened]
          rfl

theorem attempt_first {deeds : List Deed} (h : Opened e user deeds) :
    Follows user (Rules.execute e user r) (Ending (fun deeds p =>
      if p.2.isExpected then Executed e user r ⟨[], deeds⟩ (.ok p.2)
      else if p.2.rejectsSession then Rejected e user r deeds p.1
      else Executed e user r ⟨[], deeds⟩ (.error p.2.failure)) (Executed e user r))
      ⟨[], deeds⟩ (Client.attempt r).run := by
  refine attempt Rules.execute_open ?_ ?_ ?_ ?_
  · intro s failure hbad
    exact ⟨rfl, .unsendable h.finds hbad⟩
  · intro s m hm
    exact ⟨by simpa using h.goesOn, .inr ⟨s, deeds, rfl, hm, h.finds, .inl h.logons⟩⟩
  · intro s m d hm hd
    have hm' : m.IsOf r m.token := hm.token ▸ hm
    cases d with
    | cancelled => exact absurd rfl hd
    | brokenOff status => exact ⟨rfl, .failed hm' rfl (fun h => nomatch h)⟩
    | lost => exact ⟨rfl, .failed hm' rfl (fun h => nomatch h)⟩
    | answered status headers body =>
        refine ⟨rfl, ?_⟩
        dsimp only
        split
        · next hexpected => exact ⟨rfl, .answered hm' hexpected⟩
        next hexpected =>
          split
          · next hrejects =>
              refine ⟨by simpa using h.goesOn, ⟨m, _, _, rfl, hm, hrejects, ?_⟩, ?_⟩
              · intro m' hm'
                exact h.logons m' (by simpa using hm')
              · exact h.finds.mono fun d hd => by simp [hd]
          · next hrejects =>
              refine ⟨rfl, .failed hm' ?_ fun h => absurd h hrejects⟩
              exact if_neg hexpected
  · intro deeds hstop
    exact ⟨rfl, .cancelled hstop⟩

theorem relogon_execute {deeds : List Deed} {stale : Option String}
    (h : Rejected e user r deeds stale) :
    Follows user (Rules.execute e user r)
      (Ending (fun deeds _ => Reopened e user r deeds) (Executed e user r))
      ⟨[], deeds⟩ (Client.relogon e stale).run := by
  obtain ⟨m₁, d₁, earlier, rfl, hm₁, hd₁, hlogons⟩ := h.heard
  have hrejection : Rejection (.heard m₁ d₁ :: .sent m₁ :: earlier) stale :=
    ⟨m₁, d₁, by simp, hm₁.token, hd₁⟩
  have hrenewed : ∀ later, OnlyLogons e user later → Finds later stale →
      Renewed e user r (later ++ .heard m₁ d₁ :: .sent m₁ :: earlier) := by
    intro later hlater hfinds
    obtain rfl := hm₁.token
    exact ⟨later, m₁, d₁, earlier, rfl, hm₁, hd₁, hlater, hlogons, hfinds⟩
  have hyields : ∀ s : Session, (s.isAuthenticated = true → s.token? = stale) →
      Yields (.heard m₁ d₁ :: .sent m₁ :: earlier) s := fun s hs hauth => hs hauth ▸ hrejection
  refine relogon Rules.execute_open ?_ ?_ ?_
  · intro s hauth htoken
    refine ⟨_, rfl, .inl rfl, rfl, by simpa using h.goesOn, ?_, ?_⟩
    · exact hrenewed [.left, .read s, .entered .exclusive] (by simp [OnlyLogons])
        (.inl ⟨s, by simp, hauth, htoken⟩)
    · exact h.finds.mono (List.subset_append_right [Deed.left, .read s, .entered .exclusive] _)
  · intro s hstale m hm
    exact ⟨by simpa using h.goesOn, .inl ⟨hm, s, _, rfl, hyields s hstale⟩⟩
  · intro s hstale m d hm hd
    cases hopened : d.opened with
    | ok data =>
        obtain ⟨status, headers, body, rfl, hdata⟩ := Delivery.opened_eq_ok hopened
        refine ⟨⟨m, status, headers, body, s, _, rfl, hm, hdata, hyields s hstale⟩, _, rfl,
          .inl rfl, rfl, by simpa using h.goesOn, ?_, .inr ⟨data, by simp⟩⟩
        refine hrenewed [.left, .installed data, .heard m (.answered status headers body), .sent m,
          .read s, .entered .exclusive] (fun m' hm' => ?_) (.inr ⟨data, by simp⟩)
        obtain rfl : m' = m := by simpa using hm'
        exact hm
    | error failure =>
        exact ⟨⟨m, d, failure, s, _, rfl, hm, hopened, hyields s hstale⟩, _, rfl, .inl rfl, rfl,
          .noSession hm hopened (by simp)⟩

theorem attempt_second {deeds : List Deed} (h : Reopened e user r deeds) :
    Follows user (Rules.execute e user r)
      (Ending (fun deeds p => Executed e user r ⟨[], deeds⟩ (regular p.2))
      (Executed e user r)) ⟨[], deeds⟩ (Client.attempt r).run := by
  refine attempt Rules.execute_open ?_ ?_ ?_ ?_
  · intro s failure hbad
    exact ⟨rfl, .unsendable h.finds hbad⟩
  · intro s m hm
    exact ⟨by simpa using h.goesOn, .inr ⟨s, deeds, rfl, hm, h.finds, .inr h.renewed⟩⟩
  · intro s m d hm hd
    have hm' : m.IsOf r m.token := hm.token ▸ hm
    cases d with
    | cancelled => exact absurd rfl hd
    | brokenOff status => exact ⟨rfl, .failed hm' rfl (fun h => nomatch h)⟩
    | lost => exact ⟨rfl, .failed hm' rfl (fun h => nomatch h)⟩
    | answered status headers body =>
        refine ⟨rfl, rfl, ?_⟩
        cases hregular : regular ⟨status, body⟩ with
        | ok response =>
            rw [regular] at hregular
            split at hregular
            · next hexpected =>
                obtain rfl := Except.ok.inj hregular
                exact .answered hm' hexpected
            · cases hregular
        | error failure =>
            exact .failed hm' hregular fun _ => ⟨s, deeds, rfl, h.renewed⟩
  · intro deeds hstop
    exact ⟨rfl, .cancelled hstop⟩

theorem execute_rules (hr : r.isLogon = false) :
    Follows user (Rules.execute e user r) (Executed e user r) .opening (Client.execute e r).run :=
  execute Rules.execute_open hr ensureLoggedOn_execute (fun _ => attempt_first)
    (fun _ _ => relogon_execute) (fun _ => attempt_second) fun _ hstop => ⟨rfl, .cancelled hstop⟩

end Follows

end HmcClient.Client
