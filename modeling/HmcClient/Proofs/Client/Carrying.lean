import HmcClient.Proofs.Client.Pairing

/-!
# Whether requests are sent in a session

A request is executed in a session, so the client makes sure of one before it sends the request, and
again before it sends it a second time. But it does so in two looks. First it finds a session, or
opens one, and then it reads the token that the request is to carry. The lock of the session is not
held in between, and what is read is not looked at again: if there is no token, the request is sent
without one.

`unauthenticated_after_clear` says that this is the only way in which it happens. Between the two
looks another operation has cleared the session, and if it was a call that only uses the session,
the console had told it just that: the session is not valid. `unauthenticated_request` is a run in
which it happens to a request that is sent again.
-/

namespace HmcClient.Client

variable {user : Options}

/-! ## Two looks -/

/-- Whether an operation has a session in its hands: it has found or opened one. -/
def Deed.finds : Deed → Bool
  | read s => s.isAuthenticated
  | installed _ => true
  | _ => false

/-- Whether the last that an operation did inside the lock of the session is to find one. -/
def Assured (deeds : List Deed) : Prop :=
  ∃ found earlier, deeds = .left :: found :: earlier ∧ found.finds = true

/-- Whether an operation ends outside of all locks. -/
def Free (g : Account) (_ : Result Response) : Prop := g.held = []

namespace Rules

/-- The rules that only say when a message may be sent. -/
def sends (may : List Deed → Message → Prop) : Rules := fun deeds d =>
  match d with
  | .sent m => may deeds m
  | _ => True

/-- The rules of an executed request: it is sent with what is read once a session was found. -/
def assuring (e : Endpoint) (user : Options) (r : Request) : Rules := sends fun deeds m =>
  m.IsLogonOf e user none ∨ ∃ s earlier, deeds = .left :: .read s :: .entered .shared :: earlier ∧
    m.IsOf r s.token? ∧ Assured earlier

/-- The rules of a call that sends nothing without a token. -/
def carrying : Rules := sends fun _ m => m.token ≠ none

theorem sends_open {may : List Deed → Message → Prop} : (sends may).Open where
  entered _ _ := trivial
  read _ _ := trivial
  looked _ _ := trivial
  stopped _ _ := trivial

end Rules

namespace Follows

variable {e : Endpoint} {r : Request} {deeds : List Deed}

theorem ensureLoggedOn_assuring :
    Follows user (.assuring e user r) (Ending (fun deeds _ => Assured deeds) Free) ⟨[], deeds⟩
      (Client.ensureLoggedOn e).run := by
  refine ensureLoggedOn Rules.sends_open ?_ ?_ ?_
  · intro s hs
    exact ⟨rfl, .read s, _, rfl, hs⟩
  · intro s s' hs hs'
    exact ⟨_, rfl, trivial, rfl, .read s', _, rfl, hs'⟩
  · intro s s' hs hs'
    refine installLogon (fun m hm => .inl hm) fun m d hm hd => ?_
    cases d.opened with
    | ok data => exact ⟨trivial, _, rfl, trivial, rfl, .installed data, _, rfl, rfl⟩
    | error failure => exact ⟨_, rfl, trivial, rfl⟩

theorem relogon_assuring {stale : Option String} :
    Follows user (.assuring e user r) (Ending (fun deeds _ => Assured deeds) Free) ⟨[], deeds⟩
      (Client.relogon e stale).run := by
  refine relogon Rules.sends_open ?_ (fun s hs m hm => .inl hm) ?_
  · intro s hauth hother
    exact ⟨_, rfl, trivial, rfl, .read s, _, rfl, hauth⟩
  · intro s hstale m d hm hd
    cases d.opened with
    | ok data => exact ⟨trivial, _, rfl, trivial, rfl, .installed data, _, rfl, rfl⟩
    | error failure => exact ⟨trivial, _, rfl, trivial, rfl⟩

theorem attempt_assuring (h : Assured deeds) {P : List Deed → Option String × Response → Prop}
    (hP : ∀ deeds p, P deeds p) :
    Follows user (.assuring e user r) (Ending P Free) ⟨[], deeds⟩
      (Client.attempt r).run := by
  refine attempt Rules.sends_open (fun _ _ _ => rfl) ?_ ?_ fun _ _ => rfl
  · exact fun s m hm => .inr ⟨s, deeds, rfl, hm, h⟩
  · intro s m d hm hd
    cases d.outcome r with
    | ok response => exact ⟨rfl, hP _ _⟩
    | error failure => exact rfl

theorem execute_assuring (hr : r.isLogon = false) :
    Follows user (.assuring e user r) Free .opening (Client.execute e r).run := by
  refine execute Rules.sends_open hr ensureLoggedOn_assuring
    (fun deeds h => attempt_assuring h fun deeds p => ?_)
    (fun deeds stale (_ : True) => relogon_assuring)
    (fun deeds h => attempt_assuring h fun _ _ => rfl) fun _ _ => rfl
  split
  · rfl
  split
  · trivial
  · rfl

theorem isLoggedOn_carrying {refresh : Bool} :
    Follows user .carrying (fun g _ => g.held = []) .opening (isLoggedOn e refresh) := by
  refine bind (currentToken Rules.sends_open fun s => ?_)
  cases s.token? with
  | none => exact pure rfl
  | some token =>
      cases refresh with
      | false => exact pure rfl
      | true =>
          refine bind (dispatch (fun h hh => nomatch hh) (fun _ _ => rfl)
            (fun m hm hnone => nomatch hm.token.symm.trans hnone) (fun m d hm hd => ?_)
            fun hc => nomatch hc)
          cases d with
          | cancelled => exact absurd rfl hd
          | brokenOff status => exact pure rfl
          | lost => exact pure rfl
          | answered status headers body =>
              dsimp only [Delivery.outcome]
              split
              · exact pure rfl
              split
              · refine bind (alone Rules.sends_open (bind (look Rules.sends_open fun s => ?_)))
                split
                · exact clear trivial ⟨_, rfl, trivial, rfl⟩
                · exact ⟨_, rfl, trivial, rfl⟩
              · exact pure rfl

end Follows

/-- The rules of a call, as far as they say what it sends in a session. -/
def Call.carrying (e : Endpoint) (user : Options) : Call → Rules
  | execute r => if r.isLogon then .quiet else .assuring e user r
  | isLoggedOn _ => .carrying
  | call => call.rules e user

theorem Call.follows_carrying (e : Endpoint) (call : Call) :
    Follows user (call.carrying e user) (fun g _ => g.held = []) .opening (call.operation e) := by
  have hrules : Follows user (call.rules e user) (fun g _ => g.held = []) .opening
      (call.operation e) := .mono (fun _ _ hleft => hleft.1) (call.follows e)
  cases call with
  | execute r =>
      rw [carrying]
      rw [rules] at hrules
      cases hr : r.isLogon with
      | true =>
          rw [hr] at hrules
          exact hrules
      | false => exact .map (Follows.execute_assuring hr)
  | isLoggedOn refresh => exact .map Follows.isLoggedOn_carrying
  | _ => exact hrules

/-! ## Lost sessions -/

/-- Whether a call is made in a session: it executes a request, or asks if the session is
accepted. -/
def Call.needsSession : Call → Bool
  | execute r => !r.isLogon
  | isLoggedOn _ => true
  | _ => false

section

variable {e : Endpoint} {s₀ : Session} {calls : List Call} {log during before : List Entry}

/-- A session that was held and is not held any more was cleared while it was held. -/
theorem cleared_of_lost (hbefore : (sessionAfter s₀ before).isAuthenticated = true)
    (hnow : (sessionAfter s₀ (during ++ before)).token? = none)
    (hids : ∀ t data, .touched t (.install data) ∈ during → data.sessionId ≠ "") :
    ∃ since u still id, during = since ++ .touched u .clear :: still ∧
      (sessionAfter s₀ (still ++ before)).token? = some id := by
  induction during with
  | nil => exact nomatch hnow.symm.trans (Session.token?_eq_some hbefore)
  | cons entry during ih =>
      -- It is lost with this entry, or it was lost before.
      have hearlier (h : (sessionAfter s₀ (during ++ before)).token? = none) :
          ∃ since u still id, entry :: during = since ++ .touched u .clear :: still ∧
            (sessionAfter s₀ (still ++ before)).token? = some id := by
        obtain ⟨since, u, still, id, rfl, hid⟩ := ih h
          fun t data hmem => hids t data (List.mem_cons_of_mem _ hmem)
        exact ⟨entry :: since, u, still, id, rfl, hid⟩
      cases entry with
      | touched u touch =>
          cases touch with
          | clear =>
              cases hheld : (sessionAfter s₀ (during ++ before)).token? with
              | none => exact hearlier hheld
              | some id => exact ⟨[], u, during, id, rfl, hheld⟩
          | install data =>
              have hid := hids u data List.mem_cons_self
              exact nomatch hnow.symm.trans (Session.token?_ofLogon hid)
          | _ => exact hearlier hnow
      | _ => exact hearlier hnow

/-- A call that only uses the session clears one only when it has been told that it is not valid. -/
theorem World.Kept.rejected_of_cleared {A : Answers} {Q : Nat → Account → Outcome → Prop}
    {w : World Outcome} {held : Holdings} (h : w.Kept user (rulesOf e user calls) Q s₀ A held)
    {later earlier : List Entry} {u : Nat} {call : Call} {id : String}
    (hlog : w.log = later ++ .touched u .clear :: earlier) (hcall : calls[u]? = some call)
    (huses : call.uses = true) (hid : (sessionAfter s₀ earlier).token? = some id) :
    ∃ m status headers body, .delivered u m (.answered status headers body) ∈ earlier ∧
      m.token = some id ∧ Response.rejectsSession ⟨status, body⟩ = true := by
  have hlawful := h.lawful
  obtain ⟨H, hH⟩ := @history_append s₀ (.touched u .clear :: earlier) later
  rw [hlog, hH, history_cons_some rfl] at hlawful
  have hcleared := hlawful.of_append H
  obtain ⟨call', hcall', hrule⟩ := rulesOf_iff.1 (hcleared.may trivial)
  obtain rfl := Option.some.inj (hcall.symm.trans hcall')
  obtain ⟨s, hseen, hyields⟩ :=
    @Call.yields_of_rules user e call huses _ .clear trivial () .cleared rfl hrule
  obtain ⟨hsession, -⟩ := hcleared.before.session_of_seen hseen
  rw [session_history] at hsession
  subst hsession
  obtain ⟨m, d, hheard, hm, hrejects⟩ := hyields (Session.isAuthenticated_of_token? hid)
  cases d with
  | answered status headers body =>
      exact ⟨m, status, headers, body, delivered_of_heard hheard, hm.trans hid, hrejects⟩
  | _ => cases hrejects

/-- What an operation has done between two of its deeds is told by what stands between them. -/
theorem deeds_between {t : Nat} {l : List Deed}
    (h : (history s₀ (during ++ before)).of t = l ++ (history s₀ before).of t) {d : Deed}
    {entry : Entry} (hentry : entry ∈ during) (hd : ∀ s, entry.deed? s = some (t, d)) :
    d ∈ l := by
  obtain ⟨H, hH⟩ := @history_append s₀ before during
  rw [hH, History.of_append] at h
  rw [← List.append_cancel_right h]
  exact History.mem_of.2 (mem_of_history_append hH hentry hd)

end

/-! ## What is sent without a token -/

section

variable {e : Endpoint} {shared : Shared} {calls : List Call} {w : World Outcome} {t : Nat}
  {call : Call} {m : Message} {later earlier : List Entry}

theorem World.Reaches.carrying_of_sent (h : (World.ofCalls e shared calls).Reaches w)
    (hcall : calls[t]? = some call) (hlog : w.log = later ++ .sent t m :: earlier) :
    call.carrying e shared.options ((history shared.session earlier).of t) (.sent m) := by
  obtain ⟨held, hkept⟩ := h.each_kept (Call.follows_carrying e)
  have hlawful := hkept.lawful
  obtain ⟨H, hH⟩ := @history_append shared.session (.sent t m :: earlier) later
  rw [hlog, hH, history_cons_some rfl] at hlawful
  obtain ⟨call', hcall', hmay⟩ := Rules.each_iff.1 ((hlawful.of_append H).may trivial)
  obtain rfl := Option.some.inj (hcall.symm.trans hcall')
  exact hmay

/-- No session without an id was ever installed. -/
theorem World.Reaches.installed_ne (h : (World.ofCalls e shared calls).Reaches w) {u : Nat}
    {data : LogonData} (hmem : .touched u (.install data) ∈ w.log) : data.sessionId ≠ "" := by
  obtain ⟨held, hkept⟩ := h.calls_kept
  obtain ⟨later, earlier, hlog⟩ := List.append_of_mem hmem
  exact (hkept.hasOpened hlog).sessionId_ne

/-- How a request comes to be sent without a token: its call finds a session or opens one, with the
entry `finding`, and when it looks for the token, another call has cleared that session. -/
structure Bereft (calls : List Call) (s₀ : Session) (t : Nat) (earlier : List Entry)
    (finding : Entry) (u : Nat) (id : String) (between since still before : List Entry) : Prop where
  looked : earlier = between ++ .touched t .session ::
    (since ++ .touched u .clear :: (still ++ finding :: before))
  finds : finding = .touched t .session ∨ ∃ data, finding = .touched t (.install data)
  found : (sessionAfter s₀ (finding :: before)).isAuthenticated = true
  /-- The session was held when it was cleared. -/
  held : (sessionAfter s₀ (still ++ finding :: before)).token? = some id
  /-- The call itself has written nothing since. -/
  others : ∀ touch, IsWrite touch → .touched t touch ∉ since ++ .touched u .clear :: still
  /-- If the other call only uses the session, it has been told that the session is not valid. -/
  rejected : ∀ call, calls[u]? = some call → call.uses = true →
    ∃ m status headers body,
      .delivered u m (.answered status headers body) ∈ still ++ finding :: before ∧
      m.token = some id ∧ Response.rejectsSession ⟨status, body⟩ = true

/-- What an operation has found is held. -/
theorem authenticated_of_finds {s₀ : Session} {before : List Entry} {found : Deed}
    (hfinds : found.finds = true) (hids : ∀ data, found = .installed data → data.sessionId ≠ "")
    (hdeed : (found.entry t).deed? (sessionAfter s₀ before) = some (t, found)) :
    (found.entry t = .touched t .session ∨ ∃ data, found.entry t = .touched t (.install data)) ∧
      (sessionAfter s₀ (found.entry t :: before)).isAuthenticated = true := by
  cases found with
  | read s =>
      obtain rfl : sessionAfter s₀ before = s := by simpa [Deed.entry, Entry.deed?] using hdeed
      exact ⟨.inl rfl, hfinds⟩
  | installed data =>
      exact ⟨.inr ⟨data, rfl⟩,
        Session.isAuthenticated_of_token? (Session.token?_ofLogon (hids data rfl))⟩
  | _ => cases hfinds

/-- Where a call has found a session and then reads no token, another call has cleared it. -/
theorem World.Reaches.bereft (h : (World.ofCalls e shared calls).Reaches w)
    (hlog : w.log = later ++ .sent t m :: earlier) {s : Session} {found : Deed} {rest : List Deed}
    (hdeeds : (history shared.session earlier).of t =
      .left :: .read s :: .entered .shared :: .left :: found :: rest)
    (hfinds : found.finds = true) (hs : s.token? = none) :
    ∃ finding u id between since still before, u ≠ t ∧
      Bereft calls shared.session t earlier finding u id between since still before := by
  obtain ⟨between, looked, rfl, hlooked, rfl⟩ := split_of_read [.left] hdeeds
  obtain ⟨during, before, rfl, rfl, hdeed⟩ := split_of_deed [.entered .shared, .left] hlooked
  have hmem {entry : Entry} (hentry : entry ∈ during ++ found.entry t :: before) :
      entry ∈ w.log := by
    rw [hlog]
    simp only [List.mem_append, List.mem_cons] at hentry ⊢
    tauto
  have hid : ∀ data, found = .installed data → data.sessionId ≠ "" := by
    rintro data rfl
    exact h.installed_ne (u := t) (hmem (by simp [Deed.entry]))
  obtain ⟨hentry, hauth⟩ := authenticated_of_finds hfinds hid hdeed
  obtain ⟨since, u, still, id, rfl, hheld⟩ := cleared_of_lost hauth hs fun u data hinstalled =>
    h.installed_ne (hmem (List.mem_append_left _ hinstalled))
  -- Between the two looks the call leaves the lock and enters it, and does nothing else.
  have hothers (touch : Touch) (hwrite : IsWrite touch) :
      .touched t touch ∉ since ++ .touched u .clear :: still := by
    intro htouched
    have hown : (history shared.session (found.entry t :: before)).of t =
        found :: (history shared.session before).of t := by
      rw [history_cons_some (by rwa [session_history]), History.of_cons_self]
    rw [← hown] at hlooked
    have hdone {d : Deed} (hd : ∀ s, (Entry.touched t touch).deed? s = some (t, d)) :
        d ∈ [.entered .shared, .left] :=
      deeds_between (l := [.entered .shared, .left]) hlooked htouched hd
    cases touch with
    | install data => simpa using hdone (d := .installed data) fun _ => rfl
    | clear => simpa using hdone (d := .cleared) fun _ => rfl
    | _ => exact hwrite
  refine ⟨found.entry t, u, id, between, since, still, before, ?_, by simp, hentry, hauth, hheld,
    hothers, fun call hcall huses => ?_⟩
  · rintro rfl
    exact hothers .clear trivial (by simp)
  · obtain ⟨held, hkept⟩ := h.calls_kept
    have hsplit : w.log = (later ++ .sent t m :: (between ++ .touched t .session :: since)) ++
        .touched u .clear :: (still ++ found.entry t :: before) := by
      rw [hlog]
      simp
    exact hkept.rejected_of_cleared hsplit hcall huses hheld

/-- Whatever a call that needs a session sends carries a token, unless it is a logon of the client's
own. Where it does not, it is a request that is executed, and since its call has found a session
another call has cleared it. -/
theorem unauthenticated_after_clear (h : (World.ofCalls e shared calls).Reaches w)
    (hcall : calls[t]? = some call) (hneeds : call.needsSession = true)
    (hlog : w.log = later ++ .sent t m :: earlier) (htoken : m.token = none) :
    m.IsLogonOf e shared.options none ∨ ∃ r, call = .execute r ∧ m.IsOf r none ∧
      ∃ finding u id between since still before, u ≠ t ∧
        Bereft calls shared.session t earlier finding u id between since still before := by
  have hcarries := h.carrying_of_sent hcall hlog
  cases call with
  | isLoggedOn refresh => exact absurd htoken hcarries
  | execute r =>
      have hr : r.isLogon = false := by simpa [Call.needsSession] using hneeds
      rw [Call.carrying, hr] at hcarries
      rcases hcarries with hlogon | ⟨s, rest, hdeeds, hm, found, rest', rfl, hfinds⟩
      · exact .inl hlogon
      · have hs : s.token? = none := hm.token.symm.trans htoken
        exact .inr ⟨r, rfl, hs ▸ hm, h.bereft hlog hdeeds hfinds hs⟩
  | _ => cases hneeds

end

/-- The request that an operation sends without a token, by an entry. -/
def Entry.bare? (t : Nat) : Entry → Option Request
  | sent u m => if u = t ∧ m.token = none then some m.request else none
  | _ => none

theorem Entry.sent_of_bare {entry : Entry} {t : Nat} {r : Request} (h : entry.bare? t = some r) :
    ∃ m, entry = .sent t m ∧ m.token = none ∧ m.request = r := by
  cases entry with
  | sent u m =>
      rw [bare?] at h
      split at h
      next hu =>
        obtain ⟨rfl, htoken⟩ := hu
        exact ⟨m, rfl, htoken, Option.some.inj h⟩
      · cases h
  | _ => cases h

/-- The request that was sent last of all, without a token. -/
def World.bare? (w : World Outcome) (t : Nat) : Option Request := w.log.head?.bind (Entry.bare? t)

theorem World.sent_of_bare {w : World Outcome} {t : Nat} {r : Request} (h : w.bare? t = some r) :
    ∃ m earlier, w.log = .sent t m :: earlier ∧ m.token = none ∧ m.request = r := by
  obtain ⟨entry, hhead, hentry⟩ := Option.bind_eq_some_iff.1 h
  obtain ⟨m, rfl, htoken, hrequest⟩ := Entry.sent_of_bare hentry
  obtain ⟨earlier, hlog⟩ := List.head?_eq_some_iff.1 hhead
  exact ⟨m, earlier, hlog, htoken, hrequest⟩

/-- A session is opened for a request. Before the request has read its token, somebody asks whether
the session is accepted, and it is not. -/
theorem unauthenticated_after_clear_asking : ∃ (w : World Outcome) (m : Message)
    (earlier : List Entry) (finding : Entry) (u : Nat) (id : String)
    (between since still before : List Entry),
    (World.ofCalls Sample.endpoint (Sample.shared "")
      [.execute Sample.request, .isLoggedOn true]).Reaches w ∧
    w.log = .sent 0 m :: earlier ∧ m.token = none ∧ m.IsOf Sample.request none ∧ u ≠ 0 ∧
    Bereft [.execute Sample.request, .isLoggedOn true] (Sample.shared "").session 0 earlier finding
      u id between since still before := by
  have hrun : ((World.ofCalls Sample.endpoint (Sample.shared "")
      [.execute Sample.request, .isLoggedOn true]).run (Sample.advances 0 17 ++
        [.deliver 0 Sample.opening] ++ Sample.advances 0 11 ++ Sample.advances 1 10 ++
        [.deliver 1 Sample.rejecting] ++ Sample.advances 1 10 ++ Sample.advances 0 10)).map
        (fun w => (w.bare? 0).map (·.isLogon)) = some (some false) := by decide +kernel
  obtain ⟨w, hw, hend⟩ := Option.map_eq_some_iff.1 hrun
  obtain ⟨r, hr, hplain⟩ := Option.map_eq_some_iff.1 hend
  obtain ⟨m, earlier, hlog, htoken, rfl⟩ := World.sent_of_bare hr
  have hreaches := World.Reaches.of_run hw
  have hsplit : w.log = [] ++ .sent 0 m :: earlier := hlog
  rcases unauthenticated_after_clear (t := 0) hreaches rfl rfl hsplit htoken with
    hlogon | ⟨r, hcall, hm, finding, u, id, between, since, still, before, hu, hbereft⟩
  · exact nomatch hplain.symm.trans (hlogon.isLogon Sample.parse_endpoint)
  · cases hcall
    exact ⟨w, m, earlier, finding, u, id, between, since, still, before, hreaches, hlog, htoken, hm,
      hu, hbereft⟩

/-- Two requests are sent in one session, and both are rejected. The logon for the first opens a
session with the id of the rejected one, so the second one takes it for the rejected one as well.
Its own logon fails, and it clears the session. The first, which reads its token then, is sent again
without one. -/
theorem unauthenticated_request : ∃ (w : World Outcome) (m : Message),
    (World.ofCalls Sample.endpoint (Sample.shared "s1")
      [.execute Sample.request, .execute Sample.request]).Reaches w ∧
    .sent 0 m ∈ w.log ∧ m.token = none ∧ m.request.isLogon = false := by
  have hrun : ((World.ofCalls Sample.endpoint (Sample.shared "s1")
      [.execute Sample.request, .execute Sample.request]).run (Sample.advances 0 14 ++
        Sample.advances 1 14 ++ [.deliver 0 Sample.rejecting, .deliver 1 Sample.rejecting] ++
        Sample.advances 0 18 ++ Sample.advances 1 6 ++ [.deliver 0 Sample.opening] ++
        Sample.advances 0 12 ++ Sample.advances 1 12 ++ [.deliver 1 Sample.rejecting] ++
        Sample.advances 1 11 ++ Sample.advances 0 9)).map
        (fun w => (w.bare? 0).map (·.isLogon)) = some (some false) := by decide +kernel
  obtain ⟨w, hw, hend⟩ := Option.map_eq_some_iff.1 hrun
  obtain ⟨r, hr, hplain⟩ := Option.map_eq_some_iff.1 hend
  obtain ⟨m, earlier, hlog, htoken, rfl⟩ := World.sent_of_bare hr
  exact ⟨w, m, .of_run hw, by rw [hlog]; exact List.mem_cons_self, htoken, hplain⟩

end HmcClient.Client
