import HmcClient.Proofs.Client.Integrity
import HmcClient.Proofs.Client.Retry

/-!
# Whether a client recovers

Suppose that from some moment on a console goes about its sessions in the regular way: it opens one
for every logon, rejects what belongs to no session that it has opened since, and answers the rest.
Then it does not matter what has happened before. A request that is executed ends with a regular
answer, if need be in a session that is opened for it. It is sent at first in whatever session is
held, and it is the rejection of that session that makes the client open another one.

There is one way to miss this. The id of a session is taken from the answer to a logon as it is, and
may be one that no header can carry. Requests in such a session fail before they are sent, so they
are never rejected, and the client is left with it.
-/

namespace HmcClient.Client

variable {σ α : Type} {idna : Idna} {text : String} {e : Endpoint} {r : Request}

/-! ## Consoles that remember -/

/-- The console that answers by what was exchanged before, the earliest first. -/
def Answering.ofHistory (answers : List (Message × Delivery) → Message → Delivery) :
    Answering (List (Message × Delivery)) :=
  fun m past => (some (answers past m), past ++ [(m, answers past m)])

/-- The ids of the sessions that were opened in exchanges. -/
def issued (exchanges : List (Message × Delivery)) : List String :=
  exchanges.filterMap fun x =>
    if x.1.request.isLogon then x.2.opened.toOption.map (·.sessionId) else none

/-- What a console answers that goes about its sessions in the regular way. -/
inductive Renewing (past : List (Message × Delivery)) (m : Message) (d : Delivery) : Prop where
  /-- A logon opens a session with an id that can be sent. -/
  | opens {data : LogonData} (hm : m.request.isLogon = true) (hd : d.opened = .ok data)
    (hid : Sendable data.sessionId)
  /-- A request in one of these sessions is answered. -/
  | accepts {id : String} (hm : m.request.isLogon = false) (htoken : m.token = some id)
    (hid : id ∈ issued past) (hd : d.isRegular = true)
  /-- Any other request is rejected. -/
  | rejects (hm : m.request.isLogon = false) (htoken : ∀ id ∈ issued past, m.token ≠ some id)
    (hd : d.rejects = true)

def Renews (answers : List (Message × Delivery) → Message → Delivery) : Prop :=
  ∀ past m, Renewing past m (answers past m)

/-- Whether exchanges are those of a console. -/
def Faithful (answers : List (Message × Delivery) → Message → Delivery)
    (exchanges : List (Message × Delivery)) : Prop :=
  ∀ before m d after, exchanges = before ++ (m, d) :: after → d = answers before m

theorem Faithful.snoc {answers : List (Message × Delivery) → Message → Delivery}
    {exchanges : List (Message × Delivery)} (h : Faithful answers exchanges) (m : Message) :
    Faithful answers (exchanges ++ [(m, answers exchanges m)]) := by
  intro before m' d after hsplit
  rcases List.eq_nil_or_concat after with rfl | ⟨after, last, rfl⟩
  · obtain ⟨rfl, hlast⟩ := List.append_inj' hsplit rfl
    cases hlast
    rfl
  · rw [List.concat_eq_append, ← List.cons_append, ← List.append_assoc] at hsplit
    exact h before m' d after (List.append_inj' hsplit rfl).1

section

variable {answers : List (Message × Delivery) → Message → Delivery}
  {exchanges : List (Message × Delivery)}

theorem Renews.settles (h : Renews answers) :
    (Answering.ofHistory answers).Settles OpensSendable := by
  intro m past
  refine ⟨_, _, rfl, ?_⟩
  cases h past m with
  | opens hm hd hid =>
      refine ⟨fun hcancelled => ?_, fun _ data hdata => ?_⟩
      · rw [hcancelled] at hd
        cases hd
      · rw [hd] at hdata
        exact Except.ok.inj hdata ▸ hid
  | accepts hm htoken hid hd =>
      refine ⟨fun hcancelled => ?_, fun hlogon => nomatch hm.symm.trans hlogon⟩
      rw [hcancelled] at hd
      cases hd
  | rejects hm htoken hd =>
      refine ⟨fun hcancelled => ?_, fun hlogon => nomatch hm.symm.trans hlogon⟩
      rw [hcancelled] at hd
      cases hd

theorem Faithful.renewing (h : Faithful answers exchanges) (hrenews : Renews answers)
    {before after : List (Message × Delivery)} {m : Message} {d : Delivery}
    (hsplit : exchanges = before ++ (m, d) :: after) : Renewing before m d := by
  rw [h before m d after hsplit]
  exact hrenews before m

theorem Renewing.opened {past : List (Message × Delivery)} {m : Message} {d : Delivery}
    (h : Renewing past m d) (hm : m.request.isLogon = true) : ∃ data, d.opened = .ok data := by
  cases h with
  | opens hm hd hid => exact ⟨_, hd⟩
  | accepts hm' => exact nomatch hm.symm.trans hm'
  | rejects hm' => exact nomatch hm.symm.trans hm'

/-- How a request ends that has recovered. -/
def Recovered (r : Request) (exchanges : List (Message × Delivery)) (result : Result Response) :
    Prop :=
  ∃ before m status headers body, exchanges = before ++ [(m, .answered status headers body)] ∧
    m.IsOf r m.token ∧ (∃ id ∈ issued before, m.token = some id) ∧
    isExpectedStatus status = true ∧ result = .ok ⟨status, body⟩

/-- A request that is answered and not rejected has recovered. -/
theorem Recovered.of_renewing {before : List (Message × Delivery)} {m : Message} {d : Delivery}
    {token : Option String} (hr : r.isLogon = false) (hm : m.IsOf r token)
    (h : Renewing before m d)
    (hkept : d.rejects = false ∨ ∃ id ∈ issued before, m.token = some id) :
    Recovered r (before ++ [(m, d)]) (d.outcome r >>= regular) := by
  cases h with
  | opens hlogon =>
      rw [hm.request] at hlogon
      exact nomatch hr.symm.trans hlogon
  | accepts hplain htoken hid hd =>
      obtain ⟨status, headers, body, rfl, hexpected⟩ := Delivery.of_isRegular hd
      exact ⟨before, m, status, headers, body, rfl, hm.token ▸ hm, ⟨_, hid, htoken⟩, hexpected,
        if_pos hexpected⟩
  | rejects hplain hother hd =>
      rcases hkept with hkept | ⟨id, hid, htoken⟩
      · exact nomatch hd.symm.trans hkept
      · exact absurd htoken (hother id hid)

theorem Executes.recovered (he : Endpoint.parse idna text = .ok e) (hr : r.isLogon = false)
    (hrenews : Renews answers) (hfaithful : Faithful answers exchanges) {s s' : Session}
    {result : Result Response} {user : Options}
    (h : Executes e user r s exchanges result s') :
    Recovered r exchanges result := by
  cases h with
  | @noSession m d failure hs hm hd =>
      obtain ⟨data, hdata⟩ := (hfaithful.renewing hrenews (List.nil_append [(m, d)]).symm).opened
        (hm.isLogon he)
      exact nomatch hd.symm.trans hdata
  | settled hfirst hm hd =>
      exact .of_renewing hr hm (hfaithful.renewing hrenews rfl) (.inl hd)
  | @notReopened first s' m m' d d' failure hfirst hm hd hm' hd' =>
      have hsplit : first ++ [(m, d), (m', d')] = (first ++ [(m, d)]) ++ (m', d') :: [] := by simp
      obtain ⟨data, hdata⟩ := (hfaithful.renewing hrenews hsplit).opened (hm'.isLogon he)
      exact nomatch hd'.symm.trans hdata
  | @repeated first s' m m' m'' d d' d'' data hfirst hm hd hm' hd' hm'' =>
      have hsplit : first ++ [(m, d), (m', d'), (m'', d'')] =
          (first ++ [(m, d), (m', d')]) ++ (m'', d'') :: [] := by simp
      have hissued : data.sessionId ∈ issued (first ++ [(m, d), (m', d')]) := by
        simp [issued, hm'.isLogon he, hd', Except.toOption]
      rw [hsplit]
      exact .of_renewing hr hm'' (hfaithful.renewing hrenews hsplit)
        (.inr ⟨_, hissued, hm''.token⟩)

/-- A request that is executed when its session can be sent recovers. -/
theorem Renews.execute (he : Endpoint.parse idna text = .ok e) (hr : r.isLogon = false)
    (htype : Sendable r.effectiveContentType) {shared : Shared}
    (hfirst : ∀ id, shared.session.token? = some id → Sendable id) (h : Renews answers) :
    ∃ result shared' exchanges,
      Alone.run (.ofHistory answers) (Client.execute e r).run ⟨shared, [], false⟩ =
        (result, ⟨shared', exchanges, false⟩) ∧
      Recovered r exchanges result := by
  obtain ⟨exchanges, result, shared', past, hrun, hrecorded, hexecutes⟩ :=
    (Follows.execute_plain he hr htype hfirst).runs_alone h.settles []
  -- The console knows what was exchanged, and answers by it.
  have hconsole := Alone.run_console (Answering.ofHistory answers).recorded
    (I := fun c => c.1 = c.2 ∧ Faithful answers c.2)
    (fun m c hc => ⟨congrArg (· ++ [(m, answers c.2 m)]) hc.1, hc.2.snoc m⟩)
    (Client.execute e r).run
    (s := ⟨shared, ([], []), false⟩) ⟨rfl, fun before m d after hsplit => by simp at hsplit⟩
  rw [hrecorded] at hconsole
  obtain ⟨hsame, hfaithful⟩ := hconsole
  obtain rfl : exchanges = past := hsame
  exact ⟨result, shared', exchanges, hrun, hexecutes.recovered he hr h hfaithful⟩

end

/-! ## Sessions that cannot be used -/

section

variable {answering : Answering σ} {shared : Shared} {c : σ}

/-- Where a session is held, nothing is done to come by one. -/
theorem untilCancelled_ensureLoggedOn (hauth : shared.session.isAuthenticated = true) :
    Alone.run answering (Client.untilCancelled r (Client.ensureLoggedOn e)).run
      ⟨shared, c, false⟩ = (.ok (), ⟨shared, c, false⟩) := by
  have hguarded : Alone.run answering (guarded [] (Client.ensureLoggedOn e).run)
      ⟨shared, c, false⟩ = (some (.ok ()), ⟨shared, c, false⟩) := by
    show Alone.run answering (guarded []
      (if shared.session.isAuthenticated = true then pure (Except.ok ()) else _)) _ = _
    rw [if_pos hauth]
    rfl
  rw [Client.untilCancelled]
  split
  · show Alone.run answering (guarded [] (Client.ensureLoggedOn e).run >>= _) _ = _
    rw [Alone.run_bind, hguarded]
    rfl
  · show Alone.run answering
      (if shared.session.isAuthenticated = true then pure (Except.ok ()) else _) _ = _
    rw [if_pos hauth]
    rfl

/-- A request whose session cannot be sent fails, and nothing else happens. -/
theorem execute_unsendable (hr : r.isLogon = false) (htype : Sendable r.effectiveContentType)
    {id : String} (htoken : shared.session.token? = some id) (hid : ¬ Sendable id) :
    Alone.run answering (Client.execute e r).run ⟨shared, c, false⟩ =
      (.error (.ofCause (.invalidHeader "session")), ⟨shared, c, false⟩) := by
  have hensure : Alone.run answering (Client.untilCancelled r (Client.ensureLoggedOn e)).run
      ⟨shared, c, false⟩ = (.ok (), ⟨shared, c, false⟩) :=
    untilCancelled_ensureLoggedOn (Session.isAuthenticated_of_token? htoken)
  have hattempt : Alone.run answering (Client.attempt r).run ⟨shared, c, false⟩ =
      (.error (.ofCause (.invalidHeader "session")), ⟨shared, c, false⟩) := by
    rw [Client.attempt, Alone.run_bindTask]
    show Alone.run answering (do
      let response ← Client.dispatch r shared.session.token?
      pure (shared.session.token?, response) : Task _).run _ = _
    rw [Alone.run_bindTask, Client.dispatch, Alone.run_bindTask, htoken,
      Headers.ofRequest_unsendable htype hid]
    rfl
  rw [Client.execute, hr]
  show Alone.run answering (Client.untilCancelled r (Client.ensureLoggedOn e) >>= _).run _ = _
  rw [Alone.run_bindTask, hensure]
  show Alone.run answering (Client.attempt r >>= _).run _ = _
  rw [Alone.run_bindTask, hattempt]

end

/-! ## After any calls -/

/-- A new client has been through any calls, and from now on the console goes about its sessions in
the regular way. If the id of the session that is held can be sent, or none is held, a request ends
with the console's regular answer. If it cannot be sent, an answer to a logon has brought it in, and
the request fails without being sent, whatever the console. -/
theorem recovery (he : Endpoint.parse idna text = .ok e) (hr : r.isLogon = false)
    (htype : Sendable r.effectiveContentType) {shared : Shared} (hshared : shared.session = .none)
    {calls : List Call} {w : World Outcome} (h : (World.ofCalls e shared calls).Reaches w)
    {answers : List (Message × Delivery) → Message → Delivery} (hrenews : Renews answers) :
    ((∀ id, w.shared.session.token? = some id → Sendable id) → ∃ result shared' exchanges,
      Alone.run (.ofHistory answers) (Client.execute e r).run ⟨w.shared, [], false⟩ =
        (result, ⟨shared', exchanges, false⟩) ∧
      Recovered r exchanges result) ∧
    ∀ id, w.shared.session.token? = some id → ¬ Sendable id →
      (∃ later t data earlier, w.log = later ++ .touched t (.install data) :: earlier ∧
        HasOpened e shared.options calls earlier t data ∧ data.sessionId = id) ∧
      ∀ (σ : Type) (answering : Answering σ) (c : σ),
        Alone.run answering (Client.execute e r).run ⟨w.shared, c, false⟩ =
          (.error (.ofCause (.invalidHeader "session")), ⟨w.shared, c, false⟩) := by
  refine ⟨fun hfirst => hrenews.execute he hr htype hfirst, fun id htoken hid =>
    ⟨?_, fun σ answering c => execute_unsendable hr htype htoken hid⟩⟩
  obtain ⟨held, hkept⟩ := h.calls_kept
  rw [hkept.session] at htoken
  rcases History.session_cases shared.session (history shared.session w.log) with
    ⟨hfirst, -⟩ | ⟨hnone, -⟩ | ⟨t, data, hmem, hdata⟩
  · rw [hfirst, hshared] at htoken
    cases htoken
  · rw [hnone] at htoken
    cases htoken
  · rw [hdata] at htoken
    obtain ⟨later, earlier, hlog⟩ := List.append_of_mem (entry_of_history hmem)
    exact ⟨later, t, data, earlier, hlog, hkept.hasOpened hlog, Session.token_of_token? htoken⟩

namespace Sample

/-- A console that goes about its sessions in the regular way. -/
def renewing (past : List (Message × Delivery)) (m : Message) : Delivery :=
  if m.request.isLogon then opening
  else if m.token.any fun id => (issued past).contains id then accepting
  else rejecting

theorem renewing_renews : Renews renewing := by
  intro past m
  rw [renewing]
  split
  next hm =>
    obtain ⟨data, hdata, hid⟩ : ∃ data ∈ opening.opened.toOption, Sendable data.sessionId := by
      decide +kernel
    exact .opens hm (Delivery.opened_of_mem hdata) hid
  next hm =>
    split
    next htoken =>
      obtain ⟨id, hid, hissued⟩ := (Option.any_eq_true _ _).1 htoken
      exact .accepts (Bool.eq_false_iff.2 hm) hid (List.contains_iff_mem.1 hissued) rfl
    next htoken =>
      refine .rejects (Bool.eq_false_iff.2 hm) (fun id hissued hid => htoken ?_) rfl
      rw [hid]
      exact List.contains_iff_mem.2 hissued

/-- An answer that opens a session whose id no header can carry. -/
def unusable : Delivery := .answered 200 [] (Utf8.encode "\x7b\"api-session\": \"T\\n1\"\x7d")

end Sample

/-- A client that holds a session the console has forgotten is answered in a new one. -/
theorem recovery_forgotten : ∃ (w : World Outcome) (result : Result Response) (shared' : Shared)
    (exchanges : List (Message × Delivery)),
    (World.ofCalls Sample.endpoint (Sample.shared "") [.logon]).Reaches w ∧
    w.shared.session.token? = some "s1" ∧
    Alone.run (.ofHistory Sample.renewing) (Client.execute Sample.endpoint Sample.request).run
      ⟨w.shared, [], false⟩ = (result, ⟨shared', exchanges, false⟩) ∧
    Recovered Sample.request exchanges result := by
  have hrun : ((World.ofCalls Sample.endpoint (Sample.shared "") [.logon]).run
      (Sample.advances 0 12 ++ [.deliver 0 Sample.opening] ++ Sample.advances 0 11)).map
        (·.shared.session.token?) = some (some "s1") := by decide +kernel
  obtain ⟨w, hw, htoken⟩ := Option.map_eq_some_iff.1 hrun
  have hreaches := World.Reaches.of_run hw
  obtain ⟨result, shared', exchanges, hend, hrecovered⟩ :=
    (recovery Sample.parse_endpoint (r := Sample.request) (by decide +kernel) (by decide +kernel)
      rfl hreaches Sample.renewing_renews).1 fun id hid => by
        rw [htoken] at hid
        obtain rfl := Option.some.inj hid
        decide +kernel
  exact ⟨w, result, shared', exchanges, hreaches, htoken, hend, hrecovered⟩

/-- A client that was given a session with a line feed in its id does not recover, whatever the
console answers from then on. -/
theorem recovery_fails : ∃ w : World Outcome,
    (World.ofCalls Sample.endpoint (Sample.shared "") [.logon]).Reaches w ∧
    Sample.request.isLogon = false ∧ Sendable Sample.request.effectiveContentType ∧
    Renews Sample.renewing ∧
    (∀ exchanges result shared',
      Alone.run (.ofHistory Sample.renewing) (Client.execute Sample.endpoint Sample.request).run
        ⟨w.shared, [], false⟩ = (result, ⟨shared', exchanges, false⟩) →
      ¬ Recovered Sample.request exchanges result) ∧
    ∀ (σ : Type) (answering : Answering σ) (c : σ),
      Alone.run answering (Client.execute Sample.endpoint Sample.request).run
        ⟨w.shared, c, false⟩ =
        (.error (.ofCause (.invalidHeader "session")), ⟨w.shared, c, false⟩) := by
  have hrun : ((World.ofCalls Sample.endpoint (Sample.shared "") [.logon]).run
      (Sample.advances 0 12 ++ [.deliver 0 Sample.unusable] ++ Sample.advances 0 11)).map
        (·.shared.session.token?) = some (some "T\n1") := by decide +kernel
  obtain ⟨w, hw, htoken⟩ := Option.map_eq_some_iff.1 hrun
  have hplain : Sample.request.isLogon = false := by decide +kernel
  have htype : Sendable Sample.request.effectiveContentType := by decide +kernel
  have hall (σ : Type) (answering : Answering σ) (c : σ) :
      Alone.run answering (Client.execute Sample.endpoint Sample.request).run
        ⟨w.shared, c, false⟩ =
        (.error (.ofCause (.invalidHeader "session")), ⟨w.shared, c, false⟩) :=
    execute_unsendable hplain htype htoken (by decide +kernel)
  refine ⟨w, .of_run hw, hplain, htype, Sample.renewing_renews, ?_, hall⟩
  rintro exchanges result shared' hend ⟨before, m, status, headers, body, -, -, -, -, rfl⟩
  rw [hall] at hend
  cases hend

end HmcClient.Client
