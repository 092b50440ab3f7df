import HmcClient.Proofs.Client.Alone
import HmcClient.Proofs.Client.Calls
import HmcClient.Proofs.Exchange.Header

/-!
# How a request is executed if nothing disturbs it

A request that runs alone goes through the same few exchanges whatever the console is like.
`Executes` lists them: which messages are sent in which order, what was heard to each, what comes of
the request, and which session is held in the end. There is a logon before the request if there is
no session, and a logon and the request once more if the first answer rejects the session. Nothing
follows any other answer.

The proof goes through the stages of `Follows.execute`. Between two stages it is known which
exchanges have been made and that the session held is the one they have left, so the answers of the
second stage and of the fourth can be told by the deeds alone.
-/

namespace HmcClient.Client

variable {user : Options}

/-! ## The protocol -/

/-- The exchanges by which a session to send the request in is come by, and that session. -/
inductive Begins (e : Endpoint) (user : Options) (s : Session) :
    List (Message × Delivery) → Session → Prop where
  | held (hs : s.isAuthenticated = true) : Begins e user s [] s
  | opened {m : Message} {d : Delivery} {data : LogonData} (hs : s.isAuthenticated = false)
    (hm : m.IsLogonOf e user none) (hd : d.opened = .ok data) :
    Begins e user s [(m, d)] (.ofLogon data)

/-- The exchanges by which a request is executed from a session on, what comes of it, and the
session that is held in the end. -/
inductive Executes (e : Endpoint) (user : Options) (r : Request) (s : Session) :
    List (Message × Delivery) → Result Response → Session → Prop where
  /-- There is no session and none can be opened. -/
  | noSession {m : Message} {d : Delivery} {failure : Failure} (hs : s.isAuthenticated = false)
    (hm : m.IsLogonOf e user none) (hd : d.opened = .error failure) :
    Executes e user r s [(m, d)] (.error failure) s
  /-- The session is not rejected. -/
  | settled {first : List (Message × Delivery)} {s' : Session} {m : Message} {d : Delivery}
    (hfirst : Begins e user s first s') (hm : m.IsOf r s'.token?) (hd : d.rejects = false) :
    Executes e user r s (first ++ [(m, d)]) (d.outcome r >>= regular) s'
  /-- The session is rejected and no other can be opened. -/
  | notReopened {first : List (Message × Delivery)} {s' : Session} {m m' : Message}
    {d d' : Delivery} {failure : Failure} (hfirst : Begins e user s first s')
    (hm : m.IsOf r s'.token?) (hd : d.rejects = true) (hm' : m'.IsLogonOf e user none)
    (hd' : d'.opened = .error failure) :
    Executes e user r s (first ++ [(m, d), (m', d')]) (.error failure) .none
  /-- The session is rejected and another one is opened. -/
  | repeated {first : List (Message × Delivery)} {s' : Session} {m m' m'' : Message}
    {d d' d'' : Delivery} {data : LogonData} (hfirst : Begins e user s first s')
    (hm : m.IsOf r s'.token?) (hd : d.rejects = true) (hm' : m'.IsLogonOf e user none)
    (hd' : d'.opened = .ok data) (hm'' : m''.IsOf r (some data.sessionId)) :
    Executes e user r s (first ++ [(m, d), (m', d'), (m'', d'')]) (d''.outcome r >>= regular)
      (.ofLogon data)

/-- Whether the console opens no session whose token cannot be sent. -/
def OpensSendable (m : Message) (d : Delivery) : Prop :=
  m.request.isLogon = true → ∀ data, d.opened = .ok data → Sendable data.sessionId

variable {σ : Type} {idna : Idna} {text : String} {e : Endpoint} {r : Request} {s₀ : Session}

def Rules.free : Rules := fun _ _ => True

theorem Rules.free_open : Rules.free.Open where
  entered _ _ := trivial
  read _ _ := trivial
  looked _ _ := trivial
  stopped _ _ := trivial

/-- The session in which a request is sent first has a token that can be sent. -/
theorem Begins.sendable (he : Endpoint.parse idna text = .ok e)
    (hs₀ : ∀ id, s₀.token? = some id → Sendable id) {first : List (Message × Delivery)}
    {s : Session} (h : Begins e user s₀ first s) (hopens : ∀ x ∈ first, OpensSendable x.1 x.2)
    {id : String} (hid : s.token? = some id) : Sendable id := by
  cases h with
  | held hs => exact hs₀ id hid
  | opened hs hm hd =>
      obtain rfl := Session.token_of_token? hid
      exact hopens _ (List.mem_singleton.2 rfl) (hm.isLogon he) _ hd

/-! ## The stages -/

/-- Whether deeds are those of an undisturbed operation and a console that opens no session whose
token cannot be sent. -/
abbrev Plain (s₀ : Session) (deeds : List Deed) : Prop := Deed.Undisturbed s₀ OpensSendable deeds

/-- How the request ends. -/
def Tried (e : Endpoint) (user : Options) (r : Request) (s₀ : Session) (g : Account)
    (result : Result Response) : Prop :=
  Plain s₀ g.deeds → Executes e user r s₀ (Deed.exchanges g.deeds) result (Deed.leaves s₀ g.deeds)

/-- Where the request can be sent for the first time. -/
def Begun (e : Endpoint) (user : Options) (s₀ : Session) (deeds : List Deed) : Prop :=
  Plain s₀ deeds → Begins e user s₀ (Deed.exchanges deeds) (Deed.leaves s₀ deeds)

/-- Where the request has been sent once and been rejected. -/
def TurnedDown (e : Endpoint) (user : Options) (r : Request) (s₀ : Session) (deeds : List Deed)
    (stale : Option String) : Prop :=
  Plain s₀ deeds → stale = (Deed.leaves s₀ deeds).token? ∧
    ∃ first m d, Deed.exchanges deeds = first ++ [(m, d)] ∧
      Begins e user s₀ first (Deed.leaves s₀ deeds) ∧ m.IsOf r stale ∧ d.rejects = true

/-- Where the request can be sent for the second time. -/
def BegunAgain (e : Endpoint) (user : Options) (r : Request) (s₀ : Session) (deeds : List Deed) :
    Prop :=
  Plain s₀ deeds → ∃ first s m d m' d' data,
    Deed.exchanges deeds = first ++ [(m, d), (m', d')] ∧ Begins e user s₀ first s ∧
      m.IsOf r s.token? ∧
      d.rejects = true ∧ m'.IsLogonOf e user none ∧ d'.opened = .ok data ∧
      Deed.leaves s₀ deeds = .ofLogon data

namespace Follows

theorem ensureLoggedOn_plain :
    Follows user .free (Ending (fun deeds _ => Begun e user s₀ deeds) (Tried e user r s₀)) ⟨[], []⟩
      (Client.ensureLoggedOn e).run := by
  refine ensureLoggedOn Rules.free_open ?_ ?_ ?_
  · intro s hs
    refine ⟨rfl, fun h => ?_⟩
    obtain rfl : s = s₀ := h.1
    exact .held hs
  · intro s s' hs hs'
    refine ⟨_, rfl, trivial, rfl, fun h => ?_⟩
    obtain rfl : s' = s₀ := h.1
    obtain rfl : s = s' := h.2.1
    exact nomatch hs.symm.trans hs'
  · intro s s' hs hs'
    refine installLogon (fun m hm => trivial) fun m d hm hd => ?_
    cases hopened : d.opened with
    | ok data =>
        refine ⟨trivial, _, rfl, trivial, rfl, fun h => ?_⟩
        obtain rfl : s' = s₀ := h.2.1
        exact .opened hs' hm hopened
    | error failure =>
        refine ⟨_, rfl, trivial, fun h => ?_⟩
        obtain rfl : s' = s₀ := h.2.1
        exact .noSession hs' hm hopened

theorem attempt_first_plain (he : Endpoint.parse idna text = .ok e)
    (htype : Sendable r.effectiveContentType) (hs₀ : ∀ id, s₀.token? = some id → Sendable id)
    {deeds : List Deed} (hbegun : Begun e user s₀ deeds) :
    Follows user .free (Ending (fun deeds p =>
      if p.2.isExpected then Tried e user r s₀ ⟨[], deeds⟩ (.ok p.2)
      else if p.2.rejectsSession then TurnedDown e user r s₀ deeds p.1
      else Tried e user r s₀ ⟨[], deeds⟩ (.error p.2.failure)) (Tried e user r s₀))
      ⟨[], deeds⟩ (Client.attempt r).run := by
  refine attempt Rules.free_open ?_ (fun _ _ _ => trivial) ?_ ?_
  · intro s failure hbad h
    obtain rfl : s = Deed.leaves s₀ deeds := h.1
    exact absurd hbad (Headers.ofRequest_ne_error htype fun id hid =>
      (hbegun h.2).sendable he hs₀ h.2.allowed hid)
  · intro s m d hm hd
    -- The exchange follows those by which the session was come by, and leaves the session alone.
    have hsettled : ∀ result, d.rejects = false → (d.outcome r >>= regular) = result →
        Tried e user r s₀
          ⟨[], .heard m d :: .sent m :: .left :: .read s :: .entered .shared :: deeds⟩
          result := by
      rintro _ hrejects rfl ⟨-, hread, h⟩
      obtain rfl : s = Deed.leaves s₀ deeds := hread
      exact .settled (hbegun h) hm hrejects
    cases d with
    | cancelled => exact absurd rfl hd
    | brokenOff status => exact hsettled _ rfl rfl
    | lost => exact hsettled _ rfl rfl
    | answered status headers body =>
        refine ⟨rfl, ?_⟩
        dsimp only
        split
        · next hexpected =>
            exact hsettled _ (Response.not_rejects_of_expected hexpected) (if_pos hexpected)
        next hexpected =>
          split
          · next hrejects =>
              rintro ⟨-, hread, h⟩
              obtain rfl : s = Deed.leaves s₀ deeds := hread
              exact ⟨rfl, _, m, _, rfl, hbegun h, hm, hrejects⟩
          · next hrejects =>
              exact hsettled _ (Bool.eq_false_iff.2 hrejects) (if_neg hexpected)
  · intro deeds hstop h
    exact absurd hstop h.not_gaveUp

theorem relogon_plain {deeds : List Deed} {stale : Option String}
    (hdown : TurnedDown e user r s₀ deeds stale) :
    Follows user .free (Ending (fun deeds _ => BegunAgain e user r s₀ deeds) (Tried e user r s₀))
      ⟨[], deeds⟩
      (Client.relogon e stale).run := by
  refine relogon Rules.free_open ?_ (fun _ _ _ _ => trivial) ?_
  · intro s hauth hother
    refine ⟨_, rfl, trivial, rfl, fun h => ?_⟩
    obtain rfl : s = Deed.leaves s₀ deeds := h.1
    exact absurd (hdown h.2).1.symm hother
  · intro s hstale m d hm hd
    cases hopened : d.opened with
    | ok data =>
        refine ⟨trivial, _, rfl, trivial, rfl, fun h => ?_⟩
        obtain ⟨rfl, first, m₁, d₁, hexchanges, hfirst, hm₁, hd₁⟩ := hdown h.2.2
        refine ⟨first, _, m₁, d₁, m, d, data, ?_, hfirst, hm₁, hd₁, hm, hopened, rfl⟩
        show Deed.exchanges deeds ++ [(m, d)] = _
        rw [hexchanges, List.append_assoc]
        rfl
    | error failure =>
        refine ⟨trivial, _, rfl, trivial, fun h => ?_⟩
        obtain ⟨rfl, first, m₁, d₁, hexchanges, hfirst, hm₁, hd₁⟩ := hdown h.2.2
        show Executes e user r s₀ (Deed.exchanges deeds ++ [(m, d)]) _ .none
        rw [hexchanges, List.append_assoc]
        exact .notReopened hfirst hm₁ hd₁ hm hopened

theorem attempt_second_plain (he : Endpoint.parse idna text = .ok e)
    (htype : Sendable r.effectiveContentType) {deeds : List Deed}
    (hagain : BegunAgain e user r s₀ deeds) :
    Follows user .free
      (Ending (fun deeds p => Tried e user r s₀ ⟨[], deeds⟩ (regular p.2)) (Tried e user r s₀))
      ⟨[], deeds⟩ (Client.attempt r).run := by
  refine attempt Rules.free_open ?_ (fun _ _ _ => trivial) ?_ ?_
  · intro s failure hbad h
    have hplain : Plain s₀ deeds := h.2
    obtain ⟨first, s', m, d, m', d', data, hexchanges, -, -, -, hm', hd', hleaves⟩ :=
      hagain hplain
    obtain rfl : s = Session.ofLogon data := h.1.trans hleaves
    have hopens : OpensSendable m' d' := hplain.allowed (m', d') (by rw [hexchanges]; simp)
    refine absurd hbad (Headers.ofRequest_ne_error htype fun id hid => ?_)
    obtain rfl := Session.token_of_token? hid
    exact hopens (hm'.isLogon he) data hd'
  · intro s m d hm hd
    have hsettled : Tried e user r s₀
        ⟨[], .heard m d :: .sent m :: .left :: .read s :: .entered .shared :: deeds⟩
        (d.outcome r >>= regular) := by
      rintro ⟨-, hread, h⟩
      obtain ⟨first, s', m₁, d₁, m', d', data, hexchanges, hfirst, hm₁, hd₁, hm', hd', hleaves⟩ :=
        hagain h
      obtain rfl : s = Session.ofLogon data := hread.trans hleaves
      show Executes e user r s₀ (Deed.exchanges deeds ++ [(m, d)]) _ (Deed.leaves s₀ deeds)
      rw [hexchanges, List.append_assoc, hleaves]
      obtain ⟨status, headers, body, rfl, hdata⟩ := Delivery.opened_eq_ok hd'
      rw [Session.token?_ofLogon (Logon.of_opened_eq_ok hdata).2] at hm
      exact .repeated hfirst hm₁ hd₁ hm' hd' hm
    cases d with
    | cancelled => exact absurd rfl hd
    | brokenOff status => exact hsettled
    | lost => exact hsettled
    | answered status headers body => exact ⟨rfl, hsettled⟩
  · intro deeds hstop h
    exact absurd hstop h.not_gaveUp

theorem execute_plain (he : Endpoint.parse idna text = .ok e) (hr : r.isLogon = false)
    (htype : Sendable r.effectiveContentType) (hs₀ : ∀ id, s₀.token? = some id → Sendable id) :
    Follows user .free (Tried e user r s₀) .opening (Client.execute e r).run :=
  execute Rules.free_open hr ensureLoggedOn_plain (fun _ => attempt_first_plain he htype hs₀)
    (fun _ _ => relogon_plain) (fun _ => attempt_second_plain he htype)
    fun _ hstop h => absurd hstop h.not_gaveUp

end Follows

/-! ## The request as a whole -/

namespace Sample

/-- A console that opens a session for every logon and rejects all other requests until it has. -/
def console : Answering Bool := fun m opened =>
  if m.request.isLogon then (some opening, true)
  else (some (if opened then accepting else rejecting), opened)

theorem console_settles : console.Settles OpensSendable := by
  intro m opened
  cases hm : m.request.isLogon with
  | true =>
      have hopening : ∃ data ∈ opening.opened.toOption, Sendable data.sessionId := by
        decide +kernel
      refine ⟨opening, true, by rw [console, hm]; rfl, by decide +kernel, fun _ data hdata => ?_⟩
      obtain ⟨data', hdata', hsendable⟩ := hopening
      rw [Delivery.opened_of_mem hdata'] at hdata
      exact Except.ok.inj hdata ▸ hsendable
  | false =>
      refine ⟨_, opened, by rw [console, hm]; rfl, ?_, fun hlogon => nomatch hm.symm.trans hlogon⟩
      cases opened <;> decide +kernel

end Sample

end HmcClient.Client
