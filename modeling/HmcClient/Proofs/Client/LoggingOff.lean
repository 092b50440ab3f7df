import HmcClient.Proofs.Client.Calls
import HmcClient.Proofs.Exchange.Header

/-!
# How a call closes a session

Two calls close sessions. Logging off closes the session of the client: it takes the lock of the
session alone, looks, and if there is a session, clears it and sends one message in it. It leaves
only when it knows that no session is held. Changing the password closes the session that it has
opened itself, and never comes near the session of the client.

The rules say all of that by what a call has done before, to the last deed: there is one history
after which each may send. So neither sends twice, and what it sends is in the session that its own
deeds name.
-/

namespace HmcClient.Client

variable {user : Options}

namespace Rules

/-- The rules of a call that closes the session of the client. -/
def closing (e : Endpoint) : Rules := fun deeds d =>
  match d with
  | .entered access => access = .exclusive ∧ deeds = []
  | .read _ => deeds = [.entered .exclusive]
  | .cleared => ∃ s, deeds = [.read s, .entered .exclusive]
  | .sent m => ∃ s id, deeds = [.cleared, .read s, .entered .exclusive] ∧ s.token? = some id ∧
      m.IsOf (logoffRequest e) (some id)
  | .left => ∃ s, Deed.seen deeds = some s ∧ s.token? = none
  | .installed _ => False
  | _ => True

/-- The rules of a call that changes the password, and closes the session that this has opened. -/
def changing (e : Endpoint) (user : Options) (newPassword : String) : Rules := fun deeds d =>
  match d with
  | .sent m =>
    (deeds = [] ∧ m.IsLogonOf e user (some newPassword)) ∨
      ∃ m₁ d data, deeds = [.heard m₁ d, .sent m₁] ∧ d.opened = .ok data ∧
        m.IsOf (logoffRequest e) (some data.sessionId)
  | .entered _ | .left | .read _ | .installed _ | .cleared => False
  | _ => True

end Rules

/-- How a call ends that closes the session of the client. -/
inductive ClosingEnds (e : Endpoint) : List Deed → Result Unit → Prop where
  /-- There is no session. -/
  | idle {s : Session} (hs : s.token? = none) :
    ClosingEnds e [.left, .read s, .entered .exclusive] (.ok ())
  /-- The token cannot be sent. -/
  | refused {s : Session} {id : String} {failure : Failure} (hs : s.token? = some id)
    (hbad : Headers.ofRequest Identity.userAgent (logoffRequest e) (some id) = .error failure) :
    ClosingEnds e [.left, .cleared, .read s, .entered .exclusive] (.error failure)
  | closes {s : Session} {id : String} {m : Message} {d : Delivery} (result : Result Unit)
    (hs : s.token? = some id) (hm : m.IsOf (logoffRequest e) (some id)) :
    ClosingEnds e [.left, .heard m d, .sent m, .cleared, .read s, .entered .exclusive] result

/-- How a call ends that changes the password. -/
inductive ChangingEnds (e : Endpoint) (user : Options) (newPassword : String) :
    List Deed → Result Unit → Prop where
  | failed {m : Message} {d : Delivery} {failure : Failure}
    (hm : m.IsLogonOf e user (some newPassword)) (hd : d.opened = .error failure) :
    ChangingEnds e user newPassword [.heard m d, .sent m] (.error failure)
  /-- The token of the new session cannot be sent. -/
  | refused {m : Message} {d : Delivery} {data : LogonData} {failure : Failure}
    (hm : m.IsLogonOf e user (some newPassword)) (hd : d.opened = .ok data)
    (hbad : Headers.ofRequest Identity.userAgent (logoffRequest e) (some data.sessionId) =
      .error failure) :
    ChangingEnds e user newPassword [.heard m d, .sent m] (.error failure)
  | closes {m m' : Message} {d d' : Delivery} {data : LogonData} (result : Result Unit)
    (hm : m.IsLogonOf e user (some newPassword)) (hd : d.opened = .ok data)
    (hm' : m'.IsOf (logoffRequest e) (some data.sessionId)) :
    ChangingEnds e user newPassword [.heard m' d', .sent m', .heard m d, .sent m] result

namespace Follows

variable {e : Endpoint}

end Follows

namespace Call

/-- The rules of a call, with those for closing sessions. -/
def closing (e : Endpoint) (user : Options) : Call → Rules
  | logoff => .closing e
  | changePassword newPassword => .changing e user newPassword
  | call => call.rules e user

/-- How a call ends, with what it has done if it closes sessions. -/
def Ends (e : Endpoint) (user : Options) (call : Call) (g : Account) (outcome : Outcome) : Prop :=
  g.held = [] ∧
    match call with
    | logoff => ∃ result, outcome = .done result ∧ ClosingEnds e g.deeds result
    | changePassword newPassword =>
      ∃ result, outcome = .done result ∧ ChangingEnds e user newPassword g.deeds result
    | _ => True

end Call

/-! ## What rules make of the deeds of one call -/

/-- Whether everything that was done was allowed when it was done. -/
def Rules.Kept (R : Rules) (deeds : List Deed) : Prop :=
  ∀ later d earlier, deeds = later ++ d :: earlier → d.IsOwn → R earlier d

theorem Lawful.kept {R : Nat → Rules} {s₀ : Session} {A : Answers} {H : History}
    (h : Lawful R s₀ A H) (t : Nat) : (R t).Kept (H.of t) := by
  intro later d earlier hdeeds hown
  obtain ⟨after, before, rfl, rfl⟩ := History.split_of later hdeeds
  exact (h.of_append after).may hown

/-- The message that a deed sends. -/
def Deed.message? : Deed → Option Message
  | sent m => some m
  | _ => none

namespace Rules.Kept

variable {e : Endpoint} {newPassword : String} {deeds : List Deed}

end Rules.Kept

/-! ## What is told by an end -/

/-- What stands in the way of closing a session is only its token. -/
theorem ofRequest_logoffRequest {e : Endpoint} {id : String} {failure : Failure}
    (hid : Sendable id) :
    Headers.ofRequest Identity.userAgent (logoffRequest e) (some id) ≠ .error failure := by
  have htype : Sendable Request.documentType := by decide +kernel
  exact Headers.ofRequest_ne_error htype fun id' hid' => by rwa [← Option.some.inj hid']

/-- At its end a call that closes the session of the client has looked once. If it has found no
session, it has done nothing and succeeds. Else it has sent one message in the session, if its token
can be sent. -/
theorem ClosingEnds.found {e : Endpoint} {deeds : List Deed} {result : Result Unit}
    (h : ClosingEnds e deeds result) :
    ∃ later s, deeds = later ++ [.read s, .entered .exclusive] ∧
      (s.token? = none →
        deeds.filterMap Deed.message? = [] ∧ .cleared ∉ deeds ∧ result = .ok ()) ∧
      ∀ id, s.token? = some id → Sendable id →
        ∃ m, m.IsOf (logoffRequest e) (some id) ∧ deeds.filterMap Deed.message? = [m] := by
  cases h with
  | @idle s hs =>
      exact ⟨[.left], s, rfl, fun _ => ⟨rfl, by simp, rfl⟩,
        fun id hid => nomatch hs.symm.trans hid⟩
  | @refused s id failure hs hbad =>
      refine ⟨[.left, .cleared], s, rfl, fun hnone => (nomatch hs.symm.trans hnone), ?_⟩
      intro id' hid hsendable
      obtain rfl := Option.some.inj (hs.symm.trans hid)
      exact absurd hbad (ofRequest_logoffRequest hsendable)
  | @closes s id m d result hs hm =>
      refine ⟨[.left, .heard m d, .sent m, .cleared], s, rfl,
        fun hnone => (nomatch hs.symm.trans hnone), fun id' hid _ => ?_⟩
      obtain rfl := Option.some.inj (hs.symm.trans hid)
      exact ⟨m, hm, rfl⟩

/-- At its end a call that changes the password has sent one logon, and one message in the session
that this has opened, if it has opened one and its token can be sent. -/
theorem ChangingEnds.sent {e : Endpoint} {newPassword : String} {deeds : List Deed}
    {result : Result Unit} (h : ChangingEnds e user newPassword deeds result) :
    ∃ m d, m.IsLogonOf e user (some newPassword) ∧ .heard m d ∈ deeds ∧
      match d.opened with
      | .ok data => Sendable data.sessionId →
        ∃ m', m'.IsOf (logoffRequest e) (some data.sessionId) ∧
          deeds.filterMap Deed.message? = [m', m]
      | .error failure => deeds.filterMap Deed.message? = [m] ∧ result = .error failure := by
  cases h with
  | @failed m d failure hm hd => exact ⟨m, d, hm, by simp, by rw [hd]; exact ⟨rfl, rfl⟩⟩
  | @refused m d data failure hm hd hbad =>
      refine ⟨m, d, hm, by simp, ?_⟩
      rw [hd]
      intro hsendable
      exact absurd hbad (ofRequest_logoffRequest hsendable)
  | @closes m m' d d' data result hm hd hm' =>
      refine ⟨m, d, hm, by simp, ?_⟩
      rw [hd]
      exact fun _ => ⟨m', hm', rfl⟩

end HmcClient.Client
