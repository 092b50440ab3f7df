import HmcClient.Proofs.Client.Closing
import HmcClient.Proofs.Client.Tracing
import HmcClient.Resource.Partition

/-!
# Which session a console is given with

The address of an ASCII console comes with a session id. The client asks for the two one after the
other: a request is executed, and when its answer is there, the session is looked at once more. So
two looks decide about the pair. The request carries the token of the first one, the pair holds the
token of the second one, and the lock of the session is not held in between.

If nobody writes the session between the looks, the pair belongs together. If somebody does, it does
not, provided that the console gives every session an id of its own: a session that is replaced or
cleared never comes back. All of that can happen while the answer is on its way, and
`console_mispaired` is a run in which it does.
-/

namespace HmcClient.Client

variable {user : Options}

/-! ## Operations on resources -/

/-- The rules of an operation on a resource. It executes requests, so it may open sessions. -/
def Rules.talking (e : Endpoint) (user : Options) : Rules := writes (OpenedBy e user) fun _ => True

/-- Whether the answer to a request is the last that was heard, and the request was sent right after
a look at the session. -/
def Heard (r : Request) (deeds : List Deed) (response : Response) : Prop :=
  ∃ m s headers earlier, deeds =
    .heard m (.answered response.status headers response.body) :: .sent m :: .left :: .read s ::
      .entered .shared :: earlier ∧ m.IsOf r s.token?

/-- How a request ends that is executed for an operation on a resource. -/
def Replied (r : Request) (g : Account) (result : Result Response) : Prop :=
  g.held = [] ∧ ∀ response, result = .ok response → Heard r g.deeds response

theorem Replied.failed {r : Request} {deeds : List Deed} {failure : Failure} :
    Replied r ⟨[], deeds⟩ (.error failure) := ⟨rfl, fun _ h => nomatch h⟩

theorem Heard.replied {r : Request} {deeds : List Deed} {response : Response}
    (h : Heard r deeds response) : Replied r ⟨[], deeds⟩ (.ok response) :=
  ⟨rfl, fun _ hresponse => Except.ok.inj hresponse ▸ h⟩

theorem Heard.regular {r : Request} {deeds : List Deed} {response : Response}
    (h : Heard r deeds response) : Replied r ⟨[], deeds⟩ (regular response) := by
  rw [Client.regular]
  split
  · exact h.replied
  · exact .failed

theorem Ending.mono {α β : Type} {P P' : List Deed → α → Prop} {Q : Account → Result β → Prop}
    (hP : ∀ deeds a, P deeds a → P' deeds a) {g : Account} {result : Result α}
    (h : Ending P Q g result) : Ending P' Q g result := by
  cases result with
  | ok a => exact ⟨h.1, hP _ _ h.2⟩
  | error failure => exact h

namespace Follows

variable {α β : Type} {e : Endpoint} {r : Request} {deeds : List Deed}

theorem ensureLoggedOn_talking :
    Follows user (.talking e user) (Ending (fun _ _ => True) (Replied r)) ⟨[], deeds⟩
      (Client.ensureLoggedOn e).run := by
  refine ensureLoggedOn Rules.writes_open ?_ ?_ ?_
  · intro s hs
    exact ⟨rfl, trivial⟩
  · intro s s' hs hs'
    exact ⟨_, rfl, trivial, rfl, trivial⟩
  · intro s s' hs hs'
    refine installLogon (fun _ _ => trivial) fun m d hm hd => ?_
    cases hopened : d.opened with
    | ok data => exact ⟨.of_heard hm hopened, _, rfl, trivial, rfl, trivial⟩
    | error failure => exact ⟨_, rfl, trivial, .failed⟩

theorem relogon_talking {stale : Option String} :
    Follows user (.talking e user) (Ending (fun _ _ => True) (Replied r)) ⟨[], deeds⟩
      (Client.relogon e stale).run := by
  refine relogon Rules.writes_open ?_ (fun _ _ _ _ => trivial) ?_
  · intro s hauth hother
    exact ⟨_, rfl, trivial, rfl, trivial⟩
  · intro s hstale m d hm hd
    cases hopened : d.opened with
    | ok data => exact ⟨.of_heard hm hopened, _, rfl, trivial, rfl, trivial⟩
    | error failure => exact ⟨trivial, _, rfl, trivial, .failed⟩

theorem attempt_talking :
    Follows user (.talking e user) (Ending (fun deeds p => Heard r deeds p.2) (Replied r))
      ⟨[], deeds⟩
      (Client.attempt r).run := by
  refine attempt Rules.writes_open (fun _ _ _ => .failed) (fun _ _ _ => trivial) ?_
    fun _ _ => .failed
  intro s m d hm hd
  cases d with
  | answered status headers body => exact ⟨rfl, m, s, headers, deeds, rfl, hm⟩
  | brokenOff status => exact .failed
  | lost => exact .failed
  | cancelled => exact absurd rfl hd

theorem execute_talking :
    Follows user (.talking e user) (Replied r) ⟨[], deeds⟩ (Client.execute e r).run := by
  have hlast : ∀ deeds, Follows user (.talking e user)
      (Ending (fun deeds p => Replied r ⟨[], deeds⟩ (regular p.2)) (Replied r)) ⟨[], deeds⟩
      (Client.attempt r).run :=
    fun deeds => mono (fun _ _ => Ending.mono fun _ _ h => h.regular) attempt_talking
  cases hr : r.isLogon with
  | true => exact executeLogon hr (hlast deeds)
  | false =>
      refine execute Rules.writes_open hr ensureLoggedOn_talking (fun deeds (_ : True) => ?_)
        (fun deeds stale (_ : True) => relogon_talking) (fun deeds (_ : True) => hlast deeds)
        fun _ _ => .failed
      refine mono (fun _ _ => Ending.mono fun deeds p h => ?_) attempt_talking
      split
      · exact h.replied
      · split
        · trivial
        · exact .failed

theorem answerTalk_talking (effect : Talk.Effect) :
    Follows user (.talking e user) (fun g _ => g.held = []) ⟨[], deeds⟩ (answerTalk e effect) := by
  cases effect with
  | execute r => exact mono (fun _ _ h => h.1) (execute_talking (r := r))
  | sessionId => exact currentToken Rules.writes_open fun _ => rfl
  | now => exact touchQuietly (fun _ => rfl) trivial fun _ _ => rfl
  | pause interval cancellable => exact ⟨rfl, fun _ => rfl⟩

theorem perform_talking (p : Program Talk α) :
    Follows user (.talking e user) (fun g _ => g.held = []) ⟨[], deeds⟩ (perform e p) := by
  induction p generalizing deeds with
  | done a => exact rfl
  | perform effect next ih =>
      refine trans (answerTalk_talking effect) ?_
      rintro ⟨held, deeds⟩ answer rfl
      exact ih answer

/-- To perform one operation after the other. -/
theorem performBind {R : Rules} {Q : Account → Result β → Prop} {g : Account} {x : Operation α}
    {f : α → Operation β}
    (h : Follows user R (fun g result =>
      match result with
      | .ok a => Follows user R Q g (perform e (f a).run)
      | .error failure => Q g (.error failure)) g (perform e x.run)) :
    Follows user R Q g (perform e (x >>= f).run) := by
  rw [ExceptT.run_bind]
  show Follows user R Q g (Program.interpret (answerTalk e) (Program.bind x.run _))
  rw [Program.interpret_bind]
  refine trans (Q := fun g result => match result with
    | .ok a => Follows user R Q g (perform e (f a).run)
    | .error failure => Q g (.error failure)) h fun g result hr => ?_
  cases result with
  | ok a => exact hr
  | error failure => exact hr

/-- What is read from an answer asks for nothing. -/
theorem performResult {R : Rules} {Q : Account → Result α → Prop} {g : Account} {result : Result α}
    (h : Q g result) : Follows user R Q g (perform e (ExceptT.mk (Pure.pure result)).run) := h

end Follows

/-! ## A client in use -/

namespace Use

variable {β : Type} {e : Endpoint}

def rules (e : Endpoint) (user : Options) : Use β → Rules
  | call c => c.rules e user
  | talk _ => .talking e user

theorem opening_rules (u : Use β) : (u.rules e user).Opening e user := by
  cases u with
  | call c => exact fun _ _ h => (Call.opened_of_rules h).2
  | talk p => exact fun _ _ h => h

theorem follows (e : Endpoint) (u : Use β) :
    Follows user (u.rules e user) (fun g _ => g.held = []) .opening (u.operation e) := by
  cases u with
  | call c => exact .map (.mono (fun _ _ hleft => hleft.1) (c.follows e))
  | talk p => exact .map (.perform_talking p)

/-- The rules of each of several uses. -/
def each (e : Endpoint) (user : Options) (uses : List (Use β)) (t : Nat) : Rules :=
  match uses[t]? with
  | some u => u.rules e user
  | none => fun _ _ => False

theorem opening_each (uses : List (Use β)) (t : Nat) : (each e user uses t).Opening e user := by
  intro deeds data h
  rw [each] at h
  cases hu : uses[t]? with
  | some u =>
      rw [hu] at h
      exact opening_rules u deeds data h
  | none =>
      rw [hu] at h
      exact h.elim

end Use

namespace World

variable {β : Type} {e : Endpoint} {shared : Shared} {uses : List (Use β)} {w : World (Outcome ⊕ β)}

/-- A client that is used for several things at once. -/
def ofUses (e : Endpoint) (shared : Shared) (uses : List (Use β)) : World (Outcome ⊕ β) :=
  .start shared (uses.map (·.operation e))

theorem Reaches.uses_kept {Q : Nat → Account → Outcome ⊕ β → Prop}
    (hQ : ∀ t u, uses[t]? = some u →
      Follows shared.options (u.rules e shared.options) (Q t) .opening (u.operation e))
    (h : (ofUses e shared uses).Reaches w) :
    ∃ held, w.Kept shared.options (Use.each e shared.options uses) Q shared.session
      (fun _ _ _ => True) held := by
  refine h.leads.kept (fun _ _ _ _ => trivial) (Kept.start fun t p hp => ?_)
  rw [List.getElem?_map, Option.map_eq_some_iff] at hp
  obtain ⟨u, hu, rfl⟩ := hp
  have hrules : Use.each e shared.options uses t = u.rules e shared.options := by rw [Use.each, hu]
  rw [hrules]
  exact hQ t u hu

end World

/-! ## Giving a console -/

/-- The request for the address of a console. -/
def consoleRequest (e : Endpoint) (uri : String) : Request :=
  e.post (Partition.operationUri uri "get-ascii-console-websocket-uri")

/-- What was done before a console is given. -/
def Given (e : Endpoint) (uri : String) (deeds : List Deed) (console : AsciiConsole) : Prop :=
  ∃ m status headers body s s' earlier,
    deeds = .left :: .read s' :: .entered .shared :: .heard m (.answered status headers body) ::
      .sent m :: .left :: .read s :: .entered .shared :: earlier ∧
    m.IsOf (consoleRequest e uri) s.token? ∧
    Response.document WebsocketAddress.codec [200] ⟨status, body⟩ = .ok ⟨console.websocketUri⟩ ∧
    s'.token? = some console.sessionId

theorem perform_execute (e : Endpoint) (r : Request) :
    perform e (Talk.execute r).run = (execute e r).run := Program.bind_done_right _

theorem perform_sessionId (e : Endpoint) :
    perform e Talk.sessionId.run = Except.ok <$> currentToken := rfl

theorem Follows.asciiConsole {e : Endpoint} {uri : String} :
    Follows user (.talking e user)
      (fun g result => ∀ console, result = .ok console → Given e uri g.deeds console)
      .opening (perform e (Partition.asciiConsole e uri).run) := by
  refine performBind ?_
  rw [perform_execute]
  refine mono ?_ execute_talking
  rintro ⟨held, deeds⟩ (failure | response) ⟨rfl, hanswered⟩
  · exact fun _ h => nomatch h
  obtain ⟨m, s, headers, earlier, hdeeds, hm⟩ := hanswered response rfl
  obtain rfl : deeds = _ := hdeeds
  refine performBind (performResult ?_)
  cases haddress : response.document WebsocketAddress.codec [200] with
  | error failure => exact fun _ h => nomatch h
  | ok address =>
      refine performBind ?_
      rw [perform_sessionId]
      refine map (currentToken Rules.writes_open fun s' => ?_)
      cases hs' : s'.token? with
      | none => exact fun _ h => nomatch h
      | some id =>
          rintro console hconsole
          obtain rfl := Except.ok.inj hconsole
          exact ⟨m, response.status, headers, response.body, s, s', earlier, rfl, hm, haddress, hs'⟩

/-! ## What the log tells -/

section

variable {s₀ : Session} {log since before : List Entry} {t : Nat} {id : String}

/-- Where a deed of an operation stands in the log. -/
theorem split_of_deed {d : Deed} {earlier : List Deed} (later : List Deed)
    (h : (history s₀ log).of t = later ++ d :: earlier) :
    ∃ after before, log = after ++ d.entry t :: before ∧ (history s₀ before).of t = earlier ∧
      (d.entry t).deed? (sessionAfter s₀ before) = some (t, d) := by
  obtain ⟨_, H, hsplit, rfl⟩ := History.split_of later h
  obtain ⟨after, entry, before, rfl, rfl, hdeed, -⟩ := split_of_history hsplit
  obtain rfl := Entry.eq_of_deed hdeed
  rw [session_history] at hdeed
  exact ⟨after, before, rfl, rfl, hdeed⟩

/-- Where an operation has looked at the session, it has seen the one that was held then. -/
theorem split_of_read {s : Session} {earlier : List Deed} (later : List Deed)
    (h : (history s₀ log).of t = later ++ .read s :: earlier) :
    ∃ after before, log = after ++ .touched t .session :: before ∧
      (history s₀ before).of t = earlier ∧ sessionAfter s₀ before = s := by
  obtain ⟨after, before, hlog, hearlier, hdeed⟩ := split_of_deed later h
  exact ⟨after, before, hlog, hearlier, by simpa [Deed.entry, Entry.deed?] using hdeed⟩

/-- Whether nobody writes the session, by a part of the log. -/
def Unwritten (log : List Entry) : Prop := ∀ t touch, IsWrite touch → .touched t touch ∉ log

theorem Unwritten.session (h : Unwritten since) :
    sessionAfter s₀ (since ++ before) = sessionAfter s₀ before := by
  induction since with
  | nil => rfl
  | cons entry since ih =>
      have hrest := ih fun t touch hwrite hmem => h t touch hwrite (List.mem_cons_of_mem _ hmem)
      cases entry with
      | touched t touch =>
          cases touch with
          | install data => exact absurd List.mem_cons_self (h t (.install data) trivial)
          | clear => exact absurd List.mem_cons_self (h t .clear trivial)
          | _ => exact hrest
      | _ => exact hrest

/-- A session that is held again has been held all the time, if no token is held twice. -/
theorem Unwritten.of_same (hnodup : (heldTokens s₀ (since ++ before)).Nodup)
    (hbefore : (sessionAfter s₀ before).token? = some id)
    (hnow : (sessionAfter s₀ (since ++ before)).token? = some id) : Unwritten since := by
  induction since with
  | nil => exact fun _ _ _ hmem => nomatch hmem
  | cons entry since ih =>
      have hquiet : (∀ t touch, IsWrite touch → entry ≠ .touched t touch) → Unwritten since →
          Unwritten (entry :: since) := by
        intro hentry hrest t touch hwrite hmem
        rcases List.mem_cons.1 hmem with heq | hmem
        · exact hentry t touch hwrite heq.symm
        · exact hrest t touch hwrite hmem
      cases entry with
      | touched t touch =>
          cases touch with
          | install data =>
              obtain rfl : data.sessionId = id := Session.token_of_token? hnow
              exact absurd (mem_heldTokens_append since hbefore) (List.nodup_cons.1 hnodup).1
          | clear => cases hnow
          | _ => exact hquiet (by rintro _ _ hwrite ⟨⟩; exact hwrite) (ih hnodup hnow)
      | _ => exact hquiet (by simp) (ih hnodup hnow)

end

/-- How a console has come to be given with a session, by the log. `before` is what had happened
when whoever asked for it looked at the session to send the request, `during` is what happened until
it looked again for the id. -/
structure Pairing (e : Endpoint) (uri : String) (s₀ : Session) (t : Nat) (console : AsciiConsole)
    (log : List Entry) (m : Message) (during before : List Entry) : Prop where
  looked : ∃ later, log = later ++ .touched t .session :: (during ++ .touched t .session :: before)
  /-- The request is the last message that was sent for the console. -/
  last : ∃ earlier, sentBy t log = m :: earlier
  /-- It was answered with the address. -/
  answered : ∃ since status headers body waiting ready, during =
      since ++ .delivered t m (.answered status headers body) :: (waiting ++ .sent t m :: ready) ∧
    Response.document WebsocketAddress.codec [200] ⟨status, body⟩ = .ok ⟨console.websocketUri⟩
  carries : m.IsOf (consoleRequest e uri) (sessionAfter s₀ before).token?
  gives : (sessionAfter s₀ (during ++ .touched t .session :: before)).token? =
    some console.sessionId

namespace Pairing

variable {e : Endpoint} {uri : String} {s₀ : Session} {t : Nat} {console : AsciiConsole}
  {log during before : List Entry} {m : Message}

theorem of_given (h : Given e uri ((history s₀ log).of t) console) :
    ∃ m during before, Pairing e uri s₀ t console log m during before := by
  obtain ⟨m, status, headers, body, s, s', earlier, hdeeds, hm, haddress, hs'⟩ := h
  have hsent : sentBy t log = m :: earlier.filterMap Deed.message? := by
    rw [← sentBy_history s₀, hdeeds]
    rfl
  obtain ⟨later, log₁, rfl, hlog₁, rfl⟩ := split_of_read [.left] hdeeds
  obtain ⟨since, log₂, rfl, hlog₂, -⟩ := split_of_deed [.entered .shared] hlog₁
  obtain ⟨waiting, log₃, rfl, hlog₃, -⟩ := split_of_deed [] hlog₂
  obtain ⟨ready, before, rfl, -, rfl⟩ := split_of_read [.left] hlog₃
  refine ⟨m, since ++ .delivered t m (.answered status headers body) ::
    (waiting ++ .sent t m :: ready), before, ⟨later, ?_⟩, ⟨_, hsent⟩,
    ⟨since, status, headers, body, waiting, ready, rfl, haddress⟩, hm, ?_⟩
  · simp [Deed.entry]
  · rw [← hs']
    simp [Deed.entry]

/-- The token of the request is the one that was given, if the session is the same at both looks. -/
theorem token_of_unwritten (h : Pairing e uri s₀ t console log m during before)
    (hduring : Unwritten during) : m.token = some console.sessionId := by
  rw [h.carries.token, ← h.gives, hduring.session]
  rfl

theorem unwritten_of_token (h : Pairing e uri s₀ t console log m during before)
    (hnodup : (heldTokens s₀ (during ++ .touched t .session :: before)).Nodup)
    (hm : m.token = some console.sessionId) : Unwritten during := by
  refine .of_same hnodup ?_ h.gives
  show (sessionAfter s₀ before).token? = some console.sessionId
  rw [← h.carries.token, hm]

end Pairing

section

variable {e : Endpoint} {shared : Shared} {uses : List (Use (Result AsciiConsole))}
  {w : World (Outcome ⊕ Result AsciiConsole)} {t : Nat} {uri : String} {console : AsciiConsole}

theorem World.Reaches.pairing (h : (World.ofUses e shared uses).Reaches w)
    (huse : uses[t]? = some (.talk (Partition.asciiConsole e uri).run))
    (hended : w.Ended t (.inr (.ok console))) :
    ∃ m during before, Pairing e uri shared.session t console w.log m during before := by
  have hgives : ∀ u use, uses[u]? = some use →
      Follows shared.options (use.rules e shared.options) (fun g outcome => u = t →
        ∀ console, outcome = .inr (.ok console) → Given e uri g.deeds console) .opening
        (use.operation e) := by
    intro u use hu
    by_cases hut : u = t
    · rw [hut, huse] at hu
      obtain rfl := Option.some.inj hu
      refine .map (.mono (fun g result hgiven _ console hconsole => ?_) .asciiConsole)
      exact hgiven console (Sum.inr.inj hconsole)
    · exact .mono (fun _ _ _ h => absurd h hut) (use.follows e)
  obtain ⟨held, hkept⟩ := h.uses_kept hgives
  obtain ⟨thread, ht, hlive, hresult⟩ := hended
  exact Pairing.of_given (hkept.ended ht hlive hresult rfl console rfl)

/-- Every console that is given has come about in this way. If the session is not written between
the two looks, it is given with the session of the very request that was answered with its address.
If it is written, it is not, provided that the console gives every session an id of its own. -/
theorem console_pairing {idna : Idna} {text : String} (he : Endpoint.parse idna text = .ok e)
    (h : (World.ofUses e shared uses).Reaches w)
    (huse : uses[t]? = some (.talk (Partition.asciiConsole e uri).run))
    (hended : w.Ended t (.inr (.ok console))) :
    ∃ m during before, Pairing e uri shared.session t console w.log m during before ∧
      (Unwritten during → m.token = some console.sessionId) ∧
      ((openedIds w.log ++ shared.session.token?.toList).Nodup →
        m.token = some console.sessionId → Unwritten during) := by
  obtain ⟨m, during, before, hpairing⟩ := h.pairing huse hended
  refine ⟨m, during, before, hpairing, hpairing.token_of_unwritten, fun hids hm => ?_⟩
  obtain ⟨held, hkept⟩ := h.uses_kept fun _ use _ => use.follows e
  obtain ⟨later, hlog⟩ := hpairing.looked
  have hsecond : w.log = (later ++ [.touched t .session]) ++
      (during ++ .touched t .session :: before) := by
    rw [hlog]
    simp
  exact hpairing.unwritten_of_token (hkept.nodup_heldTokens (Use.opening_each uses)
    (fun m hm => hm.isLogon he) hids hsecond) hm

end

/-! ## Two runs -/

/-- The console that a use has given. -/
def World.given? (w : World (Outcome ⊕ Result AsciiConsole)) (t : Nat) : Option AsciiConsole :=
  match w.threads[t]? with
  | some ⟨.done (.inr (.ok console)), _, _, false⟩ => some console
  | _ => none

theorem World.ended_of_given {w : World (Outcome ⊕ Result AsciiConsole)} {t : Nat}
    {console : AsciiConsole} (h : w.given? t = some console) :
    w.Ended t (.inr (.ok console)) := by
  unfold given? at h
  split at h
  · next hthread =>
      obtain rfl := Option.some.inj h
      exact ⟨_, hthread, rfl, rfl⟩
  · cases h

namespace Sample

def partition : String := "/api/partitions/1"

def giving : Use (Result AsciiConsole) := .talk (Partition.asciiConsole endpoint partition).run

/-- An answer that tells where a console listens. -/
def addressing : Delivery :=
  .answered 200 [] (Utf8.encode "\x7b\"websocket-uri\": \"/websock/1\"\x7d")

end Sample

/-- A console is given while a logon has not begun yet. -/
theorem console_pairing_calm : ∃ (w : World (Outcome ⊕ Result AsciiConsole)) (m : Message)
    (during before : List Entry),
    (World.ofUses Sample.endpoint (Sample.shared "old") [Sample.giving, .call .logon]).Reaches w ∧
    Pairing Sample.endpoint Sample.partition (Sample.shared "old").session 0
      ⟨"/websock/1", "old"⟩ w.log m during before ∧
    Unwritten during ∧ m.token = some "old" := by
  have hrun : ((World.ofUses Sample.endpoint (Sample.shared "old")
      [Sample.giving, .call .logon]).run (Sample.advances 0 14 ++ [.deliver 0 Sample.addressing] ++
        Sample.advances 0 9)).map (fun w => (w.given? 0, writers w.log)) =
      some (some ⟨"/websock/1", "old"⟩, []) := by decide +kernel
  obtain ⟨w, hw, hend⟩ := Option.map_eq_some_iff.1 hrun
  obtain ⟨hgiven, hwriters⟩ := Prod.mk.inj hend
  have hreaches := World.Reaches.of_run hw
  obtain ⟨m, during, before, hpairing, hpaired, -⟩ := console_pairing Sample.parse_endpoint hreaches
    (show _ = some Sample.giving from rfl) (World.ended_of_given hgiven)
  have hduring : Unwritten during := by
    intro t touch hwrite hmem
    obtain ⟨later, hlog⟩ := hpairing.looked
    have hwriter : t ∈ writers w.log := mem_writers hwrite (by rw [hlog]; simp [hmem])
    rw [hwriters] at hwriter
    cases hwriter
  exact ⟨w, m, during, before, hreaches, hpairing, hduring, hpaired hduring⟩

/-- While the answer with the address is on its way, somebody logs on. The console is given with the
new session, although its request was sent, once and for all, in the old one. -/
theorem console_mispaired : ∃ (w : World (Outcome ⊕ Result AsciiConsole)) (m : Message)
    (during before : List Entry),
    (World.ofUses Sample.endpoint (Sample.shared "old") [Sample.giving, .call .logon]).Reaches w ∧
    w.Ended 0 (.inr (.ok ⟨"/websock/1", "s1"⟩)) ∧
    Pairing Sample.endpoint Sample.partition (Sample.shared "old").session 0
      ⟨"/websock/1", "s1"⟩ w.log m during before ∧
    sentBy 0 w.log = [m] ∧ m.token = some "old" := by
  have hrun : ((World.ofUses Sample.endpoint (Sample.shared "old")
      [Sample.giving, .call .logon]).run (Sample.advances 0 14 ++ Sample.advances 1 12 ++
        [.deliver 0 Sample.addressing, .deliver 1 Sample.opening] ++ Sample.advances 1 11 ++
        Sample.advances 0 9)).map (fun w => (w.given? 0, (sentBy 0 w.log).map (·.token))) =
      some (some ⟨"/websock/1", "s1"⟩, [some "old"]) := by decide +kernel
  obtain ⟨w, hw, hend⟩ := Option.map_eq_some_iff.1 hrun
  obtain ⟨hgiven, hsent⟩ := Prod.mk.inj hend
  have hreaches := World.Reaches.of_run hw
  have hended := World.ended_of_given hgiven
  obtain ⟨m, during, before, hpairing⟩ :=
    hreaches.pairing (show _ = some Sample.giving from rfl) hended
  obtain ⟨earlier, hlast⟩ := hpairing.last
  rw [hlast, List.map_cons] at hsent
  obtain ⟨htoken, hnone⟩ := List.cons.inj hsent
  obtain rfl := List.map_eq_nil_iff.1 hnone
  exact ⟨w, m, during, before, hreaches, hended, hpairing, hlast, htoken⟩

end HmcClient.Client
