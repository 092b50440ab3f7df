import HmcClient.Proofs.Client.Calls

/-!
# Whose session the client holds

Any calls on one client run at the same time, in any order of their steps and with any answers, and
any of them are cancelled or dropped. The client then holds no session, or it holds what one single
answer gave it: an answer to a logon that the client made for itself, with an accepted status and a
session id. That answer is the last thing that the call had heard when it installed it.

Calls that only use the session, which are executing a request and asking whether the session is
accepted, moreover write over a session only if the console has rejected that very session in answer
to the same call. So a session that was opened meanwhile is not lost to a late rejection.
-/

namespace HmcClient.Client

variable {user : Options}

/-- Whether a call opens sessions for the client itself. -/
def Call.installs : Call → Bool
  | logon => true
  | execute r => !r.isLogon
  | _ => false

/-- Whether a call only uses the session. -/
def Call.uses : Call → Bool
  | isLoggedOn _ | execute _ => true
  | _ => false

def IsWrite : Touch → Prop
  | .install _ | .clear => True
  | _ => False

/-- Whether the last that a call did, by the log, is to hear that a logon that it made for the
client, as its user, has opened a session. -/
def HasOpened (e : Endpoint) (user : Options) (calls : List Call) (log : List Entry) (t : Nat)
    (data : LogonData) : Prop :=
  ∃ call m status headers body between before,
    calls[t]? = some call ∧ call.installs = true ∧ m.IsLogonOf e user none ∧
    log = between ++ .delivered t m (.answered status headers body) :: before ∧
    .gaveUp t ∉ between ∧ (∀ m', .sent t m' ∉ between) ∧
    Response.accepts [200, 201] status = true ∧ data.sessionId ≠ "" ∧
    Logon.opened ⟨status, body⟩ = .ok data

theorem HasOpened.sessionId_ne {e : Endpoint} {calls : List Call} {log : List Entry} {t : Nat}
    {data : LogonData} (h : HasOpened e user calls log t data) : data.sessionId ≠ "" := by
  obtain ⟨call, m, status, headers, body, between, before, -, -, -, -, -, -, -, hid, -⟩ := h
  exact hid

/-! ## Installing -/

theorem Call.opened_of_rules {e : Endpoint} {call : Call} {deeds : List Deed} {data : LogonData}
    (h : call.rules e user deeds (.installed data)) :
    call.installs = true ∧ Rules.OpenedBy e user deeds data := by
  cases call with
  | logon => exact ⟨rfl, h⟩
  | execute r =>
      rw [rules] at h
      split at h
      · exact h.elim
      · next hr =>
          obtain ⟨m, status, headers, body, s, earlier, hdeeds, hm, hdata, -⟩ := h
          exact ⟨by simp [installs, hr], m, status, headers, body, _, hdeeds, hm, hdata⟩
  | _ => exact h.elim

/-- Where the log tells that a session was installed, the call that did it has just opened it. -/
theorem World.Kept.hasOpened {e : Endpoint} {calls : List Call} {s₀ : Session} {A : Answers}
    {Q : Nat → Account → Outcome → Prop} {w : World Outcome} {held : Holdings}
    (h : w.Kept user (rulesOf e user calls) Q s₀ A held) {later earlier : List Entry} {t : Nat}
    {data : LogonData} (hlog : w.log = later ++ .touched t (.install data) :: earlier) :
    HasOpened e user calls earlier t data := by
  have hlawful := h.lawful
  obtain ⟨H, hH⟩ := @history_append s₀ (.touched t (.install data) :: earlier) later
  rw [hlog, hH, history_cons_some rfl] at hlawful
  obtain ⟨call, hcall, hmay⟩ := rulesOf_iff.1 ((hlawful.of_append H).may trivial)
  obtain ⟨hinstalls, m, status, headers, body, rest, hdeeds, hm, hdata⟩ := Call.opened_of_rules hmay
  obtain ⟨between, before, hbefore, hbetween⟩ := split_of_heard hdeeds
  obtain ⟨haccepts, hid⟩ := Logon.of_opened_eq_ok hdata
  exact ⟨call, m, status, headers, body, between, before, hcall, hinstalls, hm, hbefore,
    fun hmem => hbetween _ hmem .gaveUp fun _ => rfl,
    fun m' hmem => hbetween _ hmem (.sent m') fun _ => rfl, haccepts, hid, hdata⟩

/-- The client holds no session, or exactly what one answer to a logon of its own has given it. And
whatever was ever installed was given so. -/
theorem session_integrity {e : Endpoint} {shared : Shared} {calls : List Call} {w : World Outcome}
    (hshared : shared.session = .none) (h : (World.ofCalls e shared calls).Reaches w) :
    (w.shared.session = .none ∨ ∃ later t data earlier,
      w.log = later ++ .touched t (.install data) :: earlier ∧
      HasOpened e shared.options calls earlier t data ∧
      w.shared.session = ⟨data.sessionId, ⟨data.notifTopic, data.jobNotifTopic⟩⟩) ∧
    ∀ later t data earlier, w.log = later ++ .touched t (.install data) :: earlier →
      HasOpened e shared.options calls earlier t data := by
  obtain ⟨held, hkept⟩ := h.calls_kept
  refine ⟨?_, fun later t data earlier hlog => hkept.hasOpened hlog⟩
  rw [hkept.session]
  rcases History.session_cases shared.session (history shared.session w.log) with
    ⟨hfirst, -⟩ | ⟨hnone, -⟩ | ⟨t, data, hmem, hdata⟩
  · exact .inl (hfirst.trans hshared)
  · exact .inl hnone
  · obtain ⟨entry, hentry, s, hs⟩ := entry_of_mem_history hmem
    obtain rfl := Entry.eq_of_installed hs
    obtain ⟨later, earlier, hlog⟩ := List.append_of_mem hentry
    exact .inr ⟨later, t, data, earlier, hlog, hkept.hasOpened hlog, hdata⟩

/-- A client that logs on holds the session that the answer has opened. -/
theorem session_integrity_logon : ∃ w : World Outcome,
    (World.ofCalls Sample.endpoint (Sample.shared "") [.logon]).Reaches w ∧
    w.shared.session = ⟨"s1", ⟨"n1", ""⟩⟩ ∧ ∃ t data later earlier,
      w.log = later ++ .touched t (.install data) :: earlier ∧
      HasOpened Sample.endpoint Sample.options [.logon] earlier t data ∧ data.sessionId = "s1" := by
  have hrun : ((World.ofCalls Sample.endpoint (Sample.shared "") [.logon]).run
      (Sample.advances 0 12 ++ [.deliver 0 Sample.opening] ++ Sample.advances 0 11)).map
        (·.shared.session) = some ⟨"s1", ⟨"n1", ""⟩⟩ := by decide +kernel
  obtain ⟨w, hw, hsession⟩ := Option.map_eq_some_iff.1 hrun
  have hreaches := World.Reaches.of_run hw
  rcases (session_integrity rfl hreaches).1 with
    hnone | ⟨later, t, data, earlier, hlog, hopened, hdata⟩
  · exact nomatch hnone.symm.trans hsession
  · rw [hsession] at hdata
    exact ⟨w, hreaches, hsession, t, data, later, earlier, hlog, hopened,
      (Session.mk.inj hdata).1.symm⟩

/-! ## Writing over a session -/

/-- The session changes only when it is written. -/
theorem World.next_session {α : Type} {w w' : World α} {event : Event}
    (h : w.next event = some w') :
    w'.shared.session = w.shared.session ∨
      ∃ t touch, IsWrite touch ∧ w'.log = .touched t touch :: w.log := by
  cases happens_of_next h with
  | @touch t thread touch =>
      cases touch with
      | install data => exact .inr ⟨t, .install data, trivial, rfl⟩
      | clear => exact .inr ⟨t, .clear, trivial, rfl⟩
      | _ => exact .inl rfl
  | _ => exact .inl rfl

/-- A call that only uses the session writes over what it has seen and may write over. -/
theorem Call.yields_of_rules {e : Endpoint} {call : Call} (huses : call.uses = true)
    {deeds : List Deed} {touch : Touch} (hwrite : IsWrite touch) {answer : touch.Answer} {d : Deed}
    (hd : deedOf touch answer = some d) (h : call.rules e user deeds d) :
    ∃ s, Deed.seen deeds = some s ∧ Yields deeds s := by
  cases call with
  | isLoggedOn refresh =>
      cases touch with
      | install data => obtain rfl := Option.some.inj hd; exact h.elim
      | clear =>
          obtain rfl := Option.some.inj hd
          obtain ⟨s, earlier, rfl, hyields⟩ := h
          exact ⟨s, rfl, hyields.mono (List.subset_append_right [_, _] earlier)⟩
      | _ => exact hwrite.elim
  | execute r =>
      rw [rules] at h
      cases touch with
      | install data =>
          obtain rfl := Option.some.inj hd
          split at h
          · exact h.elim
          · obtain ⟨m, status, headers, body, s, earlier, rfl, -, -, hyields⟩ := h
            exact ⟨s, rfl, hyields.mono (List.subset_append_right [_, _, _, _] earlier)⟩
      | clear =>
          obtain rfl := Option.some.inj hd
          split at h
          · exact h.elim
          · obtain ⟨m, d, failure, s, earlier, rfl, -, -, hyields⟩ := h
            exact ⟨s, rfl, hyields.mono (List.subset_append_right [_, _, _, _] earlier)⟩
      | _ => exact hwrite.elim
  | _ => cases huses

/-- Where a session is held, a call that only uses it writes over it only if the console has
answered that call that this session is not valid. -/
theorem written_after_rejection {e : Endpoint} {shared : Shared} {calls : List Call}
    {w w' : World Outcome} {event : Event} {token : String}
    (h : (World.ofCalls e shared calls).Reaches w) (hnext : w.next event = some w')
    (htoken : w.shared.session.token? = some token) :
    (w'.shared.session ≠ w.shared.session →
      ∃ t touch, IsWrite touch ∧ w'.log = .touched t touch :: w.log) ∧
    ∀ t touch call, IsWrite touch → w'.log = .touched t touch :: w.log →
      calls[t]? = some call → call.uses = true →
      ∃ m status headers body, .delivered t m (.answered status headers body) ∈ w.log ∧
        m.token = some token ∧ Response.rejectsSession ⟨status, body⟩ = true := by
  refine ⟨fun hchange => (World.next_session hnext).resolve_left hchange, ?_⟩
  intro t touch call hwrite hlog hcall huses
  obtain ⟨held, hkept⟩ := h.calls_kept
  obtain ⟨held', hkept'⟩ := (h.snoc hnext).calls_kept
  obtain ⟨d, hd⟩ : ∃ d, deedOf touch (touch.apply w.shared).1 = some d := by
    cases touch with
    | install data => exact ⟨_, rfl⟩
    | clear => exact ⟨_, rfl⟩
    | _ => exact hwrite.elim
  have hlawful := hkept'.lawful
  have hentry := Entry.deed?_touched w.shared t touch
  rw [hd, hkept.session] at hentry
  rw [hlog, history_cons_some hentry] at hlawful
  obtain ⟨call', hcall', hrule⟩ := rulesOf_iff.1 (hlawful.may (Touch.isOwn_of_deed hd))
  rw [hcall] at hcall'
  cases hcall'
  obtain ⟨s, hseen, hyields⟩ := Call.yields_of_rules huses hwrite hd hrule
  -- What the call has seen is what is held, so it is told by what it has seen.
  obtain rfl : w.shared.session = s := by
    rw [hkept.session, (hkept.lawful.session_of_seen hseen).1]
  obtain ⟨m, answer, hheard, hm, hrejects⟩ :=
    hyields (Session.isAuthenticated_of_token? htoken)
  cases answer with
  | answered status headers body =>
      exact ⟨m, status, headers, body, delivered_of_heard hheard, hm.trans htoken, hrejects⟩
  | _ => cases hrejects

/-- A client that asks whether its session is accepted, and is told that it is not, gives it up. -/
theorem written_after_rejection_asking : ∃ w w' : World Outcome,
    (World.ofCalls Sample.endpoint (Sample.shared "old") [.isLoggedOn true]).Reaches w ∧
    w.next (.advance 0) = some w' ∧ w.shared.session.token? = some "old" ∧
    w'.shared.session = .none ∧ ∃ m status headers body,
      .delivered 0 m (.answered status headers body) ∈ w.log ∧ m.token = some "old" ∧
      Response.rejectsSession ⟨status, body⟩ = true := by
  have hrun : ((World.ofCalls Sample.endpoint (Sample.shared "old") [.isLoggedOn true]).run
      (Sample.advances 0 10 ++ [.deliver 0 Sample.rejecting] ++ Sample.advances 0 8)).bind
        (fun w => (w.next (.advance 0)).map fun w' => (w.shared.session.token?, w'.shared.session,
          (w'.log.head?.bind (Entry.deed? .none)).map Prod.fst)) =
      some (some "old", .none, some 0) := by decide +kernel
  obtain ⟨w, hw, hnext⟩ := Option.bind_eq_some_iff.1 hrun
  obtain ⟨w', hw', hsessions⟩ := Option.map_eq_some_iff.1 hnext
  obtain ⟨htoken, hsession, hfirst⟩ : w.shared.session.token? = some "old" ∧
      w'.shared.session = .none ∧ _ = some 0 := by simpa only [Prod.mk.injEq] using hsessions
  have hreaches := World.Reaches.of_run hw
  obtain ⟨hchange, hwrite⟩ := written_after_rejection hreaches hw' htoken
  obtain ⟨t, touch, htouch, hlog⟩ := hchange fun hsame => by
    rw [← hsame, hsession] at htoken
    cases htoken
  obtain rfl : t = 0 := by
    rw [hlog] at hfirst
    cases touch with
    | install data => exact Option.some.inj hfirst
    | clear => exact Option.some.inj hfirst
    | _ => exact htouch.elim
  exact ⟨w, w', hreaches, hw', htoken, hsession, hwrite 0 touch _ htouch hlog rfl rfl⟩

end HmcClient.Client
