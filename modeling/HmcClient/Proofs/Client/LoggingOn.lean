import HmcClient.Proofs.Client.Calls

/-!
# When an executed request logs on

An executed request comes to the lock of the session to have it alone for one of two reasons: it has
looked and found no session, or it has just heard the answer to its own request. It decides inside
the lock. It leaves with a session that it has found or opened, or with none because its logon has
failed. After a logon that has failed it sends nothing more, and that failure is its own.

These are rules of one operation. They say less than those of `Rules.execute` about what is sent and
written, and more about how an operation comes to a logon and what it does after one.
-/

namespace HmcClient.Client

variable {user : Options}

/-- Whether every logon that was heard of has opened a session. -/
def Hopeful (deeds : List Deed) : Prop :=
  ∀ m d, .heard m d ∈ deeds → m.request.isLogon = true → ∃ data, d.opened = .ok data

/-- Whether an operation has reason to ask for the session alone: it has looked once and found none,
or it has just heard of its request. -/
def Wanting (deeds : List Deed) : Prop :=
  (∃ s : Session, deeds = [.left, .read s, .entered .shared] ∧ s.isAuthenticated = false) ∨
    ∃ m d earlier, deeds = .heard m d :: .sent m :: earlier

/-- Whether an operation inside the lock of the session has done what it came for. -/
def Decided : List Deed → Prop
  | .read _ :: .entered .shared :: _ => True
  | .read s :: .entered .exclusive :: _ => s.isAuthenticated = true
  | .heard _ _ :: .sent _ :: .read s :: .entered .exclusive :: _ => s.isAuthenticated = false
  | .installed _ :: _ | .cleared :: _ => True
  | _ => False

/-- The rules of an executed request on logons. -/
def Rules.orderly : Rules := fun deeds d =>
  match d with
  | .sent m => Hopeful deeds ∧ (m.request.isLogon = true →
    ∃ s earlier, deeds = .read s :: .entered .exclusive :: earlier ∧ Wanting earlier)
  | .left => Decided deeds ∨ .gaveUp ∈ deeds
  | _ => True

theorem Rules.orderly_open : Rules.orderly.Open where
  entered _ _ := trivial
  read _ _ := trivial
  looked _ _ := .inl trivial
  stopped _ h := .inr h

/-- How a request ends of which a logon has failed: with that failure, unless it was cancelled. -/
def Settled (deeds : List Deed) (result : Result Response) : Prop :=
  ∀ m d failure, .heard m d ∈ deeds → m.request.isLogon = true → d.opened = .error failure →
    .gaveUp ∈ deeds ∨ result = .error failure

theorem Hopeful.settled {deeds : List Deed} {result : Result Response} (h : Hopeful deeds) :
    Settled deeds result := by
  intro m d failure hheard hlogon hfailed
  obtain ⟨data, hopened⟩ := h m d hheard hlogon
  rw [hopened] at hfailed
  cases hfailed

/-- Where the one logon that has failed is the last of which was heard. -/
theorem Hopeful.settled_of_failed {deeds : List Deed} (h : Hopeful deeds) {m : Message}
    {d : Delivery} {failure : Failure} (hfailed : d.opened = .error failure) (later : List Deed)
    (hlater : ∀ m d, .heard m d ∉ later) :
    Settled (later ++ .heard m d :: deeds) (.error failure) := by
  intro m' d' failure' hheard hlogon hfailed'
  rcases List.mem_append.1 hheard with hmem | hmem
  · exact absurd hmem (hlater m' d')
  rcases List.mem_cons.1 hmem with heq | hmem
  · cases heq
    rw [hfailed] at hfailed'
    cases hfailed'
    exact .inr rfl
  · obtain ⟨data, hopened⟩ := h m' d' hmem hlogon
    rw [hopened] at hfailed'
    cases hfailed'

namespace Follows

variable {e : Endpoint} {r : Request} {deeds : List Deed}

/-- How a stage ends after which an executed request goes on. -/
abbrev Goes (P : List Deed → Prop) (Q : Account → Result Response → Prop) :
    Account → Result Unit → Prop :=
  Ending (fun deeds _ => P deeds) Q

/-- A logon inside the lock of the session, after which the operation has only to leave. -/
theorem leaving_of_logon (hdeeds : Hopeful deeds) (m : Message) (d : Delivery)
    (after : List Deed) (hafter : ∀ m d, .heard m d ∉ after)
    (hdecided : Decided (after ++ .heard m d :: .sent m :: deeds)) :
    Leaving .orderly (Goes Hopeful fun g => Settled g.deeds)
      (within (after ++ .heard m d :: .sent m :: deeds)) (d.opened.map fun _ => ()) := by
  refine ⟨_, rfl, .inl hdecided, ?_⟩
  cases hopened : d.opened with
  | ok data =>
      refine ⟨rfl, fun m' d' hheard hlogon => ?_⟩
      rcases List.mem_append.1 (List.mem_of_ne_of_mem (by simp) hheard) with hmem | hmem
      · exact absurd hmem (hafter m' d')
      rcases List.mem_cons.1 hmem with heq | hmem
      · cases heq
        exact ⟨data, hopened⟩
      · exact hdeeds m' d' (List.mem_of_ne_of_mem (by simp) hmem) hlogon
  | error failure =>
      have hsent : Hopeful (.sent m :: deeds) := by simpa [Hopeful] using hdeeds
      exact hsent.settled_of_failed hopened (.left :: after) (by simpa using hafter)

theorem ensureLoggedOn_orderly :
    Follows user .orderly (Goes Hopeful fun g => Settled g.deeds) ⟨[], []⟩
      (Client.ensureLoggedOn e).run := by
  refine ensureLoggedOn Rules.orderly_open ?_ ?_ ?_
  · intro s hs
    exact ⟨rfl, by simp [Hopeful]⟩
  · intro s s' hs hs'
    exact ⟨_, rfl, .inl hs', rfl, by simp [Hopeful]⟩
  · intro s s' hs hs'
    have hdeeds : Hopeful [.read s', .entered .exclusive, .left, .read s, .entered .shared] := by
      simp [Hopeful]
    refine installLogon (fun m hm => ?_) fun m d hm hd => ?_
    · exact ⟨hdeeds, fun _ => ⟨s', _, rfl, .inl ⟨s, rfl, hs⟩⟩⟩
    · cases hopened : d.opened with
      | ok data =>
          have hleaving := leaving_of_logon hdeeds m d [.installed data] (by simp) trivial
          rw [hopened] at hleaving
          exact ⟨trivial, hleaving⟩
      | error failure =>
          have hleaving := leaving_of_logon hdeeds m d [] (by simp) hs'
          rw [hopened] at hleaving
          exact hleaving

/-- A request other than a logon is sent, first or again. -/
theorem attempt_orderly (hr : r.isLogon = false) (h : Hopeful deeds) :
    Follows user .orderly (Ending (fun deeds _ => Hopeful deeds ∧
      ∃ m d earlier, deeds = .heard m d :: .sent m :: earlier) fun g => Settled g.deeds)
      ⟨[], deeds⟩ (Client.attempt r).run := by
  have hlooked : ∀ s, Hopeful (.left :: .read s :: .entered .shared :: deeds) := by
    intro s
    simpa [Hopeful] using h
  refine attempt Rules.orderly_open ?_ ?_ ?_ ?_
  · intro s failure hbad
    exact (hlooked s).settled
  · intro s m hm
    refine ⟨hlooked s, fun hlogon => ?_⟩
    rw [hm.request, hr] at hlogon
    cases hlogon
  · intro s m d hm hd
    have hheard : Hopeful (.heard m d :: .sent m :: .left :: .read s :: .entered .shared ::
        deeds) := by
      intro m' d' hmem hlogon
      rcases List.mem_cons.1 hmem with heq | hmem
      · cases heq
        rw [hm.request, hr] at hlogon
        cases hlogon
      · exact hlooked s m' d' (List.mem_of_ne_of_mem (by simp) hmem) hlogon
    cases d.outcome r with
    | ok response => exact ⟨rfl, hheard, m, d, _, rfl⟩
    | error failure => exact hheard.settled
  · intro deeds hstop m d failure _ _ _
    exact .inl hstop

theorem relogon_orderly {stale : Option String} (h : Hopeful deeds)
    (hheard : ∃ m d earlier, deeds = .heard m d :: .sent m :: earlier) :
    Follows user .orderly (Goes Hopeful fun g => Settled g.deeds) ⟨[], deeds⟩
      (Client.relogon e stale).run := by
  have hlooked : ∀ s, Hopeful (.read s :: .entered .exclusive :: deeds) := by
    intro s
    simpa [Hopeful] using h
  refine relogon Rules.orderly_open ?_ ?_ ?_
  · intro s hauth hother
    refine ⟨_, rfl, .inl hauth, rfl, ?_⟩
    simpa [Hopeful] using h
  · intro s hstale m hm
    exact ⟨hlooked s, fun _ => ⟨s, _, rfl, .inr hheard⟩⟩
  · intro s hstale m d hm hd
    cases hopened : d.opened with
    | ok data =>
        have hleaving := leaving_of_logon (hlooked s) m d [.installed data] (by simp) trivial
        rw [hopened] at hleaving
        exact ⟨trivial, hleaving⟩
    | error failure =>
        have hleaving := leaving_of_logon (hlooked s) m d [.cleared] (by simp) trivial
        rw [hopened] at hleaving
        exact ⟨trivial, hleaving⟩

theorem execute_orderly (hr : r.isLogon = false) :
    Follows user .orderly (fun g => Settled g.deeds) .opening (Client.execute e r).run := by
  have hrelogon : ∀ deeds (stale : Option String),
      (Hopeful deeds ∧ ∃ m d earlier, deeds = .heard m d :: .sent m :: earlier) →
      Follows user .orderly (Goes Hopeful fun g => Settled g.deeds) ⟨[], deeds⟩
        (Client.relogon e stale).run :=
    fun deeds stale h => relogon_orderly h.1 h.2
  refine execute Rules.orderly_open hr ensureLoggedOn_orderly (fun deeds h => ?_) hrelogon
    (fun deeds h => ?_) ?_
  · refine mono ?_ (attempt_orderly hr h)
    rintro ⟨held, deeds⟩ (failure | ⟨token, response⟩) hg
    · exact hg
    · obtain ⟨hheld, hhopeful, hheard⟩ := hg
      refine ⟨hheld, ?_⟩
      dsimp only
      split
      · exact hhopeful.settled
      · split
        · exact ⟨hhopeful, hheard⟩
        · exact hhopeful.settled
  · refine mono ?_ (attempt_orderly hr h)
    rintro ⟨held, deeds⟩ (failure | ⟨token, response⟩) hg
    · exact hg
    · exact ⟨hg.1, hg.2.1.settled⟩
  · intro deeds hstop m d failure _ _ _
    exact .inl hstop

end Follows

/-- The rules of a call, with those on logons. -/
def Call.watched (e : Endpoint) (user : Options) : Call → Rules
  | execute r => if r.isLogon then .passing r else (Rules.execute e user r).both .orderly
  | call => call.rules e user

/-- How a call is left of which a logon may have failed. -/
def Call.Settles (call : Call) (g : Account) (outcome : Outcome) : Prop :=
  g.held = [] ∧ ∀ r, call = .execute r → r.isLogon = false →
    ∃ result, outcome = .answered result ∧ Settled g.deeds result

theorem Call.sending_of_watched {e : Endpoint} {call : Call} {deeds : List Deed} {d : Deed}
    (h : call.watched e user deeds d) : call.sending e user deeds d := by
  cases call with
  | execute r =>
      rw [watched] at h
      rw [sending]
      split at h
      · next hr => rwa [if_pos hr]
      · next hr =>
          rw [if_neg hr]
          exact h.1
  | _ => exact h

theorem Call.follows_watched (e : Endpoint) (call : Call) :
    Follows user (call.watched e user) call.Settles .opening (call.operation e) := by
  have hother : (∀ r, call = .execute r → r.isLogon = true) →
      Follows user (call.sending e user) call.Settles .opening (call.operation e) := by
    intro hcall
    refine .mono (fun g outcome hheld => ⟨hheld, fun r hr hplain => ?_⟩) (call.follows_sending e)
    rw [hcall r hr] at hplain
    cases hplain
  cases call with
  | execute r =>
      rw [watched]
      split
      · next hr =>
          have hpassing := hother fun r' h => by cases h; exact hr
          rw [sending, if_pos hr] at hpassing
          exact hpassing
      · next hr =>
          have hplain := Bool.eq_false_iff.2 hr
          refine .map (.mono (fun g result hend => ⟨hend.1.1, fun r' h _ => ?_⟩)
            ((Follows.execute_rules hplain).both (Follows.execute_orderly hplain)))
          exact ⟨result, rfl, hend.2⟩
  | _ => exact hother (by simp)

end HmcClient.Client
