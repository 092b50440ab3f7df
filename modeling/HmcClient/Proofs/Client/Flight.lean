import HmcClient.Proofs.Client.Calls
import HmcClient.Proofs.Exchange.Header

/-!
# Requests that find their session gone

Any number of requests are executed at once on a client whose session, if it holds one, the console
no longer knows. The console opens a new session for every logon and accepts every session that it
has opened. This module says what the histories of such runs look like.

Two facts carry everything. A session that was opened since the start is never rejected, so whoever
has seen it leaves it alone. And a logon is sent only by an operation that is alone inside the lock
of the session and has seen there what may be replaced, which after the first installation is never
the case again. So of all operations that have sent a logon at most one is still on its way or has
installed it, and the others have been cancelled or dropped.
-/

namespace HmcClient.Client

variable {user : Options}

/-- Whether a session with an id has been opened. -/
def Issued (H : History) (id : String) : Prop :=
  ∃ t m d data, (t, .heard m d) ∈ H ∧ m.request.isLogon = true ∧ d.opened = .ok data ∧
    data.sessionId = id

theorem Issued.mono {H H' : History} {id : String} (h : Issued H id) (hsub : H ⊆ H') :
    Issued H' id := by
  obtain ⟨t, m, d, data, hmem, hrest⟩ := h
  exact ⟨t, m, d, data, hsub hmem, hrest⟩

/-- Requests that are executed at once, and a console that opens a new session for every logon,
accepts the sessions that it has opened, and rejects the one that is held at first. -/
structure Flight (e : Endpoint) (user : Options) (requests : List Request) (s₀ : Session)
    (A : Answers) : Prop where
  logons : ∀ m : Message, m.IsLogonOf e user none → m.request.isLogon = true
  plain : ∀ r ∈ requests, r.isLogon = false
  opens : ∀ H m d, A H m d → m.request.isLogon = true → ∃ data, d.opened = .ok data ∧
    s₀.token? ≠ some data.sessionId ∧ Sendable data.sessionId
  accepts : ∀ H m d id, A H m d → m.request.isLogon = false → m.token = some id → Issued H id →
    ∃ status headers body, d = .answered status headers body ∧ isExpectedStatus status = true
  rejects : ∀ H m d, A H m d → m.request.isLogon = false → s₀.isAuthenticated = true →
    m.token = s₀.token? → d.rejects = true

namespace Flight

variable {e : Endpoint} {requests : List Request} {s₀ : Session} {A : Answers} {H : History}
  {t : Nat} {m : Message} {d : Delivery} {data : LogonData}

theorem rules (hf : Flight e user requests s₀ A) {deeds : List Deed} {d : Deed}
    (h : rulesOf e user (requests.map .execute) t deeds d) :
    ∃ r, requests[t]? = some r ∧ r.isLogon = false ∧ Rules.execute e user r deeds d := by
  obtain ⟨call, hcall, hrule⟩ := rulesOf_iff.1 h
  rw [List.getElem?_map, Option.map_eq_some_iff] at hcall
  obtain ⟨r, hr, rfl⟩ := hcall
  have hplain := hf.plain r (List.mem_of_getElem? hr)
  rw [Call.rules, hplain] at hrule
  exact ⟨r, hr, hplain, hrule⟩

/-! ## What was sent and heard -/

theorem of_logon (hf : Flight e user requests s₀ A)
    (h : Lawful (rulesOf e user (requests.map .execute)) s₀ A ((t, .sent m) :: H))
    (hm : m.request.isLogon = true) :
    m.IsLogonOf e user none ∧ .gaveUp ∉ H.of t ∧ ∃ s before,
      H.of t = .read s :: .entered .exclusive :: before ∧ Yields before s := by
  obtain ⟨r, -, hplain, hgoes, hlogon | ⟨s, before, -, hown, -⟩⟩ := hf.rules (h.may trivial)
  · exact ⟨hlogon.1, hgoes, hlogon.2⟩
  · rw [hown.request, hplain] at hm
    cases hm

/-- How a request itself came to be sent: within the session that was held when the operation read
it last. -/
theorem of_plain (hf : Flight e user requests s₀ A)
    (h : Lawful (rulesOf e user (requests.map .execute)) s₀ A ((t, .sent m) :: H))
    (hm : m.request.isLogon = false) :
    ∃ r s before after H', requests[t]? = some r ∧ m.IsOf r s.token? ∧
      H.of t = .left :: .read s :: .entered .shared :: before ∧ Finds before none ∧
      (OnlyLogons e user before ∨ Renewed e user r before) ∧ H = after ++ H' ∧ s = H'.session s₀ ∧
      H'.of t = .entered .shared :: before ∧
      Lawful (rulesOf e user (requests.map .execute)) s₀ A H' := by
  obtain ⟨r, hr, hplain, hgoes, hlogon | ⟨s, before, hdeeds, hown, hfinds, hstage⟩⟩ :=
    hf.rules (h.may trivial)
  · rw [hf.logons m hlogon.1] at hm
    cases hm
  · obtain ⟨after, H', rfl, hbefore⟩ := History.split_of [.left] hdeeds
    have hread := h.before.of_append after
    exact ⟨r, s, before, after ++ [(t, .read s)], H', hr, hown, hdeeds, hfinds, hstage, by simp,
      hread.fits.2, hbefore, hread.before⟩

theorem of_heard (h : Lawful (rulesOf e user (requests.map .execute)) s₀ A H)
    (hmem : (t, .heard m d) ∈ H) :
    ∃ after H' between H'', H = after ++ H' ∧ A H' m d ∧ H' = between ++ (t, .sent m) :: H'' ∧
      Lawful (rulesOf e user (requests.map .execute)) s₀ A ((t, .sent m) :: H'') := by
  obtain ⟨after, H', rfl⟩ := List.append_of_mem hmem
  obtain ⟨⟨earlier, hdeeds⟩, -, hanswer⟩ := (h.of_append after).fits
  obtain ⟨between, H'', rfl, -⟩ := History.split_of [] hdeeds
  refine ⟨after ++ [(t, .heard m d)], _, between, H'', by simp, hanswer, rfl, ?_⟩
  exact (h.of_append after).before.of_append between

/-! ## Sessions that were opened -/

/-- A session that was opened is not the one held at first, and its id can be sent. -/
theorem of_issued (hf : Flight e user requests s₀ A)
    (h : Lawful (rulesOf e user (requests.map .execute)) s₀ A H) {id : String} (hid : Issued H id) :
    s₀.token? ≠ some id ∧ Sendable id ∧ id ≠ "" := by
  obtain ⟨t, m, d, data, hmem, hm, hdata, rfl⟩ := hid
  obtain ⟨-, H', -, -, -, hanswer, -⟩ := of_heard h hmem
  obtain ⟨data', hdata', hfresh, hsend⟩ := hf.opens H' m d hanswer hm
  rw [hdata] at hdata'
  cases hdata'
  obtain ⟨status, headers, body, rfl, hopened⟩ := Delivery.opened_eq_ok hdata
  exact ⟨hfresh, hsend, (Logon.of_opened_eq_ok hopened).2⟩

theorem issued_of_installed (hf : Flight e user requests s₀ A)
    (h : Lawful (rulesOf e user (requests.map .execute)) s₀ A H) (hmem : (t, .installed data) ∈ H) :
    Issued H data.sessionId := by
  obtain ⟨after, H', rfl⟩ := List.append_of_mem hmem
  obtain ⟨r, -, -, m, status, headers, body, s, before, hdeeds, hm, hdata, -⟩ :=
    hf.rules ((h.of_append after).may trivial)
  refine ⟨t, m, .answered status headers body, data, ?_, hf.logons m hm, hdata, rfl⟩
  have : (t, .heard m (.answered status headers body)) ∈ H' :=
    History.mem_of.1 (by rw [hdeeds]; exact List.mem_cons_self)
  simp [this]

/-- The session is never cleared, since no logon fails. -/
theorem not_cleared (hf : Flight e user requests s₀ A)
    (h : Lawful (rulesOf e user (requests.map .execute)) s₀ A H) : (t, .cleared) ∉ H := by
  intro hmem
  obtain ⟨after, H', rfl⟩ := List.append_of_mem hmem
  obtain ⟨r, -, -, m, d, failure, s, before, hdeeds, hm, hfailure, -⟩ :=
    hf.rules ((h.of_append after).may trivial)
  have hheard : (t, .heard m d) ∈ H' := History.mem_of.1 (by rw [hdeeds]; exact List.mem_cons_self)
  obtain ⟨-, H'', -, -, -, hanswer, -⟩ := of_heard (h.of_append after).before hheard
  obtain ⟨data, hdata, -⟩ := hf.opens H'' m d hanswer (hf.logons m hm)
  rw [hfailure] at hdata
  cases hdata

/-- The session is the one held at first until one is installed, and then it is one that was
opened. -/
theorem session_cases (hf : Flight e user requests s₀ A)
    (h : Lawful (rulesOf e user (requests.map .execute)) s₀ A H) :
    (H.session s₀ = s₀ ∧ ∀ t data, (t, .installed data) ∉ H) ∨
      ∃ t data, (t, .installed data) ∈ H ∧ Issued H data.sessionId ∧
        (H.session s₀).token? = some data.sessionId := by
  rcases History.session_cases s₀ H with hfirst | ⟨-, t, ht⟩ | ⟨t, data, hmem, hdata⟩
  · exact .inl hfirst
  · exact absurd ht (hf.not_cleared h)
  · have hissued := hf.issued_of_installed h hmem
    refine .inr ⟨t, data, hmem, hissued, ?_⟩
    rw [hdata]
    exact Session.token?_ofLogon (hf.of_issued h hissued).2.2

/-- Until a session is installed, whoever has found one has found the one held at first. -/
theorem of_finds (hf : Flight e user requests s₀ A)
    (h : Lawful (rulesOf e user (requests.map .execute)) s₀ A H)
    (hnone : ∀ t data, (t, .installed data) ∉ H) {deeds : List Deed} (hdeeds : deeds ⊆ H.of t)
    {token : Option String} (hfinds : Finds deeds token) :
    s₀.isAuthenticated = true ∧ s₀.token? ≠ token := by
  rcases hfinds with ⟨s, hread, hauth, htoken⟩ | ⟨data, hdata⟩
  · obtain ⟨after, H', rfl⟩ := List.append_of_mem (History.mem_of.1 (hdeeds hread))
    have hs := (h.of_append after).fits.2
    rcases hf.session_cases (h.of_append after).before with
      ⟨hfirst, -⟩ | ⟨u, data, hmem, -⟩
    · rw [hfirst] at hs
      exact ⟨hs ▸ hauth, hs ▸ htoken⟩
    · exact absurd (by simp [hmem]) (hnone u data)
  · exact absurd (History.mem_of.1 (hdeeds hdata)) (hnone _ _)

/-- What a request was answered tells which session it was sent in: if it was rejected, it was the
one held at first; otherwise it was one that was opened, and the answer is a regular one. -/
theorem of_answer (hf : Flight e user requests s₀ A)
    (h : Lawful (rulesOf e user (requests.map .execute)) s₀ A H) (hmem : (t, .heard m d) ∈ H)
    (hm : m.request.isLogon = false) :
    (d.rejects = true ∧ s₀.isAuthenticated = true ∧ m.token = s₀.token?) ∨
      (d.rejects = false ∧ (∃ u data, (u, .installed data) ∈ H ∧ m.token = some data.sessionId) ∧
        ∃ status headers body, d = .answered status headers body ∧
          isExpectedStatus status = true) := by
  obtain ⟨after, H₁, between, H₂, rfl, hanswer, rfl, hsent⟩ := of_heard h hmem
  obtain ⟨r, s, before, after', H₃, -, hown, -, hfinds, -, rfl, rfl, hdeeds, hlawful⟩ :=
    hf.of_plain hsent hm
  rcases hf.session_cases hlawful with ⟨hfirst, hnone⟩ | ⟨u, data, hinstalled, hid, htoken⟩
  · have hsub : before ⊆ History.of H₃ t := by
      rw [hdeeds]
      exact List.subset_cons_self _ _
    have hauth := (hf.of_finds hlawful hnone hsub hfinds).1
    have htoken : m.token = s₀.token? := by rw [hown.token, hfirst]
    exact .inl ⟨hf.rejects _ m d hanswer hm hauth htoken, hauth, htoken⟩
  · have htoken' : m.token = some data.sessionId := hown.token.trans htoken
    obtain ⟨status, headers, body, rfl, hexpected⟩ := hf.accepts _ m d _ hanswer hm htoken'
      (hid.mono fun x hx => by simp [hx])
    have hkept : Response.rejectsSession ⟨status, body⟩ = false :=
      Response.not_rejects_of_expected hexpected
    exact .inr ⟨hkept, ⟨u, data, by simp [hinstalled], htoken'⟩, status, headers, body, rfl,
      hexpected⟩

/-- Only the session held at first is ever rejected. -/
theorem of_rejection (hf : Flight e user requests s₀ A)
    (h : Lawful (rulesOf e user (requests.map .execute)) s₀ A H) {id : String} {deeds : List Deed}
    (hdeeds : deeds ⊆ H.of t) (hid : Rejection deeds (some id)) : s₀.token? = some id := by
  obtain ⟨m, d, hmem, htoken, hrejects⟩ := hid
  have hheard := History.mem_of.1 (hdeeds hmem)
  cases hm : m.request.isLogon with
  | true =>
      -- A logon belongs to no session.
      obtain ⟨-, -, -, H₂, -, -, -, hsent⟩ := of_heard h hheard
      obtain ⟨hlogon, -⟩ := hf.of_logon hsent hm
      rw [hlogon.token] at htoken
      cases htoken
  | false =>
      rcases hf.of_answer h hheard hm with ⟨-, -, hstale⟩ | ⟨hno, -⟩
      · rw [← hstale, htoken]
      · rw [hrejects] at hno
        cases hno

/-- What an operation may write over is the session held at first, as long as it is held. -/
theorem of_yields (hf : Flight e user requests s₀ A)
    (h : Lawful (rulesOf e user (requests.map .execute)) s₀ A H) {deeds : List Deed}
    (hdeeds : deeds ⊆ H.of t) (hyields : Yields deeds (H.session s₀)) :
    ∀ u data, (u, .installed data) ∉ H := by
  rcases hf.session_cases h with ⟨-, hnone⟩ | ⟨u, data, -, hid, htoken⟩
  · exact hnone
  · have hrejection := hyields (Session.isAuthenticated_of_token? htoken)
    rw [htoken] at hrejection
    exact absurd (hf.of_rejection h hdeeds hrejection) (hf.of_issued h hid).1

end Flight

/-! ## The requests themselves -/

/-- The messages of an operation other than logons, the latest first. -/
def Deed.uses (deeds : List Deed) : List Message :=
  deeds.filterMap fun
    | .sent m => if m.request.isLogon then none else some m
    | _ => none

namespace Flight

variable {e : Endpoint} {requests : List Request} {s₀ : Session} {A : Answers} {H : History}
  {t : Nat}

theorem uses_eq_nil (hf : Flight e user requests s₀ A) {deeds : List Deed}
    (h : OnlyLogons e user deeds) :
    Deed.uses deeds = [] := by
  refine List.filterMap_eq_nil_iff.2 fun d hd => ?_
  cases d with
  | sent m => exact if_pos (hf.logons m (h m hd))
  | _ => rfl

/-- A request is sent at most twice, and the second time only if the first was rejected. -/
theorem uses_cases (hf : Flight e user requests s₀ A)
    (h : Lawful (rulesOf e user (requests.map .execute)) s₀ A H) {r : Request}
    (hr : requests[t]? = some r) :
    (∀ m ∈ Deed.uses (H.of t), m.request = r) ∧
      (Deed.uses (H.of t) = [] ∨ (∃ m, Deed.uses (H.of t) = [m]) ∨
        ∃ m m₁, Deed.uses (H.of t) = [m, m₁] ∧ s₀.isAuthenticated = true ∧
          m₁.token = s₀.token?) := by
  induction h with
  | nil => exact ⟨(fun m hm => nomatch hm), .inl rfl⟩
  | @cons H u d h hlive hfits hmay ih =>
      by_cases hut : u = t
      · subst hut
        rw [History.of_cons_self]
        cases d with
        | sent m =>
            cases hm : m.request.isLogon with
            | true =>
                have : Deed.uses (.sent m :: H.of u) = Deed.uses (H.of u) := by
                  simp [Deed.uses, hm]
                rw [this]
                exact ih
            | false =>
                have hsent := Lawful.cons h hlive hfits hmay
                obtain ⟨r', s, before, -, -, hr', hown, hdeeds, -, hstage, -⟩ :=
                  hf.of_plain hsent hm
                rw [hr] at hr'
                cases hr'
                have huses : Deed.uses (.sent m :: H.of u) = m :: Deed.uses before := by
                  simp [Deed.uses, hm, hdeeds]
                rw [huses]
                rcases hstage with honly | ⟨later, m₁, d₁, earlier, hbefore, hm₁, hd₁, hlater,
                  hearlier, -⟩
                · rw [hf.uses_eq_nil honly]
                  refine ⟨fun m' hm' => ?_, .inr (.inl ⟨m, rfl⟩)⟩
                  rw [List.mem_singleton.1 hm', hown.request]
                · have hplain : m₁.request.isLogon = false := by
                    rw [hm₁.request]
                    exact hf.plain r (List.mem_of_getElem? hr)
                  have hone : Deed.uses before = [m₁] := by
                    have hl := hf.uses_eq_nil hlater
                    have he := hf.uses_eq_nil hearlier
                    rw [Deed.uses] at hl he ⊢
                    rw [hbefore, List.filterMap_append, hl, List.nil_append]
                    simp [hplain, he]
                  rw [hone]
                  have hheard : (u, .heard m₁ d₁) ∈ H :=
                    History.mem_of.1 (by rw [hdeeds, hbefore]; simp)
                  refine ⟨fun m' hm' => ?_, .inr (.inr ⟨m, m₁, rfl, ?_⟩)⟩
                  · rcases List.mem_cons.1 hm' with rfl | hm'
                    · exact hown.request
                    · rw [List.mem_singleton.1 hm', hm₁.request]
                  · rcases hf.of_answer h hheard hplain with ⟨-, hstale⟩ | ⟨hno, -⟩
                    · exact hstale
                    · rw [hd₁] at hno
                      cases hno
        | _ => exact ih
      · rw [History.of_cons_ne hut]
        exact ih

theorem not_rejected_again (hf : Flight e user requests s₀ A)
    (h : Lawful (rulesOf e user (requests.map .execute)) s₀ A H) {m : Message} {d : Delivery}
    {s : Session} {before : List Deed} {r : Request}
    (hdeeds : H.of t = .heard m d :: .sent m :: .left :: .read s :: .entered .shared :: before)
    (hm : m.request.isLogon = false) (hr : r.isLogon = false) (hrenewed : Renewed e user r before) :
    d.rejects = false := by
  obtain ⟨after, H₂, rfl, hH₂⟩ := History.split_of [.heard m d] hdeeds
  obtain ⟨r', s', before', after', H₃, -, hown, hdeeds', -, -, rfl, rfl, hof, hlawful⟩ :=
    hf.of_plain (h.of_append after) hm
  rw [hH₂] at hdeeds'
  cases hdeeds'
  have hheard : (t, .heard m d) ∈ after ++ (t, .sent m) :: (after' ++ H₃) :=
    History.mem_of.1 (by rw [hdeeds]; exact List.mem_cons_self)
  obtain ⟨later, m₁, d₁, earlier, rfl, hm₁, hd₁, -, -, hfinds⟩ := hrenewed
  rcases hf.session_cases hlawful with ⟨-, hnone⟩ | ⟨u, data, -, hid, htoken⟩
  · -- The session found since the first answer is another one than the session held at first.
    have hheard₁ : (t, .heard m₁ d₁) ∈ H₃ := History.mem_of.1 (by rw [hof]; simp)
    have hfound := hf.of_finds hlawful hnone (by rw [hof]; simp) hfinds
    rcases hf.of_answer hlawful hheard₁ (by rw [hm₁.request, hr]) with ⟨-, -, hstale⟩ | ⟨hno, -⟩
    · exact absurd hstale.symm hfound.2
    · rw [hd₁] at hno
      cases hno
  · rcases hf.of_answer h hheard hm with ⟨-, -, hstale⟩ | ⟨hno, -⟩
    · rw [hown.token, htoken] at hstale
      exact absurd hstale.symm (hf.of_issued hlawful hid).1
    · exact hno

theorem sendable_of_read (hf : Flight e user requests s₀ A)
    (h : Lawful (rulesOf e user (requests.map .execute)) s₀ A H)
    (hs₀ : ∀ id, s₀.token? = some id → Sendable id) {s : Session} (hmem : (t, .read s) ∈ H)
    {id : String} (hid : s.token? = some id) : Sendable id := by
  obtain ⟨after, H', rfl⟩ := List.append_of_mem hmem
  have hlawful := (h.of_append after).before
  obtain rfl := (h.of_append after).fits.2
  rcases hf.session_cases hlawful with ⟨hfirst, -⟩ | ⟨u, data, -, hissued, htoken⟩
  · exact hs₀ id (hfirst ▸ hid)
  · rw [htoken] at hid
    cases hid
    exact (hf.of_issued hlawful hissued).2.1

/-- How an executed request ends that was not cancelled: with a regular answer, unless its content
type cannot be sent. In either case a session was installed, unless the content type cannot be sent
and there was a session at first. -/
theorem of_concluded (hf : Flight e user requests s₀ A)
    (h : Lawful (rulesOf e user (requests.map .execute)) s₀ A H)
    (hs₀ : ∀ id, s₀.token? = some id → Sendable id) {r : Request} (hr : requests[t]? = some r)
    {result : Result Response} (hlive : .gaveUp ∉ H.of t)
    (hc : Concluded e user r (H.of t) result) :
    (Sendable r.effectiveContentType → ∃ response, result = .ok response) ∧
      (¬ Sendable r.effectiveContentType →
        result = .error (.ofCause (.invalidHeader "content-type"))) ∧
      (Sendable r.effectiveContentType ∨ s₀.isAuthenticated = false →
        ∃ u data, (u, .installed data) ∈ H) := by
  have hplain := hf.plain r (List.mem_of_getElem? hr)
  generalize hdeeds : H.of t = deeds at hlive hc
  cases hc with
  | @answered m status headers body earlier hm hexpected =>
      have hheard : (t, .heard m (.answered status headers body)) ∈ H :=
        History.mem_of.1 (by rw [hdeeds]; exact List.mem_cons_self)
      refine ⟨fun _ => ⟨_, rfl⟩, fun hbad => absurd (Headers.sendable_of_ofRequest hm.headers) hbad,
        fun _ => ?_⟩
      rcases hf.of_answer h hheard (hm.request ▸ hplain) with
        ⟨hrejects, -⟩ | ⟨-, ⟨u, data, hu, -⟩, -⟩
      · exact nomatch hrejects.symm.trans (Response.not_rejects_of_expected hexpected)
      · exact ⟨u, data, hu⟩
  | @failed m d earlier failure hm hd hrejects =>
      have hm' : m.request.isLogon = false := hm.request ▸ hplain
      have hheard : (t, .heard m d) ∈ H :=
        History.mem_of.1 (by rw [hdeeds]; exact List.mem_cons_self)
      exfalso
      rcases hf.of_answer h hheard hm' with
        ⟨hrejected, -⟩ | ⟨-, -, status, headers, body, rfl, hexpected⟩
      · obtain ⟨s, before, rfl, hrenewed⟩ := hrejects hrejected
        rw [hf.not_rejected_again h hdeeds hm' hplain hrenewed] at hrejected
        cases hrejected
      · have hregular : regular ⟨status, body⟩ = .ok ⟨status, body⟩ := if_pos hexpected
        exact nomatch hregular.symm.trans hd
  | @unsendable s earlier failure hfinds hbad =>
      have hread : (t, .read s) ∈ H := History.mem_of.1 (by rw [hdeeds]; simp)
      rcases Headers.ofRequest_cases Identity.userAgent r s.token? with
        ⟨-, headers, hok⟩ | ⟨htype, herror⟩ | ⟨-, id, hid, hunsendable, -⟩
      · rw [hbad] at hok
        cases hok
      · rw [herror] at hbad
        cases hbad
        refine ⟨fun hgood => absurd hgood htype, fun _ => rfl, fun hopens => ?_⟩
        refine Classical.byContradiction fun hnone => ?_
        have hsub : earlier ⊆ H.of t := by
          rw [hdeeds]
          exact List.subset_append_right [_, _, _] earlier
        have hfound := hf.of_finds h (fun u data hu => hnone ⟨u, data, hu⟩) hsub hfinds
        rcases hopens with hgood | hunauth
        · exact htype hgood
        · rw [hfound.1] at hunauth
          cases hunauth
      · exact absurd (hf.sendable_of_read h hs₀ hread hid) hunsendable
  | @noSession m d deeds failure hm hd hheard =>
      have hheard' : (t, .heard m d) ∈ H := History.mem_of.1 (by rw [hdeeds]; exact hheard)
      obtain ⟨-, H', -, -, -, hanswer, -⟩ := of_heard h hheard'
      obtain ⟨data, hdata, -⟩ := hf.opens H' m d hanswer (hf.logons m hm)
      rw [hd] at hdata
      cases hdata
  | cancelled hstop => exact absurd hstop hlive

end Flight

end HmcClient.Client
