import HmcClient.Proofs.Client.Alone
import HmcClient.Proofs.Client.Calls
import HmcClient.Proofs.Client.Watched
import HmcClient.Proofs.Exchange.Partial

/-!
# A client that gets partial content

A console that answers 206 wherever another one answers 200, with the same bodies. Against the two
an operation takes the same steps, only what it traces differs; `Alike` says this of two programs,
along all their branches, and what it says of programs is true of their runs (`Alike.run`). So
sessions are opened and closed as before. What is not as before is the question whether the session
that is held is still accepted: with partial content the answer is always no.
-/

namespace HmcClient.Client

open Result (Likewise)

variable {σ α β γ δ : Type} {R : α → β → Prop} {Q : γ → δ → Prop}

/-! ## The console -/

/-- What becomes of a message, with partial content in place of full content. -/
def Delivery.partly : Delivery → Delivery
  | .answered status headers body => .answered (partlyStatus status) headers body
  | .brokenOff status => .brokenOff (partlyStatus status)
  | .lost => .lost
  | .cancelled => .cancelled

/-- The console that answers with partial content where another one does with full content. -/
def Answering.partly (answering : Answering σ) : Answering σ := fun m c =>
  ((answering m c).1.map Delivery.partly, (answering m c).2)

namespace Alone

/-- The client as if nothing had been traced so far. -/
def unwritten (s : Alone σ) : Alone σ := s.retrace fun sink => { sink with written := [] }

variable {s s' : Alone σ}

theorem write_unwritten (text : String) (answering : Answering σ) :
    (handle answering (.touch (.trace text)) s).2.unwritten = s.unwritten := by
  simp only [handle, Touch.apply, unwritten, retrace, Sink.write]
  split
  · rfl
  · rfl

/-- A message is answered as by the other console, only with partial content. -/
theorem exchange_partly (answering : Answering σ) (m : Message) (cancellable : Bool)
    (s : Alone σ) : s.exchange answering.partly m cancellable =
      ((s.exchange answering m cancellable).1.partly, (s.exchange answering m cancellable).2) := by
  unfold exchange Answering.partly
  split
  · rfl
  · rcases answering m s.console with ⟨_ | d, console⟩
    · dsimp only [Option.map_none]
      split
      · rfl
      · rfl
    · rfl

theorem exchange_alike (answering : Answering σ) (m : Message) (cancellable : Bool)
    (hs : s.unwritten = s'.unwritten) :
    (s'.exchange answering.partly m cancellable).1 = (s.exchange answering m cancellable).1.partly ∧
      (s.exchange answering m cancellable).2.unwritten =
        (s'.exchange answering.partly m cancellable).2.unwritten := by
  have h := exchange_retrace answering m cancellable (fun sink => { sink with written := [] }) s
  have h' := exchange_retrace answering m cancellable (fun sink => { sink with written := [] }) s'
  rw [show s.retrace _ = s'.retrace _ from hs] at h
  obtain ⟨hanswer, hafter⟩ := Prod.mk.inj (h.symm.trans h')
  rw [exchange_partly]
  exact ⟨congrArg Delivery.partly hanswer.symm, hafter⟩

/-- No other step looks at what has been traced, or at the console. -/
theorem handle_unwritten (answering answering' : Answering σ) {step : Step}
    (hstep : ∀ m cancellable, step ≠ .exchange m cancellable) (s : Alone σ) :
    (handle answering step s).1 = (handle answering' step s.unwritten).1 ∧
      (handle answering step s).2.unwritten = (handle answering' step s.unwritten).2.unwritten := by
  cases step with
  | touch t =>
      cases t with
      | trace text =>
          have hwritten : s.unwritten.unwritten = s.unwritten := rfl
          rw [write_unwritten, write_unwritten, hwritten]
          exact ⟨rfl, rfl⟩
      | _ => exact ⟨rfl, rfl⟩
  | release lock => exact ⟨rfl, rfl⟩
  | acquire lock access cancellable => exact ⟨rfl, rfl⟩
  | exchange m cancellable => exact absurd rfl (hstep m cancellable)
  | pause interval cancellable =>
      unfold handle unwritten retrace
      dsimp only
      split
      · exact ⟨rfl, rfl⟩
      · exact ⟨rfl, rfl⟩

theorem handle_alike (answering answering' : Answering σ) {step : Step}
    (hstep : ∀ m cancellable, step ≠ .exchange m cancellable) (hs : s.unwritten = s'.unwritten) :
    (handle answering step s).1 = (handle answering' step s').1 ∧
      (handle answering step s).2.unwritten = (handle answering' step s').2.unwritten := by
  obtain ⟨hanswer, hafter⟩ := handle_unwritten answering answering' hstep s
  obtain ⟨hanswer', hafter'⟩ := handle_unwritten answering' answering' hstep s'
  rw [hs] at hanswer hafter
  exact ⟨hanswer.trans hanswer'.symm, hafter.trans hafter'.symm⟩

end Alone

/-! ## Programs -/

/-- Whether two programs take the same steps, the second one with partial content where the first
one gets full content, and end with values related by `R`. The texts that they trace may differ. -/
inductive Alike (R : α → β → Prop) : Action α → Action β → Prop
  | done {a : α} {b : β} (h : R a b) : Alike R (.done a) (.done b)
  | trace {text text' : String} {next : Unit → Action α} {next' : Unit → Action β}
    (h : Alike R (next ()) (next' ())) :
    Alike R (.perform (.touch (.trace text)) next) (.perform (.touch (.trace text')) next')
  | exchange {m : Message} {cancellable : Bool} {next : Delivery → Action α}
    {next' : Delivery → Action β} (h : ∀ d, Alike R (next d) (next' d.partly)) :
    Alike R (.perform (.exchange m cancellable) next) (.perform (.exchange m cancellable) next')
  | step (step : Step) {next : step.Answer → Action α} {next' : step.Answer → Action β}
    (hstep : ∀ m cancellable, step ≠ .exchange m cancellable)
    (h : ∀ answer, Alike R (next answer) (next' answer)) :
    Alike R (.perform step next) (.perform step next')

namespace Alike

theorem bind {p : Action α} {q : Action β} (h : Alike R p q) {f : α → Action γ} {g : β → Action δ}
    (hnext : ∀ a b, R a b → Alike Q (f a) (g b)) : Alike Q (p >>= f) (q >>= g) := by
  induction h with
  | done h => exact hnext _ _ h
  | trace _ ih => exact .trace ih
  | exchange _ ih => exact .exchange ih
  | step step hstep _ ih => exact .step step hstep ih

theorem touch (t : Touch) : Alike Eq (Client.touch t) (Client.touch t) :=
  .step (.touch t) (by simp) fun _ => .done rfl

theorem locked {p : Action α} {q : Action β} (h : Alike R p q) (lock : Lock) (access : Access) :
    Alike R (Client.locked lock access p) (Client.locked lock access q) := by
  refine .step (.acquire lock access false) (by simp) fun _ => ?_
  refine h.bind fun a b hab => ?_
  exact .step (.release lock) (by simp) fun _ => .done hab

theorem readCell (lock : Lock) (t : Touch) :
    Alike Eq (Client.readCell lock t) (Client.readCell lock t) :=
  (touch t).locked lock .shared

theorem traced (text text' : String) : Alike Eq (Client.traced text) (Client.traced text') := by
  refine .step (.touch .isTraced) (by simp) fun answer => ?_
  cases answer with
  | true => exact .trace (.done rfl)
  | false => exact .done rfl

theorem bindTask {x : Task α} {y : Task β} (h : Alike (Likewise R) x.run y.run) {f : α → Task γ}
    {g : β → Task δ} (hnext : ∀ a b, R a b → Alike (Likewise Q) (f a).run (g b).run) :
    Alike (Likewise Q) (x >>= f).run (y >>= g).run := by
  rw [ExceptT.run_bind, ExceptT.run_bind]
  refine h.bind fun a b hab => ?_
  cases hab with
  | ok h => exact hnext _ _ h
  | error h => exact .done (.error h)

theorem run {p : Action α} {q : Action β} (h : Alike R p q) (answering : Answering σ)
    {s s' : Alone σ} (hs : s.unwritten = s'.unwritten) :
    R (s.run answering p).1 (s'.run answering.partly q).1 ∧
      (s.run answering p).2.unwritten = (s'.run answering.partly q).2.unwritten := by
  induction h generalizing s s' with
  | done h => exact ⟨h, hs⟩
  | @trace text text' _ _ _ ih =>
      exact ih (((Alone.write_unwritten text answering).trans hs).trans
        (Alone.write_unwritten text' answering.partly).symm)
  | @exchange m cancellable _ _ _ ih =>
      obtain ⟨hanswer, hafter⟩ := Alone.exchange_alike answering m cancellable hs
      have hnext := ih (s.exchange answering m cancellable).1 hafter
      rw [← hanswer] at hnext
      exact hnext
  | step step hstep _ ih =>
      obtain ⟨hanswer, hafter⟩ := Alone.handle_alike answering answering.partly hstep hs
      rw [Alone.run_perform, Alone.run_perform, ← hanswer]
      exact ih _ hafter

/-! ## Exchanges -/

theorem lift {p : Action α} {q : Action β} (h : Alike R p q) :
    Alike (Likewise R) (liftM p : Task α).run (liftM q : Task β).run :=
  h.bind fun _ _ hab => .done (.ok hab)

theorem ofResult {x : Result α} {y : Result β} (h : Likewise R x y) :
    Alike (Likewise R) (Client.ofResult x).run (Client.ofResult y).run := .done h

theorem settle (r : Request) (d : Delivery) :
    Alike (Likewise fun full part => part = full.partly) (Client.settle r d).run
      (Client.settle r d.partly).run := by
  cases d with
  | answered status headers body =>
      exact bindTask (lift (traced _ _)) fun _ _ _ => .done (.ok rfl)
  | brokenOff status => exact .done (.error rfl)
  | lost => exact .done (.error rfl)
  | cancelled => exact .done (.error rfl)

theorem dispatch (r : Request) (token : Option String) :
    Alike (Likewise fun full part => part = full.partly) (Client.dispatch r token).run
      (Client.dispatch r token).run := by
  refine bindTask (ofResult (.refl _)) fun headers _ h => ?_
  subst h
  refine bindTask (lift (traced _ _)) fun _ _ _ => ?_
  refine bindTask (lift (readCell .connection .verification)) fun verification _ h => ?_
  subst h
  refine bindTask (R := fun full part => part = full.partly)
    (lift (.exchange fun d => .done rfl)) fun d _ h => ?_
  subst h
  have hanswered : d.partly.isAnswered = d.isAnswered := by cases d <;> rfl
  rw [hanswered]
  exact bindTask (lift ((touch (.countRequest _)).locked .statistics .exclusive)) fun _ _ _ =>
    settle r d

/-! ## Sessions -/

theorem requestLogon (e : Endpoint) (newPassword : Option String) :
    Alike (Likewise Eq) (Client.requestLogon e newPassword).run
      (Client.requestLogon e newPassword).run := by
  refine bindTask (lift (readCell .options .options)) fun o _ h => ?_
  subst h
  refine bindTask (lift (dispatch _ _)) fun answer answer' hanswer => ?_
  refine bindTask (lift ((touch .countLogon).locked .statistics .exclusive)) fun _ _ _ => ?_
  refine bindTask (ofResult hanswer) fun response _ h => ?_
  subst h
  exact ofResult (Response.opened_indifferent response)

theorem installLogon (e : Endpoint) :
    Alike (Likewise Eq) (Client.installLogon e).run (Client.installLogon e).run := by
  refine bindTask (requestLogon e none) fun data _ h => ?_
  subst h
  exact lift (touch (.install data))

theorem logon (e : Endpoint) : Alike (Likewise Eq) (Client.logon e).run (Client.logon e).run :=
  (installLogon e).locked .session .exclusive

theorem closeSession (e : Endpoint) (token : String) :
    Alike (Likewise Eq) (Client.closeSession e token).run (Client.closeSession e token).run := by
  refine bindTask (dispatch _ _) fun response _ h => ?_
  subst h
  exact ofResult (Response.nothing_indifferent (by decide) response)

theorem logoff (e : Endpoint) :
    Alike (Likewise Eq) (Client.logoff e).run (Client.logoff e).run := by
  refine locked (.bind (touch .session) fun session _ h => ?_) .session .exclusive
  subst h
  split
  · exact .done (.ok rfl)
  · exact (touch .clear).bind fun _ _ _ => closeSession e _

theorem changePassword (e : Endpoint) (newPassword : String) :
    Alike (Likewise Eq) (Client.changePassword e newPassword).run
      (Client.changePassword e newPassword).run := by
  refine bindTask (requestLogon e (some newPassword)) fun data _ h => ?_
  subst h
  exact closeSession e data.sessionId

theorem giveUp (token : String) : Alike Eq (Client.giveUp token) (Client.giveUp token) := by
  refine locked (.bind (touch .session) fun session _ h => ?_) .session .exclusive
  subst h
  split
  · exact touch .clear
  · exact .done rfl

/-- With partial content no session is found to be accepted. Nothing else comes of that. -/
theorem probe (e : Endpoint) (token : String) :
    Alike (fun _ accepted => accepted = false) (Client.probe e token) (Client.probe e token) := by
  refine (dispatch _ _).bind fun answer answer' h => ?_
  cases h with
  | error h => exact .done rfl
  | @ok response _ h =>
      subst h
      by_cases hfull : response.status = 200
      · have hpart : response.partly = ⟨206, response.body⟩ := by
          rw [Response.partly, partlyStatus, if_pos hfull]
        rw [hpart]
        dsimp only
        rw [if_pos hfull]
        exact .done rfl
      · have hsame : response.partly = response := by
          rw [Response.partly, partlyStatus, if_neg hfull]
        rw [hsame]
        dsimp only
        rw [if_neg hfull]
        split
        · exact (giveUp token).bind fun _ _ _ => .done rfl
        · exact .done rfl

theorem isLoggedOn (e : Endpoint) : Alike (fun _ accepted => accepted = false)
    (Client.isLoggedOn e true) (Client.isLoggedOn e true) := by
  have token : Alike Eq currentToken currentToken := by
    refine (readCell .session .session).bind fun session _ h => ?_
    subst h
    exact .done rfl
  refine token.bind fun held _ h => ?_
  subst h
  cases held with
  | none => exact .done rfl
  | some token => exact probe e token

end Alike

theorem probe_iff (e : Endpoint) (token : String) (answering : Answering σ) (s : Alone σ) :
    (s.run answering (probe e token)).1 = true ↔
      ∃ body, (s.run answering (dispatch (probeRequest e) (some token)).run).1 =
        .ok ⟨200, body⟩ := by
  rw [probe, Alone.run_bind]
  rcases s.run answering (dispatch (probeRequest e) (some token)).run with
    ⟨failure | ⟨status, body⟩, after⟩
  · exact ⟨fun h => (nomatch h), fun ⟨_, h⟩ => (nomatch h)⟩
  · by_cases hfull : status = 200
    · subst hfull
      exact ⟨fun _ => ⟨body, rfl⟩, fun _ => rfl⟩
    · constructor
      · intro h
        dsimp only at h
        rw [if_neg hfull] at h
        split at h
        · rw [Alone.run_bind] at h
          cases h
        · cases h
      · rintro ⟨_, h⟩
        cases h
        exact absurd rfl hfull

/-- A session is found to be accepted if and only if one is held and the answer to the question is
full content. -/
theorem isLoggedOn_iff (e : Endpoint) (answering : Answering σ) (s : Alone σ) :
    (s.run answering (isLoggedOn e true)).1 = true ↔
      ∃ token body, s.shared.session.token? = some token ∧
        (s.run answering (dispatch (probeRequest e) (some token)).run).1 = .ok ⟨200, body⟩ := by
  have hcurrent : s.run answering currentToken = (s.shared.session.token?, s) := rfl
  rw [isLoggedOn, Alone.run_bind, hcurrent]
  cases s.shared.session.token? with
  | none => exact ⟨fun h => (nomatch h), fun ⟨_, _, h, _⟩ => (nomatch h)⟩
  | some token =>
      refine (probe_iff e token answering s).trans ⟨fun ⟨body, h⟩ => ⟨token, body, rfl, h⟩, ?_⟩
      rintro ⟨_, body, htoken, h⟩
      obtain rfl := Option.some.inj htoken
      exact ⟨body, h⟩

/-- Whether a task ends alike, and leaves the client as it was left, if partial content is answered
in place of full content. -/
def Indifferent (x : Task α) : Prop := ∀ (σ : Type) (answering : Answering σ) (s : Alone σ),
  Likewise Eq (s.run answering x.run).1 (s.run answering.partly x.run).1 ∧
    (s.run answering x.run).2.unwritten = (s.run answering.partly x.run).2.unwritten

theorem Alike.indifferent {x : Task α} (h : Alike (Likewise Eq) x.run x.run) : Indifferent x :=
  fun _ answering _ => h.run answering rfl

/-! ## What partial content changes -/

theorem update_likewise_iff (e : Endpoint) (uri : String) (changes : StorageGroupModify)
    (handler : Talk.Handler σ) (s : σ) :
    Likewise Eq ((StorageGroup.update e uri changes).run.run handler s).1
        ((StorageGroup.update e uri changes).run.run handler.partly s).1 ↔
      ∀ body, (handler (.execute (e.postJson (uri ++ "/operations/modify") changes.body)) s).1 ≠
        .ok ⟨200, body⟩ := by
  rw [StorageGroup.update, Talk.run_expect, Talk.run_expect_partly]
  rcases (handler (.execute (e.postJson (uri ++ "/operations/modify") changes.body)) s).1 with
    failure | ⟨status, body⟩
  · exact ⟨fun _ body h => (nomatch h), fun _ => .error rfl⟩
  · refine (Response.startedJob?_likewise_iff ⟨status, body⟩).trans ⟨?_, ?_⟩
    · rintro hstatus _ h
      cases h
      exact hstatus rfl
    · rintro h (rfl : status = 200)
      exact h body rfl

/-- Where 206 counts as 200 does, and where it does not. Who expects a document, the items of a
collection or nothing makes the same of both, and so do the samples of a metrics context and every
operation that opens or ends a session. The change of a storage group is done by a job or at once;
full content says that it is done, and partial content is refused as unexpected, so both count alike
only if full content is not what is answered. A session is found to be accepted if and only if full
content is answered, so never if partial content is; the client is left as it was left in either
case. -/
theorem partial_content (c : Codec α) (collection : String) {ok : List Nat} (hok : 200 ∈ ok)
    (e : Endpoint) (uri : String) (changes : StorageGroupModify) :
    Response.Indifferent (·.document c ok) ∧ Response.Indifferent (·.items c collection) ∧
    Response.Indifferent (·.nothing ok) ∧
    (∀ r : Response, Likewise Eq r.startedJob? r.partly.startedJob? ↔ r.status ≠ 200) ∧
    (∀ body, Response.startedJob? ⟨200, body⟩ = .ok none ∧ Response.startedJob? ⟨206, body⟩ =
      .error ((Failure.ofCause (.unexpectedStatus 206)).withStatus 206)) ∧
    (∀ (σ : Type) (handler : Talk.Handler σ) (s : σ),
      Likewise Eq ((MetricsContext.samples e uri).run.run handler s).1
          ((MetricsContext.samples e uri).run.run handler.partly s).1 ∧
        ((MetricsContext.samples e uri).run.run handler s).2 =
          ((MetricsContext.samples e uri).run.run handler.partly s).2) ∧
    (∀ (σ : Type) (handler : Talk.Handler σ) (s : σ),
      Likewise Eq ((StorageGroup.update e uri changes).run.run handler s).1
          ((StorageGroup.update e uri changes).run.run handler.partly s).1 ↔
        ∀ body, (handler (.execute (e.postJson (uri ++ "/operations/modify") changes.body)) s).1 ≠
          .ok ⟨200, body⟩) ∧
    (Indifferent (logon e) ∧ Indifferent (logoff e) ∧ Indifferent (logonConsole e) ∧
      (∀ token, Indifferent (logoffConsole e token)) ∧
      ∀ newPassword, Indifferent (changePassword e newPassword)) ∧
    (∀ (σ : Type) (answering : Answering σ) (s : Alone σ),
      ((s.run answering (isLoggedOn e true)).1 = true ↔
        ∃ token body, s.shared.session.token? = some token ∧
          (s.run answering (dispatch (probeRequest e) (some token)).run).1 = .ok ⟨200, body⟩) ∧
      (s.run answering.partly (isLoggedOn e true)).1 = false ∧
      (s.run answering (isLoggedOn e true)).2.unwritten =
        (s.run answering.partly (isLoggedOn e true)).2.unwritten) := by
  have hsession : Indifferent (logon e) ∧ Indifferent (logoff e) ∧ Indifferent (logonConsole e) ∧
      (∀ token, Indifferent (logoffConsole e token)) ∧
      ∀ newPassword, Indifferent (changePassword e newPassword) :=
    ⟨(Alike.logon e).indifferent, (Alike.logoff e).indifferent,
      (Alike.requestLogon e none).indifferent,
      fun token => (Alike.closeSession e token).indifferent,
      fun newPassword => (Alike.changePassword e newPassword).indifferent⟩
  exact ⟨Response.document_indifferent c hok, Response.items_indifferent c collection,
    Response.nothing_indifferent hok, Response.startedJob?_likewise_iff,
    Response.startedJob?_partial,
    fun σ handler s => Talk.expect_partly Response.samples_indifferent _ handler s,
    fun σ handler s => update_likewise_iff e uri changes handler s, hsession,
    fun σ answering s => ⟨isLoggedOn_iff e answering s, (Alike.isLoggedOn e).run answering rfl⟩⟩

/-- Answers everything with full content and no body. -/
def Sample.full : Talk.Handler Unit
  | .execute _, s => (.ok ⟨200, []⟩, s)
  | .sessionId, s => (none, s)
  | .now, s => (⟨0⟩, s)
  | .pause .., s => (false, s)

/-- A logon that is answered without a body fails alike, a storage group is not changed alike, and a
session is accepted with full content. -/
theorem partial_content_sample :
    Likewise Eq (Response.document LogonData.codec [200, 201] ⟨200, []⟩)
      (Response.document LogonData.codec [200, 201] ⟨206, []⟩) ∧
    ¬ Likewise Eq
      ((StorageGroup.update Sample.endpoint "/api/storage-groups/1" ⟨none, none, []⟩).run.run
        Sample.full ()).1
      ((StorageGroup.update Sample.endpoint "/api/storage-groups/1" ⟨none, none, []⟩).run.run
        Sample.full.partly ()).1 ∧
    ((⟨Sample.shared "T1", (), false⟩ : Alone Unit).run (fun _ c => (some Sample.accepting, c))
      (isLoggedOn Sample.endpoint true)).1 = true := by
  obtain ⟨hdocument, -, -, -, -, -, hupdate, -, hprobe⟩ :=
    partial_content LogonData.codec "" (show 200 ∈ [200, 201] by decide) Sample.endpoint
      "/api/storage-groups/1" ⟨none, none, []⟩
  refine ⟨hdocument ⟨200, []⟩, fun h => ?_, ?_⟩
  · exact (hupdate Unit Sample.full ()).1 h [] rfl
  · exact (hprobe Unit _ _).1.2 ⟨"T1", [], rfl, by rfl⟩

/-- The change of a storage group and the question for the session do not take partial content as
they take full content. -/
theorem partial_content_refused : ¬ Response.Indifferent Response.startedJob? ∧
    ∃ answering : Answering Unit,
      ((⟨Sample.shared "T1", (), false⟩ : Alone Unit).run answering
        (isLoggedOn Sample.endpoint true)).1 = true ∧
      ((⟨Sample.shared "T1", (), false⟩ : Alone Unit).run answering.partly
        (isLoggedOn Sample.endpoint true)).1 = false := by
  refine ⟨fun h => ?_, fun _ c => (some Sample.accepting, c), by decide +kernel, by decide +kernel⟩
  have hempty := h ⟨200, []⟩
  cases hempty

end HmcClient.Client
