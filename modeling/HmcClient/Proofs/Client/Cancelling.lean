import HmcClient.Proofs.Client.Heeding
import HmcClient.Proofs.Client.Integrity

/-!
# What a cancellation leaves behind

A request may be cancelled at any moment while it is executed: before it starts, while it waits for
a lock, while a logon or the request itself is on its way, or between these. From then on nothing is
sent for it. If it ends because it was cancelled, the client holds the session that it held before,
or the whole session of a logon that was answered during the call and succeeded. The session is
never lost by it, and a logon that was given up leaves nothing.

The two halves come from different sides. Where an installed session comes from is known of every
call already. That nothing is sent and nothing is cleared is a matter of where the request can be
cancelled, which `Heeds` tells of its tree; `World.Heeded` carries it through a run.
-/

namespace HmcClient.Client

variable {α : Type}

/-- The operation that an entry is about. -/
def Entry.operation : Entry → Nat
  | touched t _ | admitted t _ _ | released t _ | sent t _ | delivered t _ _ | cancelled t
  | gaveUp t | dropped t => t

namespace World

/-- What is kept of an operation that heeds a cancellation. -/
structure Heeded (Q : Bool → α → Prop) (t : Nat) (w : World α) : Prop where
  rest : ∀ thread, w.threads[t]? = some thread →
    ∃ cleared, (.touched t .clear ∈ w.log → cleared = true) ∧ Heeds true Q cleared thread.rest
  cancelled : ∀ thread, w.threads[t]? = some thread → .cancelled t ∈ w.log →
    thread.cancelled = true
  sent : ∀ later m earlier, w.log = later ++ .sent t m :: earlier → .cancelled t ∉ earlier

namespace Heeded

variable {Q : Bool → α → Prop} {t u : Nat} {w w' : World α} {thread thread' : Thread α}

/-- An event moves one operation and writes at most one entry about it. -/
theorem moves (h : w.Heeded Q t) (written : Option Entry) (ht : w.threads[u]? = some thread)
    (hthreads : w'.threads = w.threads.set u thread') (hlog : w'.log = written.toList ++ w.log)
    (hentry : ∀ entry ∈ written, entry.operation = u)
    (hcancelled : thread.cancelled = true ∨ .cancelled u ∈ written → thread'.cancelled = true)
    (hsent : ∀ m, .sent u m ∈ written → ∀ cleared, Heeds true Q cleared thread.rest →
      thread.cancelled = false)
    (hrest : ∀ cleared, Heeds true Q cleared thread.rest →
      ∃ cleared', (cleared = true ∨ .touched u .clear ∈ written → cleared' = true) ∧
        Heeds true Q cleared' thread'.rest) : w'.Heeded Q t := by
  have hmem {entry : Entry} (hentry' : entry ∈ w'.log) : entry ∈ written ∨ entry ∈ w.log := by
    rw [hlog] at hentry'
    exact (List.mem_append.1 hentry').imp_left Option.mem_toList.1
  -- An entry about another operation was there before.
  have hother {entry : Entry} (hne : entry.operation ≠ u) (hentry' : entry ∈ w'.log) :
      entry ∈ w.log :=
    (hmem hentry').resolve_left fun hnew => hne (hentry entry hnew)
  refine ⟨fun other ho => ?_, fun other ho hc => ?_, fun later m earlier hsplit => ?_⟩
  · rw [hthreads, getElem?_set ht] at ho
    split at ho
    · next htu =>
        subst htu
        cases ho
        obtain ⟨cleared, hclear, hheeds⟩ := h.rest thread ht
        obtain ⟨cleared', hclear', hheeds'⟩ := hrest cleared hheeds
        exact ⟨cleared', fun hc => hclear' ((hmem hc).symm.imp_left hclear), hheeds'⟩
    · next htu =>
        obtain ⟨cleared, hclear, hheeds⟩ := h.rest other ho
        exact ⟨cleared, fun hc => hclear (hother htu hc), hheeds⟩
  · rw [hthreads, getElem?_set ht] at ho
    split at ho
    · next htu =>
        subst htu
        cases ho
        exact hcancelled ((hmem hc).symm.imp_left (h.cancelled thread ht))
    · next htu => exact h.cancelled other ho (hother htu hc)
  · rw [hlog] at hsplit
    cases written with
    | none => exact h.sent later m earlier hsplit
    | some entry =>
        cases later with
        | cons first later => exact h.sent later m earlier (List.cons.inj hsplit).2
        | nil =>
            obtain ⟨rfl, rfl⟩ := List.cons.inj hsplit
            obtain rfl : t = u := hentry _ rfl
            obtain ⟨cleared, -, hheeds⟩ := h.rest thread ht
            have hgoes := hsent m rfl cleared hheeds
            exact fun hc => Bool.false_ne_true (hgoes.symm.trans (h.cancelled thread ht hc))

theorem next (h : w.Heeded Q t) {event : Event} (hw : w.next event = some w') :
    w'.Heeded Q t := by
  cases happens_of_next hw with
  | @touch u thread touch next ht hlive hrest =>
      refine h.moves (some (.touched u touch)) ht rfl rfl (by simp [Entry.operation]) (by simp)
        (by simp) fun cleared hheeds => ?_
      rw [hrest] at hheeds
      exact ⟨_, by simp, hheeds _⟩
  | @release u thread lock next ht hlive hrest =>
      refine h.moves (some (.released u lock)) ht rfl rfl (by simp [Entry.operation]) (by simp)
        (by simp) fun cleared hheeds => ?_
      rw [hrest] at hheeds
      exact ⟨_, by simp, hheeds⟩
  | @refuse u thread lock access next ht hlive hcancelled hrest =>
      refine h.moves (some (.gaveUp u)) ht rfl rfl (by simp [Entry.operation]) (by simp)
        (by simp) fun cleared hheeds => ?_
      rw [hrest] at hheeds
      exact ⟨_, by simp [hheeds.1], hheeds.2.2 rfl⟩
  | @enter u thread lock access cancellable next s ht hlive hwaiting hrest hs =>
      refine h.moves (some (.admitted u lock access)) ht rfl rfl (by simp [Entry.operation])
        (by simp) (by simp) fun cleared hheeds => ?_
      rw [hrest] at hheeds
      exact ⟨_, by simp [hheeds.1], hheeds.2.1⟩
  | @join u thread lock access cancellable next ht hlive hwaiting hrest =>
      exact h.moves none ht rfl rfl (by simp) (by simp) (by simp)
        fun cleared hheeds => ⟨_, by simp, hheeds⟩
  | @send u thread m cancellable next ht hlive hwaiting hrest hgoes =>
      refine h.moves (some (.sent u m)) ht rfl rfl (by simp [Entry.operation]) (by simp)
        (fun _ _ cleared hheeds => ?_) fun cleared hheeds => ⟨_, by simp, hheeds⟩
      rw [hrest] at hheeds
      rwa [hheeds.2.1 rfl, Bool.true_and] at hgoes
  | @stop u thread m next ht hlive hcancelled hrest =>
      refine h.moves (some (.gaveUp u)) ht rfl rfl (by simp [Entry.operation]) (by simp)
        (by simp) fun cleared hheeds => ?_
      rw [hrest] at hheeds
      exact ⟨_, by simp [hheeds.1], hheeds.2.2 _ fun _ => rfl⟩
  | @wake u thread interval next ht hlive hcancelled hrest =>
      refine h.moves (some (.gaveUp u)) ht rfl rfl (by simp [Entry.operation]) (by simp)
        (by simp) fun cleared hheeds => ?_
      rw [hrest] at hheeds
      exact ⟨_, by simp [hheeds.1], hheeds.2.2 rfl⟩
  | @pass u thread interval cancellable next ht hlive hrest =>
      refine h.moves none ht rfl rfl (by simp) (by simp) (by simp) fun cleared hheeds => ?_
      rw [hrest] at hheeds
      exact ⟨_, by simp [hheeds.1], hheeds.2.1⟩
  | @answer u thread m cancellable d next ht hlive hwaiting hrest hd =>
      refine h.moves (some (.delivered u m d)) ht rfl rfl (by simp [Entry.operation]) (by simp)
        (by simp) fun cleared hheeds => ?_
      rw [hrest] at hheeds
      exact ⟨_, by simp [hheeds.1], hheeds.2.2 _ fun hc => absurd hc hd⟩
  | @cancel u thread ht =>
      exact h.moves (some (.cancelled u)) ht rfl rfl (by simp [Entry.operation]) (by simp)
        (by simp) fun cleared hheeds => ⟨_, by simp, hheeds⟩
  | @drop u thread step next ht hlive hrest hwait =>
      exact h.moves (some (.dropped u)) ht rfl rfl (by simp [Entry.operation]) (by simp)
        (by simp) fun cleared hheeds => ⟨_, by simp, hheeds⟩
  | change files => exact ⟨h.rest, h.cancelled, h.sent⟩

theorem start {shared : Shared} {operations : List (Program Steps α)}
    (h : ∀ p, operations[t]? = some p → Heeds true Q false p) :
    (World.start shared operations).Heeded Q t where
  rest thread ht := by
    simp only [World.start, List.getElem?_map, Option.map_eq_some_iff] at ht
    obtain ⟨p, hp, rfl⟩ := ht
    exact ⟨false, fun hmem => absurd hmem List.not_mem_nil, h p hp⟩
  cancelled thread ht hmem := absurd hmem List.not_mem_nil
  sent later m earlier hlog := by simp [World.start] at hlog

end Heeded

theorem Reaches.heeded {Q : Bool → α → Prop} {t : Nat} {w w' : World α} (hw : w.Reaches w')
    (h : w.Heeded Q t) : w'.Heeded Q t := by
  induction hw with
  | refl w => exact h
  | step event hnext rest ih => exact ih (h.next hnext)

end World

/-! ## Failures of a logon

The failure of a logon ends a call as well, and after the session has been cleared. It is another
failure than that of a cancelled call.
-/

theorem Logon.status_of_opened {response : Response} {failure : Failure}
    (h : Logon.opened response = .error failure) : failure.status = some response.status := by
  unfold Logon.opened at h
  cases hdocument : response.document LogonData.codec [200, 201] with
  | error other =>
      rw [hdocument] at h
      obtain rfl := Except.error.inj h
      unfold Response.document at hdocument
      split at hdocument
      · obtain rfl := Except.error.inj hdocument
        rw [Response.unexpected]
        split
        · rfl
        · rfl
      split at hdocument
      · obtain rfl := Except.error.inj hdocument
        rfl
      split at hdocument
      · cases hdocument
      · obtain rfl := Except.error.inj hdocument
        rfl
  | ok data =>
      rw [hdocument] at h
      change (if data.sessionId.isEmpty then _ else _) = _ at h
      split at h
      · obtain rfl := Except.error.inj h
        rfl
      · cases h

theorem Failure.requestFailed_ne_cancelled (method url : String) :
    Failure.ofCause .requestFailed ≠ .ofCause (.cancelled method url) := by
  intro h
  have hmessage : "HTTP request failed" = method ++ " " ++ url ++ " cancelled" :=
    congrArg Failure.message h
  have hends := congrArg (fun text => text.toList.reverse.take 4) hmessage
  simp at hends

/-- A logon that is not given up does not fail like a cancelled call. -/
theorem Delivery.opened_ne_cancelled {d : Delivery} {failure : Failure} (hd : d ≠ .cancelled)
    (h : d.opened = .error failure) (method url : String) :
    failure ≠ .ofCause (.cancelled method url) := by
  have hstatus {status : Nat} (hs : failure.status = some status) :
      failure ≠ .ofCause (.cancelled method url) := by
    rintro rfl
    cases hs
  cases d with
  | answered status headers body => exact hstatus (Logon.status_of_opened h)
  | brokenOff status =>
      obtain rfl := Except.error.inj h
      exact hstatus rfl
  | lost =>
      obtain rfl := Except.error.inj h
      exact Failure.requestFailed_ne_cancelled method url
  | cancelled => exact absurd rfl hd

/-! ## Cancelled requests -/

/-- How a call that has cleared the session does not end. -/
def Uncancelled (r : Request) (cleared : Bool) (outcome : Outcome) : Prop :=
  cleared = true → outcome ≠ .answered (.error (.ofCause (.cancelled r.method r.url.render)))

theorem World.Reaches.heeded_execute {e : Endpoint} {shared : Shared} {calls : List Call} {t : Nat}
    {r : Request} {w : World Outcome} (hcall : calls[t]? = some (.execute r))
    (hr : r.cancellable = true) (h : (World.ofCalls e shared calls).Reaches w) :
    w.Heeded (Uncancelled r) t := by
  refine h.heeded (.start fun p hp => ?_)
  rw [List.getElem?_map, hcall, Option.map_some] at hp
  obtain rfl := Option.some.inj hp
  refine .map (.execute hr (fun _ hc => nomatch hc) fun d failure hd hopened _ hend => ?_)
  exact Delivery.opened_ne_cancelled hd hopened _ _ (Except.error.inj (Outcome.answered.inj hend))

/-- Nothing is sent for a request after it was cancelled. If it fails for that reason, it has not
cleared the session, and what it has installed was opened by an answer. If no other call was on its
way, the session is the one from before or one that was opened so. -/
theorem cancelled_keeps_session {e : Endpoint} {shared : Shared} {calls : List Call} {t : Nat}
    {r : Request} {w : World Outcome} (hcall : calls[t]? = some (.execute r))
    (hr : r.cancellable = true) (h : (World.ofCalls e shared calls).Reaches w) :
    (∀ later m earlier, w.log = later ++ .sent t m :: earlier → .cancelled t ∉ earlier) ∧
    ∀ thread failure, w.threads[t]? = some thread →
      thread.result? = some (.answered (.error failure)) →
      failure = .ofCause (.cancelled r.method r.url.render) →
      failure.kind = .execute ∧ .touched t .clear ∉ w.log ∧
      (∀ later data earlier, w.log = later ++ .touched t (.install data) :: earlier →
        HasOpened e shared.options calls earlier t data) ∧
      (calls.length = 1 →
        (w.shared.session = shared.session ∨ ∃ later data earlier,
          w.log = later ++ .touched t (.install data) :: earlier ∧
          HasOpened e shared.options calls earlier t data ∧
          w.shared.session = ⟨data.sessionId, ⟨data.notifTopic, data.jobNotifTopic⟩⟩) ∧
        (shared.session.isAuthenticated = true → w.shared.session.isAuthenticated = true)) := by
  have hheeded := h.heeded_execute hcall hr
  obtain ⟨held, hkept⟩ := h.calls_kept
  refine ⟨hheeded.sent, ?_⟩
  rintro thread failure ht hresult rfl
  have hclear : .touched t .clear ∉ w.log := by
    intro hmem
    obtain ⟨cleared, hcleared, hheeds⟩ := hheeded.rest thread ht
    cases hrest : thread.rest with
    | perform step next => rw [Thread.result?, hrest] at hresult; cases hresult
    | done outcome =>
        rw [hrest] at hheeds
        rw [Thread.result?, hrest] at hresult
        exact hheeds (hcleared hmem) (Option.some.inj hresult)
  refine ⟨rfl, hclear, fun later data earlier hlog => hkept.hasOpened hlog, fun hone => ?_⟩
  -- What was written was written by this call, there being no other.
  have hmine {u : Nat} {d : Deed} (hmem : (u, d) ∈ history shared.session w.log)
      (hown : d.IsOwn) : u = t := by
    have hlawful := hkept.lawful
    obtain ⟨H, H', hsplit⟩ := List.append_of_mem hmem
    rw [hsplit] at hlawful
    obtain ⟨call, hu, -⟩ := rulesOf_iff.1 ((hlawful.of_append H).may hown)
    have hu := (List.getElem?_eq_some_iff.1 hu).1
    have ht := (List.getElem?_eq_some_iff.1 hcall).1
    omega
  rw [hkept.session]
  rcases History.session_cases shared.session (history shared.session w.log) with
    ⟨hfirst, -⟩ | ⟨-, u, hmem⟩ | ⟨u, data, hmem, hdata⟩
  · exact ⟨.inl hfirst, fun hauth => by rwa [hfirst]⟩
  · obtain rfl := hmine hmem trivial
    exact absurd (entry_of_history hmem) hclear
  · obtain rfl := hmine hmem trivial
    obtain ⟨later, earlier, hlog⟩ := List.append_of_mem (entry_of_history hmem)
    have hopened := hkept.hasOpened hlog
    refine ⟨.inr ⟨later, data, earlier, hlog, hopened, hdata⟩, fun _ => ?_⟩
    rw [hdata]
    exact Session.isAuthenticated_of_token? (Session.token?_ofLogon hopened.sessionId_ne)

/-- How the request of a call has failed. -/
def Outcome.failure? : Outcome → Option Failure
  | answered (.error failure) => some failure
  | _ => none

theorem Outcome.eq_of_failure? {outcome : Outcome} {failure : Failure}
    (h : outcome.failure? = some failure) : outcome = .answered (.error failure) := by
  unfold failure? at h
  split at h
  · rw [Option.some.inj h]
  · cases h

def Sample.cancellable : Request := { Sample.request with cancellable := true }

/-- A request whose session is rejected, and which is cancelled while a new one is opened, leaves
the client with the old one. -/
theorem cancelled_keeps_session_relogon : ∃ w : World Outcome,
    (World.ofCalls Sample.endpoint (Sample.shared "old") [.execute Sample.cancellable]).Reaches w ∧
    (w.threads[0]?.bind Thread.result?).bind Outcome.failure? =
      some (.ofCause (.cancelled Sample.cancellable.method Sample.cancellable.url.render)) ∧
    (∀ later m earlier, w.log = later ++ .sent 0 m :: earlier → .cancelled 0 ∉ earlier) ∧
    .touched 0 .clear ∉ w.log ∧ w.shared.session.token = "old" ∧
    w.shared.session.isAuthenticated = true := by
  have hrun : ((World.ofCalls Sample.endpoint (Sample.shared "old")
      [.execute Sample.cancellable]).run
      (Sample.advances 0 14 ++ [.deliver 0 Sample.rejecting] ++ Sample.advances 0 18 ++
        [.cancel 0] ++ Sample.advances 0 2)).map (fun w => (w.shared.session.token,
        (w.threads[0]?.bind Thread.result?).bind Outcome.failure?)) =
      some ("old", some (.ofCause
        (.cancelled Sample.cancellable.method Sample.cancellable.url.render))) := by
    decide +kernel
  obtain ⟨w, hw, hend⟩ := Option.map_eq_some_iff.1 hrun
  obtain ⟨htoken, hfailure⟩ := Prod.mk.inj hend
  have hreaches := World.Reaches.of_run hw
  obtain ⟨outcome, houtcome, hfailed⟩ := Option.bind_eq_some_iff.1 hfailure
  obtain ⟨thread, ht, hresult⟩ := Option.bind_eq_some_iff.1 houtcome
  rw [Outcome.eq_of_failure? hfailed] at hresult
  obtain ⟨hsent, hkept⟩ := cancelled_keeps_session (t := 0) rfl rfl hreaches
  obtain ⟨-, hclear, -, halone⟩ := hkept thread _ ht hresult rfl
  exact ⟨w, hreaches, hfailure, hsent, hclear, htoken, (halone rfl).2 (by decide)⟩

end HmcClient.Client
