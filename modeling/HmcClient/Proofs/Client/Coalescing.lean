import HmcClient.Proofs.Client.Aftermath
import HmcClient.Proofs.Client.Progress
import HmcClient.Proofs.Client.Turns

/-!
# What a logon is to those who wait

While one executed request logs on, others wait for the lock of the session. If the logon opens a
session, it serves them all. The queue of the lock is what makes this so: whoever could write over
the new session has to be let into the lock first, and those who stand in the queue have not yet
heard anything of that session. So it is still held when each of them is let in. `Waiting` is what
holds of an operation as long as it waits, and `Waited` is what every event keeps.

A logon that fails serves nobody but the request that sent it. The lock passes on a session or
none, and nothing else, so the next one to be let in alone tries for itself. The account is then
tried once for each request, and never twice for one.
-/

namespace HmcClient.Client

variable {user : Options}

/-! ## Those who wait together -/

/-- Whether an operation that waits for the lock of the session, those who stand before it and those
who are inside have not been told that the session with this id is not valid. -/
def Calm (H : History) (ahead : List (Nat × Access)) (t : Nat) (id : String) : Prop :=
  ∀ v, (v = t ∨ v ∈ ahead.map Prod.fst ∨ Deed.inside (H.of v) ≠ none) →
    ¬ Rejection (H.of v) (some id)

theorem rejection_of_cons {d : Deed} {deeds : List Deed} {token : Option String}
    (h : Rejection (d :: deeds) token) :
    Rejection deeds token ∨ ∃ m x, d = .heard m x ∧ m.token = token := by
  obtain ⟨m, x, hmem, htoken, hrejects⟩ := h
  rcases List.mem_cons.1 hmem with heq | hmem
  · exact .inr ⟨m, x, heq.symm, htoken⟩
  · exact .inl ⟨m, x, hmem, htoken, hrejects⟩

section

variable {e : Endpoint} {requests : List Request} {s₀ : Session} {A : Answers} {H : History}
  {ahead ahead' : List (Nat × Access)} {t v : Nat} {id : String} {d : Deed} {s : Session}

theorem Calm.cons {entry : Entry} (hcalm : Calm H ahead t id) (hsub : ahead' ⊆ ahead)
    (h : Executing e user requests s₀ A ((v, d) :: H)) (hdeed : entry.deed? s = some (v, d))
    (hpasses : World.Passes .session ahead t entry)
    (hqueued : v ∈ ahead'.map Prod.fst → ∀ m x, d ≠ .heard m x) :
    Calm ((v, d) :: H) ahead' t id := by
  have hmap : ∀ {v'}, v' ∈ ahead'.map Prod.fst → v' ∈ ahead.map Prod.fst :=
    fun hmem => List.map_subset _ hsub hmem
  intro v' hv' hrejection
  by_cases hvv : v = v'
  · subst hvv
    rw [History.of_cons_self] at hv' hrejection
    rcases rejection_of_cons hrejection with hold | ⟨m, x, rfl, htoken⟩
    · refine hcalm v ?_ hold
      rcases hv' with rfl | hmem | hinside
      · exact .inl rfl
      · exact .inr (.inl (hmap hmem))
      · cases d with
        | entered access =>
            obtain rfl : entry = .admitted v .session access := Entry.eq_of_deed hdeed
            exact .inr (.inl (List.mem_map.2 ⟨_, hpasses.admits v access rfl, rfl⟩))
        | left => exact absurd rfl hinside
        | dropped => exact absurd rfl hinside
        | _ => exact .inr (.inr hinside)
    · -- A message with a token was sent outside of the lock, and no answer comes to who waits.
      obtain ⟨⟨earlier, hsent⟩, -⟩ := h.fits
      rcases hv' with rfl | hmem | hinside
      · exact hpasses.spares _ _ hdeed
      · exact hqueued hmem m x rfl
      · obtain ⟨after, H', rfl, hearlier⟩ := History.split_of [] hsent
        have hout := Executing.inside_of_sent (h.before.of_append after) htoken
        rw [hearlier] at hout
        refine hinside ?_
        rw [hsent]
        exact hout
  · rw [History.of_cons_ne hvv] at hv' hrejection
    exact hcalm v' (hv'.imp_right (Or.imp_left hmap)) hrejection

theorem Calm.mono (h : Calm H ahead t id) (hsub : ahead' ⊆ ahead) : Calm H ahead' t id :=
  fun v hv => h v (hv.imp_right (Or.imp_left fun hmem => List.map_subset _ hsub hmem))

end

/-- What holds while an operation `t` waits, after `u` has opened a session. `l` is what the log
tells since then. -/
structure Waiting (s₀ : Session) (base : List Entry) (u : Nat) (m : Message) (d : Delivery)
    (data : LogonData) (t : Nat) (ahead : List (Nat × Access)) (l : List Entry) : Prop where
  calm : Calm (history s₀ (l ++ base)) ahead t data.sessionId
  since : ∃ L, history s₀ (l ++ base) = L ++ history s₀ base ∧ L.of t = [] ∧
    Fate s₀ u m d data L (history s₀ base)

/-- How far an operation has come that waited when `u` opened a session. -/
inductive Waited (s₀ : Session) (base : List Entry) (u : Nat) (m : Message) (d : Delivery)
    (data : LogonData) (t : Nat) (access : Access) (w : World Outcome) : Prop where
  | waits {ahead : List (Nat × Access)} {l : List Entry} (hlog : w.log = l ++ base)
    (hplace : w.Stands .session ahead t access) (h : Waiting s₀ base u m d data t ahead l)
  | enters {l₂ l₁ : List Entry}
    (hlog : w.log = l₂ ++ .admitted t .session access :: (l₁ ++ base))
    (h : Waiting s₀ base u m d data t [] l₁)
  | leaves {ahead : List (Nat × Access)} {l₂ l₁ : List Entry} {entry : Entry}
    (hlog : w.log = l₂ ++ entry :: (l₁ ++ base)) (hentry : entry = .gaveUp t ∨ entry = .dropped t)
    (h : Waiting s₀ base u m d data t ahead l₁)

section

variable {e : Endpoint} {requests : List Request} {s₀ : Session} {A : Answers} {base : List Entry}
  {u t : Nat} {r : Request} {m : Message} {d : Delivery} {data : LogonData} {access : Access}
  {w w' : World Outcome}

theorem Waiting.cons {ahead ahead' : List (Nat × Access)} {l : List Entry} {entry : Entry}
    (hwaiting : Waiting s₀ base u m d data t ahead l) (hr : requests[u]? = some r)
    (hplain : r.isLogon = false) (hlogon : m.request.isLogon = true) (hopened : d.opened = .ok data)
    (h : Executing e user requests s₀ A (history s₀ (entry :: (l ++ base))))
    (hsub : ahead' ⊆ ahead) (hpasses : World.Passes .session ahead t entry)
    (hqueued : ∀ v m d, entry = .delivered v m d → v ∉ ahead'.map Prod.fst) :
    Waiting s₀ base u m d data t ahead' (entry :: l) := by
  obtain ⟨hcalm, L, hL, hsilent, hfate⟩ := hwaiting
  cases hdeed : entry.deed? ((history s₀ (l ++ base)).session s₀) with
  | none =>
      have hsame : history s₀ (entry :: l ++ base) = history s₀ (l ++ base) :=
        history_cons_none hdeed
      refine ⟨?_, L, hsame.trans hL, hsilent, hfate⟩
      rw [hsame]
      exact hcalm.mono hsub
  | some deed =>
      obtain ⟨v, x⟩ := deed
      have hmore : history s₀ (entry :: l ++ base) = (v, x) :: history s₀ (l ++ base) :=
        history_cons_some hdeed
      have hlawful : Executing e user requests s₀ A ((v, x) :: history s₀ (l ++ base)) := hmore ▸ h
      have hvt : v ≠ t := by
        rintro rfl
        exact hpasses.spares _ _ hdeed
      refine ⟨?_, (v, x) :: L, by rw [hmore, hL]; rfl, ?_, ?_⟩
      · rw [hmore]
        refine hcalm.cons hsub hlawful hdeed hpasses fun hmem m' d' hheard => ?_
        subst hheard
        exact hqueued v m' d' (Entry.eq_of_deed hdeed) hmem
      · rw [History.of_cons_ne hvt]
        exact hsilent
      · rw [hL] at hlawful hcalm
        refine hfate.cons hlawful hr hplain hlogon hopened fun hinside => ?_
        exact hcalm v (.inr (.inr hinside))

theorem Waited.next {R : Nat → Rules} {Q : Nat → Account → Outcome → Prop} {held : World.Holdings}
    (hwaited : Waited s₀ base u m d data t access w) (hr : requests[u]? = some r)
    (hplain : r.isLogon = false) (hlogon : m.request.isLogon = true) (hopened : d.opened = .ok data)
    (hkept : w.Kept user R Q s₀ A held) {event : Event} (hnext : w.next event = some w')
    (h : Executing e user requests s₀ A (history s₀ w'.log)) :
    Waited s₀ base u m d data t access w' := by
  cases hwaited with
  | @waits ahead l hlog hplace hwaiting =>
      cases hplace.turn hkept.locking hnext with
      | @waits ahead' hsub hplace' hlog' =>
          rcases hlog' with hlog' | ⟨entry, hlog', hpasses⟩
          · exact .waits (hlog'.trans hlog) hplace' ⟨hwaiting.calm.mono hsub, hwaiting.since⟩
          · rw [hlog', hlog] at h
            refine .waits (by rw [hlog', hlog]; rfl) hplace' (hwaiting.cons hr hplain hlogon hopened
              h hsub hpasses fun v m' d' hentry hmem => ?_)
            have hqueued : v ∈ (w.locks .session).queue.map Prod.fst := by
              obtain ⟨behind, hqueue⟩ := hplace
              rw [hqueue, List.map_append]
              exact List.mem_append_left _ (List.map_subset _ hsub hmem)
            exact hkept.locking.not_delivered hnext hqueued m' d' (hentry ▸ hlog')
      | enters hfirst hlog' =>
          subst hfirst
          have hsplit : w'.log = [] ++ .admitted t .session access :: (l ++ base) := by
            rw [hlog', hlog]
            rfl
          exact .enters hsplit hwaiting
      | leaves hlog' =>
          obtain ⟨entry, hentry, hsplit⟩ : ∃ entry, (entry = .gaveUp t ∨ entry = .dropped t) ∧
              w'.log = [] ++ entry :: (l ++ base) := by
            rw [← hlog]
            exact hlog'.elim (fun h => ⟨_, .inl rfl, h⟩) fun h => ⟨_, .inr rfl, h⟩
          exact .leaves hsplit hentry hwaiting
  | @enters l₂ l₁ hlog hwaiting =>
      rcases World.next_log hnext with hlog' | ⟨entry, hlog'⟩
      · exact .enters (hlog'.trans hlog) hwaiting
      · rw [hlog, ← List.cons_append] at hlog'
        exact .enters hlog' hwaiting
  | @leaves ahead l₂ l₁ entry₁ hlog hentry hwaiting =>
      rcases World.next_log hnext with hlog' | ⟨entry, hlog'⟩
      · exact .leaves (hlog'.trans hlog) hentry hwaiting
      · rw [hlog, ← List.cons_append] at hlog'
        exact .leaves hlog' hentry hwaiting

end

/-! ## Logons in the log -/

namespace Entry

/-- Whose logon an entry tells to be answered, and how. -/
def logonAnswer? : Entry → Option (Nat × Delivery)
  | delivered t m d => if m.request.isLogon then some (t, d) else none
  | _ => none

def isLogonOf (t : Nat) : Entry → Bool
  | sent u m => u == t && m.request.isLogon
  | _ => false

def isRejection : Entry → Bool
  | delivered _ _ d => d.rejects
  | _ => false

theorem of_logonAnswer? {entry : Entry} {t : Nat} {d : Delivery}
    (h : entry.logonAnswer? = some (t, d)) :
    ∃ m, entry = .delivered t m d ∧ m.request.isLogon = true := by
  cases entry with
  | delivered u m d' =>
      rw [logonAnswer?] at h
      split at h
      · next hlogon =>
          obtain ⟨rfl, rfl⟩ := Prod.mk.inj (Option.some.inj h)
          exact ⟨m, rfl, hlogon⟩
      · cases h
  | _ => cases h

end Entry

/-- The lock that an operation waits for. -/
def Thread.awaited? {α : Type} (thread : Thread α) : Option (Lock × Access) :=
  match thread.rest with
  | .perform (.acquire lock access _) _ =>
    if !thread.dropped && thread.waiting then some (lock, access) else none
  | _ => none

theorem Thread.awaits_of_awaited? {α : Type} {thread : Thread α} {lock : Lock} {access : Access}
    (h : thread.awaited? = some (lock, access)) : thread.Awaits lock access := by
  unfold awaited? at h
  split at h
  · next lock' access' cancellable next hrest =>
      split at h
      · next hcan =>
          obtain ⟨rfl, rfl⟩ := Prod.mk.inj (Option.some.inj h)
          rw [Bool.and_eq_true, Bool.not_eq_true'] at hcan
          exact ⟨hcan.1, hcan.2, cancellable, next, hrest⟩
      · cases h
  · cases h

/-- What is seen of an operation in a run that comes to an answer to a logon and goes on. -/
structure Sighting where
  /-- Whose the answer is. -/
  answer : Option (Nat × Delivery)
  /-- What the operation waits for then. -/
  awaited : Option (Lock × Access)
  /-- How many sessions have been rejected by then. -/
  rejections : Nat
  /-- How many logons the operation has sent by then. -/
  early : Nat
  /-- How many logons the operation has sent in the end. -/
  late : Nat
  /-- The tokens that were sent in the end. -/
  carried : List (Nat × String)
  deriving DecidableEq

def World.watch (w : World Outcome) (t : Nat) (before after : List Event) : Option Sighting := do
  let w₁ ← w.run before
  let w₂ ← w₁.run after
  return ⟨w₁.log.head?.bind Entry.logonAnswer?, w₁.threads[t]?.bind Thread.awaited?,
    w₁.log.countP Entry.isRejection, w₁.log.countP (Entry.isLogonOf t),
    w₂.log.countP (Entry.isLogonOf t), w₂.log.filterMap Entry.carried?⟩

theorem World.of_watch {start : World Outcome} {u t : Nat} {d : Delivery} {access : Access}
    {before after : List Event} {rejections early late : Nat} {carried : List (Nat × String)}
    (h : start.watch t before after =
      some ⟨some (u, d), some (.session, access), rejections, early, late, carried⟩) :
    ∃ (w w' : World Outcome) (m : Message) (log₀ : List Entry) (thread : Thread Outcome),
      start.Reaches w ∧ w.log = .delivered u m d :: log₀ ∧ m.request.isLogon = true ∧
      w.threads[t]? = some thread ∧ thread.Awaits .session access ∧ w.Reaches w' ∧
      w.log.countP Entry.isRejection = rejections ∧ w.log.countP (Entry.isLogonOf t) = early ∧
      w'.log.countP (Entry.isLogonOf t) = late ∧ w'.log.filterMap Entry.carried? = carried := by
  obtain ⟨w, hw, h⟩ := Option.bind_eq_some_iff.1 h
  obtain ⟨w', hw', h⟩ := Option.bind_eq_some_iff.1 h
  simp only [Option.pure_def, Option.some.injEq, Sighting.mk.injEq] at h
  obtain ⟨hanswer, hawaited, hrejections, hearly, hlate, hcarried⟩ := h
  obtain ⟨entry, hentry, hanswer⟩ := Option.bind_eq_some_iff.1 hanswer
  obtain ⟨m, rfl, hlogon⟩ := Entry.of_logonAnswer? hanswer
  obtain ⟨log₀, hlog⟩ := List.head?_eq_some_iff.1 hentry
  obtain ⟨thread, ht, hawaited⟩ := Option.bind_eq_some_iff.1 hawaited
  exact ⟨w, w', m, log₀, thread, .of_run hw, hlog, hlogon, ht, thread.awaits_of_awaited? hawaited,
    .of_run hw', hrejections, hearly, hlate, hcarried⟩

/-! ## What comes of a logon -/

/-- What comes of an operation `t` that waited for the lock of the session when `u` had a session
opened. `l` is what the log tells since then. -/
inductive Served (s₀ : Session) (base : List Entry) (u : Nat) (data : LogonData) (t : Nat)
    (r : Request) (access : Access) (w : World Outcome) (l : List Entry) : Prop where
  /-- It still waits. The world is then not at rest. -/
  | waits {thread : Thread Outcome} (ht : w.threads[t]? = some thread)
    (hawaits : thread.Awaits .session access) (hbusy : ¬ w.Resting)
    (hsilent : ∀ m, .sent t m ∉ l)
  /-- It was cancelled or dropped while it waited. -/
  | leaves (hgone : .gaveUp t ∈ l ∨ .dropped t ∈ l) (hsilent : ∀ m, .sent t m ∉ l)
  /-- It was let in and the new session was held. What it sends first is its request, and in the new
  session unless somebody has written over that since. -/
  | proceeds {l₂ l₁ : List Entry} (hl : l = l₂ ++ .admitted t .session access :: l₁)
    (hsilent : ∀ m, .sent t m ∉ l₁) (hinstalled : .touched u (.install data) ∈ l₁)
    (hheld : sessionAfter s₀ (l₁ ++ base) = .ofLogon data)
    (hsends : ∀ later m earlier, l₂ = later ++ .sent t m :: earlier →
      (∀ m', .sent t m' ∉ earlier) → m.request = r ∧
        ((∀ v touch, IsWrite touch → .touched v touch ∉ earlier) → m.token = some data.sessionId))
  /-- It was let in, but the session was lost with the operation that had it opened. -/
  | bereft {l₂ l₁ : List Entry} (hl : l = l₂ ++ .admitted t .session access :: l₁)
    (hnone : ∀ data', .touched u (.install data') ∉ l₁) (hgone : .gaveUp u ∈ l₁ ∨ .dropped u ∈ l₁)

/-- What comes of a logon of `u` that has failed. `l` is what the log tells since then. -/
structure Failed (s₀ : Session) (requests : List Request) (base : List Entry) (u : Nat)
    (failure : Failure) (w : World Outcome) (l : List Entry) : Prop where
  /-- Its operation sends nothing more. -/
  silent : ∀ m, .sent u m ∉ l
  /-- The failure is what its operation ends with. -/
  result : ∀ thread, w.threads[u]? = some thread → thread.dropped = false → .gaveUp u ∉ l →
    (∀ outcome, thread.result? = some outcome → outcome = .answered (.error failure)) ∧
      (w.Resting → thread.result?.isSome = true)
  /-- Whoever is let in alone before somebody opens a session finds none and sends a logon of its
  own. -/
  repeated : ∀ t r l₂ l₁, requests[t]? = some r → r.isLogon = false →
    l = l₂ ++ .admitted t .session .exclusive :: l₁ → (∀ v data, .touched v (.install data) ∉ l₁) →
    .gaveUp u ∉ l₁ → .dropped u ∉ l₁ →
      (sessionAfter s₀ (l₁ ++ base)).isAuthenticated = false ∧
      (∀ later m earlier, l₂ = later ++ .sent t m :: earlier → (∀ m', .sent t m' ∉ earlier) →
        m.request.isLogon = true) ∧
      (.released t .session ∈ l₂ → (∃ m, .sent t m ∈ l₂) ∨ .gaveUp t ∈ w.log)

section

variable {e : Endpoint} {shared : Shared} {requests : List Request} {base l : List Entry}
  {u t : Nat} {r : Request} {m : Message} {d : Delivery} {data : LogonData} {access : Access}
  {w w' : World Outcome}

/-- How each of several executed requests ends. -/
def SettlesOf (requests : List Request) (t : Nat) (g : Account) (outcome : Outcome) : Prop :=
  ∃ call : Call, (requests.map Call.execute)[t]? = some call ∧ call.Settles g outcome

theorem SettlesOf.held {g : Account} {outcome : Outcome} (h : SettlesOf requests t g outcome) :
    g.held = [] := by
  obtain ⟨_, _, hend⟩ := h
  exact hend.1

theorem World.Reaches.watched (h : (World.ofCalls e shared (requests.map .execute)).Reaches w) :
    ∃ held, w.Kept shared.options (.each (Call.watched e shared.options) (requests.map .execute))
      (SettlesOf requests) shared.session (fun _ _ _ => True) held :=
  h.each_kept (Call.follows_watched e)

theorem World.Reaches.executing
    (h : (World.ofCalls e shared (requests.map .execute)).Reaches w) :
    Executing e shared.options requests shared.session (fun _ _ _ => True)
      (history shared.session w.log) := by
  obtain ⟨held, hkept⟩ := h.watched
  exact hkept.lawful

theorem Waited.of_reaches (h : (World.ofCalls e shared (requests.map .execute)).Reaches w)
    (hr : requests[u]? = some r) (hplain : r.isLogon = false) (hlogon : m.request.isLogon = true)
    (hopened : d.opened = .ok data) (hlater : w.Reaches w')
    (hwaited : Waited shared.session base u m d data t access w) :
    Waited shared.session base u m d data t access w' := by
  induction hlater with
  | refl w => exact hwaited
  | step event hnext rest ih =>
      obtain ⟨held, hkept⟩ := h.watched
      have h' := h.snoc hnext
      exact ih h' (hwaited.next hr hplain hlogon hopened hkept hnext h'.executing)

/-- What held when an entry of the log was written. -/
theorem World.Reaches.told {later log : List Entry} {entry : Entry} {deed : Nat × Deed}
    (h : (World.ofCalls e shared (requests.map .execute)).Reaches w)
    (hlog : w.log = later ++ entry :: log) (hdeed : ∀ s, entry.deed? s = some deed) :
    Executing e shared.options requests shared.session (fun _ _ _ => True)
      (deed :: history shared.session log) := by
  have hlawful := h.executing
  obtain ⟨H, hH⟩ := @history_append shared.session (entry :: log) later
  rw [hlog, hH, history_cons_some (hdeed _)] at hlawful
  exact hlawful.of_append H

/-- Nothing is sent by who is gone. -/
theorem World.Reaches.not_gone {later log : List Entry} {m' : Message}
    (h : (World.ofCalls e shared (requests.map .execute)).Reaches w)
    (hlog : w.log = later ++ .sent t m' :: log) (ht : requests[t]? = some r)
    (hplain : r.isLogon = false) : .gaveUp t ∉ log ∧ .dropped t ∉ log := by
  have hsent := h.told hlog fun _ => rfl
  refine ⟨fun hmem => ?_, fun hmem => ?_⟩
  · have hstays := (Executing.rules hsent ht hplain trivial).1.1
    exact hstays (History.mem_of.2 (mem_history hmem fun _ => rfl))
  · cases hsent with
    | cons _ hlive _ _ => exact hlive (History.mem_of.2 (mem_history hmem fun _ => rfl))

/-- Who has heard of its logon knows the session that is held. -/
theorem World.Reaches.informed {later log₀ : List Entry}
    (h : (World.ofCalls e shared (requests.map .execute)).Reaches w)
    (hlog : w.log = later ++ .delivered u m d :: log₀) (hr : requests[u]? = some r)
    (hplain : r.isLogon = false) (hlogon : m.request.isLogon = true) :
    Informed m d
      (History.session shared.session (history shared.session (.delivered u m d :: log₀)))
      (History.of (history shared.session (.delivered u m d :: log₀)) u) := by
  have hinformed := Informed.of_heard (h.told hlog fun _ => rfl) hr hplain hlogon
  rw [history_cons_some rfl, History.of_cons_self]
  exact hinformed

/-! ### One that has opened a session -/

/-- An operation has sent nothing while it waited. -/
theorem Waiting.silent {s₀ : Session} {ahead : List (Nat × Access)}
    (h : Waiting s₀ base u m d data t ahead l) (m' : Message) : .sent t m' ∉ l := by
  intro hmem
  obtain ⟨-, L, hL, hsilent, -⟩ := h
  have hsent : (t, .sent m') ∈ L := mem_of_history_append hL hmem fun _ => rfl
  rw [← History.mem_of, hsilent] at hsent
  cases hsent

/-- Nor does it send anything after it has gone. -/
theorem Waiting.silent_of_gone {ahead : List (Nat × Access)} {l₂ l₁ : List Entry} {entry : Entry}
    (hwaiting : Waiting shared.session base u m d data t ahead l₁)
    (h : (World.ofCalls e shared (requests.map .execute)).Reaches w)
    (hlog : w.log = l₂ ++ entry :: (l₁ ++ base)) (hentry : entry = .gaveUp t ∨ entry = .dropped t)
    (ht : requests[t]? = some r) (hplain : r.isLogon = false) (m' : Message) :
    .sent t m' ∉ l₂ ++ entry :: l₁ := by
  intro hmem
  rcases List.mem_append.1 hmem with hmem | hmem
  · obtain ⟨after, before, rfl⟩ := List.append_of_mem hmem
    rw [List.append_assoc, List.cons_append] at hlog
    obtain ⟨hstays, hlive⟩ := h.not_gone hlog ht hplain
    rcases hentry with rfl | rfl
    · exact hstays (by simp)
    · exact hlive (by simp)
  · rcases List.mem_cons.1 hmem with rfl | hmem
    · rcases hentry with heq | heq <;> cases heq
    · exact hwaiting.silent m' hmem

/-- What an operation sends first after it was let in while the new session was held. -/
theorem Waiting.sends {ahead : List (Nat × Access)} {l₁ later earlier : List Entry} {m' : Message}
    (hwaiting : Waiting shared.session base u m d data t ahead l₁)
    (hlogons : ∀ m : Message, m.IsLogonOf e shared.options none → m.request.isLogon = true)
    (h : (World.ofCalls e shared (requests.map .execute)).Reaches w)
    (ht : requests[t]? = some r) (hplain : r.isLogon = false) (hopened : d.opened = .ok data)
    (hheld : (history shared.session (l₁ ++ base)).session shared.session = .ofLogon data)
    (hlog : w.log = later ++ .sent t m' ::
      (earlier ++ .admitted t .session access :: (l₁ ++ base)))
    (hfirst : ∀ m'', .sent t m'' ∉ earlier) :
    m'.request = r ∧
      ((∀ v touch, IsWrite touch → .touched v touch ∉ earlier) →
        m'.token = some data.sessionId) := by
  have hsent := h.told hlog fun _ => rfl
  obtain ⟨E, hE⟩ :=
    @history_append shared.session (.admitted t .session access :: (l₁ ++ base)) earlier
  have hin : history shared.session (.admitted t .session access :: (l₁ ++ base)) =
      (t, .entered access) :: history shared.session (l₁ ++ base) := history_cons_some rfl
  rw [hE, hin] at hsent
  have hid : ((history shared.session (l₁ ++ base)).session shared.session).token? =
      some data.sessionId := by
    rw [hheld]
    exact Delivery.token?_of_opened hopened
  obtain ⟨hrequest, htoken⟩ := Executing.request_of_first_sent hsent ht hplain hlogons hid
    (hwaiting.calm t (.inl rfl))
    fun m'' hmem => hfirst m'' (entry_of_history_append hE (History.mem_of.1 hmem))
  refine ⟨hrequest, fun hquiet => htoken fun deed hdeed hwrite => ?_⟩
  obtain ⟨v, x⟩ := deed
  have hentry := entry_of_history_append hE hdeed
  cases x with
  | installed data' => exact hquiet v (.install data') trivial hentry
  | cleared => exact hquiet v .clear trivial hentry
  | _ => exact hwrite

/-- What comes of an operation that was let in. -/
theorem Waiting.served {l₂ l₁ : List Entry}
    (hwaiting : Waiting shared.session base u m d data t [] l₁)
    (hlogons : ∀ m : Message, m.IsLogonOf e shared.options none → m.request.isLogon = true)
    (h : (World.ofCalls e shared (requests.map .execute)).Reaches w)
    (ht : requests[t]? = some r) (hplain : r.isLogon = false) (hopened : d.opened = .ok data)
    (hlog : w.log = l₂ ++ .admitted t .session access :: (l₁ ++ base)) :
    Served shared.session base u data t r access w (l₂ ++ .admitted t .session access :: l₁) := by
  obtain ⟨L, hL, -, hfate⟩ := hwaiting.since
  cases hfate with
  | pending hinformed hnone =>
      -- Nobody is let in while the operation that has opened the session is alone inside.
      exfalso
      have hinside := hinformed.inside
      rw [← hL] at hinside
      exact (h.told hlog fun _ => rfl).not_alone_of_entered u hinside
  | held hmem hsession =>
      rw [← hL] at hsession
      refine .proceeds rfl hwaiting.silent (entry_of_history_append hL hmem) ?_ ?_
      · rw [← session_history]
        exact hsession
      · rintro later m' earlier rfl hfirst
        rw [List.append_assoc, List.cons_append] at hlog
        exact hwaiting.sends hlogons h ht hplain hopened hsession hlog hfirst
  | lost hnone hgone =>
      refine .bereft rfl (fun data' hmem => ?_) ?_
      · exact hnone data' (mem_of_history_append hL hmem fun _ => rfl)
      · exact hgone.imp (entry_of_history_append hL) (entry_of_history_append hL)

theorem Waited.served
    (hlogons : ∀ m : Message, m.IsLogonOf e shared.options none → m.request.isLogon = true)
    (h : (World.ofCalls e shared (requests.map .execute)).Reaches w)
    (ht : requests[t]? = some r) (hplain : r.isLogon = false) (hopened : d.opened = .ok data)
    (hl : w.log = l ++ base) (hwaited : Waited shared.session base u m d data t access w) :
    Served shared.session base u data t r access w l := by
  have hsame : ∀ {entry : Entry} {l₂ l₁ : List Entry},
      w.log = l₂ ++ entry :: (l₁ ++ base) → l = l₂ ++ entry :: l₁ := by
    intro entry l₂ l₁ hlog
    refine List.append_cancel_right (hl.symm.trans (hlog.trans ?_))
    rw [List.append_assoc, List.cons_append]
  cases hwaited with
  | @waits ahead l' hlog hplace hwaiting =>
      obtain rfl : l' = l := List.append_cancel_right (hlog.symm.trans hl)
      obtain ⟨held, hkept⟩ := h.watched
      obtain ⟨thread, hthread, hawaits⟩ := hplace.awaits hkept.locking
      refine .waits hthread hawaits (fun hrest => ?_) hwaiting.silent
      obtain ⟨behind, hqueue⟩ := hplace
      rw [hrest.queue_eq_nil hkept (fun _ _ _ => SettlesOf.held) 4 .session (by decide)] at hqueue
      simp at hqueue
  | @leaves ahead l₂ l₁ entry hlog hentry hwaiting =>
      obtain rfl := hsame hlog
      refine .leaves ?_ (hwaiting.silent_of_gone h hlog hentry ht hplain)
      rcases hentry with rfl | rfl
      · exact .inl (by simp)
      · exact .inr (by simp)
  | @enters l₂ l₁ hlog hwaiting =>
      obtain rfl := hsame hlog
      exact hwaiting.served hlogons h ht hplain hopened hlog

/-! ### One that has failed -/

/-- What an operation does first that was let in alone when there was no session. -/
theorem World.Reaches.logs_on {log later earlier : List Entry} {entry : Entry} {x : Deed}
    (h : (World.ofCalls e shared (requests.map .execute)).Reaches w)
    (hlog : w.log = later ++ entry :: (earlier ++ .admitted t .session .exclusive :: log))
    (hdeed : ∀ s, entry.deed? s = some (t, x)) (ht : requests[t]? = some r)
    (hplain : r.isLogon = false)
    (hnone : (sessionAfter shared.session log).isAuthenticated = false) :
    (∃ m, .sent t m ∈ earlier) ∨ .gaveUp t ∈ earlier ++ .admitted t .session .exclusive :: log ∨
      (∃ s, x = .read s) ∨ (∃ m, x = .sent m ∧ m.IsLogonOf e shared.options none) ∨
      x = .gaveUp ∨ x = .dropped := by
  have htold := h.told hlog hdeed
  obtain ⟨E, hE⟩ := @history_append shared.session (.admitted t .session .exclusive :: log) earlier
  have hin : history shared.session (.admitted t .session .exclusive :: log) =
      (t, .entered .exclusive) :: history shared.session log := history_cons_some rfl
  have hentry : ∀ {d : Deed}, d ∈ E.of t → d.entry t ∈ earlier :=
    fun hmem => entry_of_history_append hE (History.mem_of.1 hmem)
  rw [hE, hin] at htold
  rw [← session_history] at hnone
  rcases Executing.looks_or_sends htold.before ht hplain hnone with
    hreads | ⟨m, hm⟩ | hstop | hdropped
  · rcases Executing.next_of_entered htold ht hplain hnone hreads with
      hread | hsent | ⟨-, hstop⟩ | hgave | hdrop
    · exact .inr (.inr (.inl hread))
    · exact .inr (.inr (.inr (.inl hsent)))
    · refine .inr (.inl (List.mem_append_right _ (List.mem_cons_of_mem _ ?_)))
      exact entry_of_history (History.mem_of.1 hstop)
    · exact .inr (.inr (.inr (.inr (.inl hgave))))
    · exact .inr (.inr (.inr (.inr (.inr hdrop))))
  · exact .inl ⟨m, hentry hm⟩
  · rw [← hin, ← hE] at hstop
    exact .inr (.inl (entry_of_history (History.mem_of.1 hstop)))
  · cases htold with
    | cons _ hlive _ _ =>
        refine absurd ?_ hlive
        rw [History.of_append]
        exact List.mem_append_left _ hdropped

/-- Who is let in alone when there is no session sends a logon, if it sends anything. -/
theorem World.Reaches.isLogon_of_first_sent {log later earlier : List Entry} {m' : Message}
    (h : (World.ofCalls e shared (requests.map .execute)).Reaches w)
    (hlogons : ∀ m : Message, m.IsLogonOf e shared.options none → m.request.isLogon = true)
    (hlog : w.log = later ++ .sent t m' :: (earlier ++ .admitted t .session .exclusive :: log))
    (ht : requests[t]? = some r) (hplain : r.isLogon = false)
    (hnone : (sessionAfter shared.session log).isAuthenticated = false)
    (hfirst : ∀ m'', .sent t m'' ∉ earlier) : m'.request.isLogon = true := by
  rcases h.logs_on hlog (fun _ => rfl) ht hplain hnone with
    ⟨m'', hmem⟩ | hgave | ⟨s, heq⟩ | ⟨m'', heq, hm⟩ | heq | heq
  · exact absurd hmem (hfirst m'')
  · exact absurd hgave (h.not_gone hlog ht hplain).1
  · cases heq
  · cases heq
    exact hlogons m' hm
  · cases heq
  · cases heq

/-- It does not give back the lock before it has sent one, unless it gives up. -/
theorem World.Reaches.sent_of_released {log later : List Entry}
    (h : (World.ofCalls e shared (requests.map .execute)).Reaches w)
    (hlog : w.log = later ++ .admitted t .session .exclusive :: log)
    (ht : requests[t]? = some r) (hplain : r.isLogon = false)
    (hnone : (sessionAfter shared.session log).isAuthenticated = false)
    (hleft : .released t .session ∈ later) : (∃ m, .sent t m ∈ later) ∨ .gaveUp t ∈ w.log := by
  obtain ⟨after, before, rfl⟩ := List.append_of_mem hleft
  rw [List.append_assoc, List.cons_append] at hlog
  rcases h.logs_on hlog (fun _ => rfl) ht hplain hnone with
    ⟨m', hmem⟩ | hgave | ⟨s, heq⟩ | ⟨m', heq, -⟩ | heq | heq
  · exact .inl ⟨m', by simp [hmem]⟩
  · refine .inr ?_
    rw [hlog]
    exact List.mem_append_right _ (List.mem_cons_of_mem _ hgave)
  · cases heq
  · cases heq
  · cases heq
  · cases heq

section

variable {log₀ : List Entry} {failure : Failure}
  (h : (World.ofCalls e shared (requests.map .execute)).Reaches w)
  (hr : requests[u]? = some r) (hplain : r.isLogon = false) (hlogon : m.request.isLogon = true)
  (hfailed : d.opened = .error failure)

include h hr hplain hlogon hfailed

/-- An operation whose logon has failed ends with that failure, if it does not give up. -/
theorem World.Reaches.answered_of_failed (hl : w.log = l ++ .delivered u m d :: log₀)
    {thread : Thread Outcome} (hthread : w.threads[u]? = some thread)
    (hlive : thread.dropped = false) (hstays : .gaveUp u ∉ l) {outcome : Outcome}
    (houtcome : thread.result? = some outcome) : outcome = .answered (.error failure) := by
  obtain ⟨held, hkept⟩ := h.watched
  obtain ⟨call, hcall, -, hsettles⟩ := hkept.ended hthread hlive houtcome
  rw [List.getElem?_map, hr] at hcall
  obtain rfl := Option.some.inj hcall
  obtain ⟨result, rfl, hsettled⟩ := hsettles r rfl hplain
  have hmem : (u, .heard m d) ∈ history shared.session w.log := by
    rw [hl]
    exact mem_history (List.mem_append_right _ List.mem_cons_self) fun _ => rfl
  rcases hsettled m d failure (History.mem_of.2 hmem) hlogon hfailed with hstop | rfl
  · obtain ⟨L, hL⟩ := @history_append shared.session (.delivered u m d :: log₀) l
    rw [hl, hL, History.of_append] at hstop
    rcases List.mem_append.1 hstop with hstop | hstop
    · exact absurd (entry_of_history_append hL (History.mem_of.1 hstop)) hstays
    · exact absurd hstop (h.informed hl hr hplain hlogon).goesOn
  · rfl

/-- Nobody is let in alone while a session is held that a failed logon should have replaced. -/
theorem World.Reaches.none_of_failed {l₂ l₁ : List Entry}
    (hlog : w.log = l₂ ++ .admitted t .session .exclusive :: (l₁ ++ .delivered u m d :: log₀))
    (hnone : ∀ v data, .touched v (.install data) ∉ l₁) (hgave : .gaveUp u ∉ l₁)
    (hdropped : .dropped u ∉ l₁) :
    (sessionAfter shared.session (l₁ ++ .delivered u m d :: log₀)).isAuthenticated = false := by
  have hin := h.told hlog fun _ => rfl
  have hsplit : w.log = (l₂ ++ .admitted t .session .exclusive :: l₁) ++
      .delivered u m d :: log₀ := by
    rw [hlog, List.append_assoc, List.cons_append]
  obtain ⟨L, hL⟩ := @history_append shared.session (.delivered u m d :: log₀) l₁
  rw [← session_history, hL]
  rw [hL] at hin
  rcases Informed.none_of_failed hin.before hr hplain hlogon hfailed
    (h.informed hsplit hr hplain hlogon) rfl
    (fun v data hmem => hnone v data (entry_of_history_append hL hmem))
    ⟨fun hmem => hgave (entry_of_history_append hL hmem),
      fun hmem => hdropped (entry_of_history_append hL hmem)⟩ with ⟨hstill, -⟩ | hempty
  · -- The operation whose logon has failed is still alone inside, so nobody is let in.
    exact absurd hstill.inside (hin.not_alone_of_entered u)
  · exact hempty

theorem Failed.of_log
    (hlogons : ∀ m : Message, m.IsLogonOf e shared.options none → m.request.isLogon = true)
    (hl : w.log = l ++ .delivered u m d :: log₀) :
    Failed shared.session requests (.delivered u m d :: log₀) u failure w l where
  silent m' hmem := by
    obtain ⟨after, before, rfl⟩ := List.append_of_mem hmem
    rw [List.append_assoc, List.cons_append] at hl
    exact Executing.not_sent (h.told hl fun _ => rfl) hr hplain hlogon hfailed
      (mem_history (List.mem_append_right _ List.mem_cons_self) fun _ => rfl)
  result thread hthread hlive hstays := by
    refine ⟨fun outcome houtcome =>
      h.answered_of_failed hr hplain hlogon hfailed hl hthread hlive hstays houtcome,
      fun hrest => ?_⟩
    obtain ⟨held, hkept⟩ := h.watched
    have hover := hrest.isOver hkept (fun _ _ _ => SettlesOf.held) hthread
    rwa [Thread.isOver, hlive, Bool.false_or] at hover
  repeated t r' l₂ l₁ ht hplain' hsplit hnone hgave hdropped := by
    subst hsplit
    rw [List.append_assoc, List.cons_append] at hl
    have hempty := h.none_of_failed hr hplain hlogon hfailed hl hnone hgave hdropped
    refine ⟨hempty, ?_, h.sent_of_released hl ht hplain' hempty⟩
    rintro later m' earlier rfl hfirst
    rw [List.append_assoc, List.cons_append] at hl
    exact h.isLogon_of_first_sent hlogons hl ht hplain' hempty hfirst

end

/-- A logon that opens a session is shared by those who wait, and one that fails is not.

If it succeeds, every call that waits for the lock of the session at that moment sends no logon of
its own: it is let in with the new session and goes on with its request. That is so unless the call
that had the session opened is cancelled or dropped before it has installed it, or the console gives
an id that it has rejected before.

If it fails, the call that sent it ends with its failure and leaves no session. Those who wait do
not hear of it. Whoever is let in alone next finds no session and logs on. -/
theorem logon_outcome {idna : Idna} {text : String} {log₀ : List Entry}
    (he : Endpoint.parse idna text = .ok e)
    (h : (World.ofCalls e shared (requests.map .execute)).Reaches w)
    (hu : requests[u]? = some r) (hplain : r.isLogon = false) (hlogon : m.request.isLogon = true)
    (hlog : w.log = .delivered u m d :: log₀) (hlater : w.Reaches w') :
    ∃ l, w'.log = l ++ w.log ∧
      (∀ data, d.opened = .ok data →
        (∀ v m₀ d₀, .delivered v m₀ d₀ ∈ w.log → m₀.token = some data.sessionId →
          d₀.rejects = false) →
        ∀ t r' thread access, requests[t]? = some r' → r'.isLogon = false →
          w.threads[t]? = some thread → thread.Awaits .session access →
          Served shared.session w.log u data t r' access w' l) ∧
      ∀ failure, d.opened = .error failure →
        Failed shared.session requests w.log u failure w' l := by
  have hlogons : ∀ m : Message, m.IsLogonOf e shared.options none → m.request.isLogon = true :=
    fun m hm => hm.isLogon he
  have h' := h.trans hlater
  obtain ⟨l, hl⟩ := hlater.log_append
  refine ⟨l, hl, fun data hopened hfresh t r' thread access ht hplain' hthread hawaits => ?_,
    fun failure hfailed => ?_⟩
  · obtain ⟨held, hkept⟩ := h.watched
    obtain ⟨ahead, hplace⟩ := World.Stands.of_awaits hkept.locking hthread hawaits
    have hinformed := h.informed (hlog.trans (List.nil_append _).symm) hu hplain hlogon
    rw [← hlog] at hinformed
    have hcalm : Calm (history shared.session w.log) ahead t data.sessionId := by
      rintro v - ⟨m₀, d₀, hmem, htoken, hrejects⟩
      rw [hfresh v m₀ d₀ (delivered_of_heard hmem) htoken] at hrejects
      cases hrejects
    have hwaiting : Waiting shared.session w.log u m d data t ahead [] :=
      ⟨hcalm, [], rfl, rfl, .pending hinformed fun _ hmem => absurd hmem List.not_mem_nil⟩
    have hwaited : Waited shared.session w.log u m d data t access w := .waits rfl hplace hwaiting
    exact (hwaited.of_reaches h hu hplain hlogon hopened hlater).served hlogons h' ht hplain'
      hopened hl
  · rw [hlog] at hl ⊢
    exact .of_log h' hu hplain hlogon hfailed hlogons hl

end

/-- Two requests find no session. The second waits for the logon of the first, and sends none of its
own if that succeeds. -/
theorem logon_outcome_shared : ∃ (w w' : World Outcome) (data : LogonData) (l : List Entry),
    (World.ofCalls Sample.endpoint (Sample.shared "")
      ([Sample.request, Sample.request].map .execute)).Reaches w ∧ w.Reaches w' ∧
    w'.log = l ++ w.log ∧ data.sessionId = "s1" ∧
    Served Session.none w.log 0 data 1 Sample.request .exclusive w' l ∧
    w'.log.countP (Entry.isLogonOf 1) = 0 ∧
    w'.log.filterMap Entry.carried? = [(1, "s1"), (0, "s1")] := by
  have hrun : (World.ofCalls Sample.endpoint (Sample.shared "")
      ([Sample.request, Sample.request].map .execute)).watch 1
        (Sample.advances 0 4 ++ Sample.advances 1 4 ++ Sample.advances 0 13 ++
          Sample.advances 1 1 ++ [.deliver 0 Sample.opening])
        (Sample.advances 0 12 ++ Sample.advances 1 4 ++ Sample.advances 0 9 ++
          Sample.advances 1 9) =
      some ⟨some (0, Sample.opening), some (.session, .exclusive), 0, 0, 0,
        [(1, "s1"), (0, "s1")]⟩ := by decide +kernel
  obtain ⟨w, w', m, log₀, thread, hw, hlog, hlogon, ht, hawaits, hw', hrejections, -, hcount⟩ :=
    World.of_watch hrun
  have hids : Sample.opening.opened.toOption.map (·.sessionId) = some "s1" := by decide +kernel
  obtain ⟨data, hdata, hid⟩ := Option.map_eq_some_iff.1 hids
  have hopened := Delivery.opened_of_mem hdata
  have hfresh : ∀ v m₀ d₀, .delivered v m₀ d₀ ∈ w.log → m₀.token = some data.sessionId →
      d₀.rejects = false := by
    intro v m₀ d₀ hmem _
    exact Bool.eq_false_iff.2 (List.countP_eq_zero.1 hrejections _ hmem)
  obtain ⟨l, hl, hserved, -⟩ := logon_outcome Sample.parse_endpoint hw
    (show [Sample.request, Sample.request][0]? = _ from rfl) (by decide +kernel) hlogon hlog hw'
  exact ⟨w, w', data, l, hw, hw', hl, hid, hserved data hopened hfresh 1 Sample.request thread
    .exclusive rfl (by decide +kernel) ht hawaits, hcount⟩

/-! ## Logons that are not shared -/

/-- Whether a call can wait for the lock of the session when a logon of another call is answered in
a certain way, and send a logon of its own later. -/
def LogsOnAnyway (P : Delivery → Prop) (start : World Outcome) : Prop :=
  ∃ (w w' : World Outcome) (u t : Nat) (m : Message) (d : Delivery) (log₀ : List Entry)
    (thread : Thread Outcome) (access : Access),
    start.Reaches w ∧ w.log = .delivered u m d :: log₀ ∧ m.request.isLogon = true ∧ P d ∧
    w.threads[t]? = some thread ∧ thread.Awaits .session access ∧ w.Reaches w' ∧
    w.log.countP (Entry.isLogonOf t) < w'.log.countP (Entry.isLogonOf t)

theorem LogsOnAnyway.of_watch {P : Delivery → Prop} {start : World Outcome} {u t : Nat}
    {d : Delivery} {access : Access} {before after : List Event} {rejections early late : Nat}
    {carried : List (Nat × String)} (h : start.watch t before after =
      some ⟨some (u, d), some (.session, access), rejections, early, late, carried⟩)
    (hP : P d) (hmore : early < late) : LogsOnAnyway P start := by
  obtain ⟨w, w', m, log₀, thread, hw, hlog, hlogon, ht, hawaits, hw', -, rfl, rfl, -⟩ :=
    World.of_watch h
  exact ⟨w, w', u, t, m, d, log₀, thread, access, hw, hlog, hlogon, hP, ht, hawaits, hw', hmore⟩

/-- Not every logon is shared by those who wait. One that fails is not, nor one whose call is
cancelled before it has installed the session, nor one that is given the id of the session that was
just rejected. -/
theorem waiting_call_logs_on :
    LogsOnAnyway (fun d => d.opened.isOk = false) (World.ofCalls Sample.endpoint (Sample.shared "")
      ([Sample.request, Sample.request].map .execute)) ∧
    LogsOnAnyway (fun d => d.opened.isOk = true) (World.ofCalls Sample.endpoint (Sample.shared "")
      ([{ Sample.request with cancellable := true }, Sample.request].map .execute)) ∧
    LogsOnAnyway (fun d => d.opened.isOk = true) (World.ofCalls Sample.endpoint (Sample.shared "s1")
      ([Sample.request, Sample.request].map .execute)) := by
  -- Both look first, then the one logs on and the other begins to wait.
  have hfailed : (World.ofCalls Sample.endpoint (Sample.shared "")
      ([Sample.request, Sample.request].map .execute)).watch 1
        (Sample.advances 0 4 ++ Sample.advances 1 4 ++ Sample.advances 0 13 ++
          Sample.advances 1 1 ++ [.deliver 0 Sample.rejecting])
        (Sample.advances 0 10 ++ Sample.advances 1 12) =
      some ⟨some (0, Sample.rejecting), some (.session, .exclusive), 1, 0, 1, []⟩ := by
    decide +kernel
  have hcancelled : (World.ofCalls Sample.endpoint (Sample.shared "")
      ([{ Sample.request with cancellable := true }, Sample.request].map .execute)).watch 1
        (Sample.advances 0 4 ++ Sample.advances 1 4 ++ Sample.advances 0 13 ++
          Sample.advances 1 1 ++ [.deliver 0 Sample.opening])
        ([.cancel 0] ++ Sample.advances 0 2 ++ Sample.advances 1 12) =
      some ⟨some (0, Sample.opening), some (.session, .exclusive), 0, 0, 1, []⟩ := by decide +kernel
  have hrepeated : (World.ofCalls Sample.endpoint (Sample.shared "s1")
      ([Sample.request, Sample.request].map .execute)).watch 1
        (Sample.advances 0 14 ++ Sample.advances 1 14 ++
          [.deliver 0 Sample.rejecting, .deliver 1 Sample.rejecting] ++ Sample.advances 0 18 ++
          Sample.advances 1 6 ++ [.deliver 0 Sample.opening])
        (Sample.advances 0 12 ++ Sample.advances 1 12) =
      some ⟨some (0, Sample.opening), some (.session, .exclusive), 2, 0, 1,
        [(1, "s1"), (0, "s1")]⟩ := by decide +kernel
  exact ⟨.of_watch hfailed (by decide +kernel) Nat.one_pos,
    .of_watch hcancelled (by decide +kernel) Nat.one_pos,
    .of_watch hrepeated (by decide +kernel) Nat.one_pos⟩

end HmcClient.Client
