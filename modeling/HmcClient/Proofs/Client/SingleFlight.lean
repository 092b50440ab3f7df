import HmcClient.Proofs.Client.Flight
import HmcClient.Proofs.Client.Progress

/-!
# One logon for many requests

Requests that are executed at once, and find that there is no session or that the console no longer
knows it, log on once and share the session. This holds of every interleaving. Any of them may be
cancelled or dropped at any moment, and a logon that is lost in that way is the only reason for
another one.

The operations that have sent a logon are counted. `Single` is what every deed keeps: none has sent
two, and all but one are gone. The one that is not gone has installed its session, or is alone
inside the lock of the session and owes it.
-/

namespace HmcClient.Client

variable {user : Options}

/-! ## One logon -/

/-- The operations that have sent a logon, one for each logon. -/
def History.senders (H : History) : List Nat :=
  H.filterMap fun
    | (t, .sent m) => if m.request.isLogon then some t else none
    | _ => none

def History.installs (H : History) : Nat :=
  H.countP fun
    | (_, .installed _) => true
    | _ => false

/-- Whether an operation has given up or has been dropped. -/
def Gone (deeds : List Deed) : Prop := .gaveUp ∈ deeds ∨ .dropped ∈ deeds

theorem Gone.cons {deeds : List Deed} (h : Gone deeds) (d : Deed) : Gone (d :: deeds) :=
  h.imp (List.mem_cons_of_mem d) (List.mem_cons_of_mem d)

/-- No operation sends two logons. Of those that have sent one, all but one are gone. As long as
nothing is installed, one that is not gone is on its way to do so. -/
structure Single (H : History) : Prop where
  once : H.senders.Nodup
  one : ∀ t ∈ H.senders, ∀ u ∈ H.senders, ¬ Gone (H.of t) → ¬ Gone (H.of u) → t = u
  pending : (∀ t data, (t, .installed data) ∉ H) → ∀ t ∈ H.senders, ¬ Gone (H.of t) →
    Deed.inside (H.of t) = some .exclusive ∧ Deed.owes (H.of t) = true
  installs : H.installs ≤ 1

namespace Single

variable {H : History} {t : Nat} {d : Deed}

theorem nil : Single [] where
  once := List.nodup_nil
  one _ ht := nomatch ht
  pending _ _ ht := nomatch ht
  installs := Nat.zero_le 1

theorem not_gone_of_cons {u : Nat} (h : ¬ Gone (History.of ((t, d) :: H) u)) : ¬ Gone (H.of u) := by
  intro hgone
  by_cases hut : t = u
  · subst hut
    rw [History.of_cons_self] at h
    exact h (hgone.cons d)
  · rw [History.of_cons_ne hut] at h
    exact h hgone

/-- A deed that neither sends a logon nor installs. -/
theorem plain (h : Single H) (hsenders : History.senders ((t, d) :: H) = H.senders)
    (hinstalls : ∀ data, d ≠ .installed data)
    (hpending : (∀ t data, (t, .installed data) ∉ H) → ¬ Gone (d :: H.of t) →
      Deed.inside (H.of t) = some .exclusive → Deed.owes (H.of t) = true →
      Deed.inside (d :: H.of t) = some .exclusive ∧ Deed.owes (d :: H.of t) = true) :
    Single ((t, d) :: H) where
  once := by rw [hsenders]; exact h.once
  one u hu v hv hgone hgone' := by
    rw [hsenders] at hu hv
    exact h.one u hu v hv (not_gone_of_cons hgone) (not_gone_of_cons hgone')
  pending hnone u hu hgone := by
    rw [hsenders] at hu
    have hnone' : ∀ t data, (t, .installed data) ∉ H :=
      fun t data hmem => hnone t data (List.mem_cons_of_mem _ hmem)
    have hold := h.pending hnone' u hu (not_gone_of_cons hgone)
    by_cases hut : t = u
    · subst hut
      rw [History.of_cons_self] at hgone ⊢
      exact hpending hnone' hgone hold.1 hold.2
    · rw [History.of_cons_ne hut]
      exact hold
  installs := by
    have : History.installs ((t, d) :: H) = H.installs := by
      rw [History.installs, List.countP_cons_of_neg, ← History.installs]
      cases d with
      | installed data => exact absurd rfl (hinstalls data)
      | _ => exact Bool.false_ne_true
    rw [this]
    exact h.installs

end Single

namespace Flight

variable {e : Endpoint} {requests : List Request} {s₀ : Session} {A : Answers} {H : History}
  {t : Nat}

/-- A logon is sent by one that has not sent any, and all who have are gone. -/
theorem single_sent (hf : Flight e user requests s₀ A) {m : Message}
    (h : Lawful (rulesOf e user (requests.map .execute)) s₀ A ((t, .sent m) :: H)) (hs : Single H)
    (hm : m.request.isLogon = true) : Single ((t, .sent m) :: H) := by
  have hbefore : Lawful (rulesOf e user (requests.map .execute)) s₀ A H := h.before
  obtain ⟨-, hgoes, s, before, hdeeds, hyields⟩ := hf.of_logon h hm
  have hseen : H.session s₀ = s := (hbefore.session_of_seen (by rw [hdeeds]; rfl)).1
  have hinside : Deed.inside (H.of t) = some .exclusive := by rw [hdeeds]; rfl
  have hnone := hf.of_yields hbefore (by rw [hdeeds]; exact List.subset_append_right [_, _] before)
    (hseen ▸ hyields)
  -- Whoever has sent a logon and is not gone is alone inside the lock too, but owes its logon.
  have hgone : ∀ u ∈ H.senders, Gone (H.of u) := by
    intro u hu
    refine Classical.byContradiction fun hgone => ?_
    obtain ⟨hin, howes⟩ := hs.pending hnone u hu hgone
    by_cases hut : u = t
    · rw [hut, hdeeds] at howes
      cases howes
    · rw [hbefore.inside_eq_none hinside hut] at hin
      cases hin
  have hlive : ¬ Gone (H.of t) := by
    rintro (hstop | hdropped)
    · exact hgoes hstop
    · cases h with
      | cons _ hlive _ _ => exact hlive hdropped
  have hsenders : History.senders ((t, .sent m) :: H) = t :: H.senders := by
    simp [History.senders, hm]
  refine ⟨?_, ?_, ?_, hs.installs⟩
  · rw [hsenders]
    exact List.nodup_cons.2 ⟨fun hmem => hlive (hgone t hmem), hs.once⟩
  · have honly : ∀ u ∈ t :: H.senders, ¬ Gone (History.of ((t, .sent m) :: H) u) → u = t := by
      intro u hu hlive'
      rcases List.mem_cons.1 hu with hut | hu
      · exact hut
      · exact absurd (hgone u hu) (Single.not_gone_of_cons hlive')
    rw [hsenders]
    intro u hu v hv hu' hv'
    rw [honly u hu hu', honly v hv hv']
  · rw [hsenders]
    intro _ u hu hlive'
    rcases List.mem_cons.1 hu with rfl | hu
    · rw [History.of_cons_self]
      exact ⟨hinside, hm⟩
    · exact absurd (hgone u hu) (Single.not_gone_of_cons hlive')

/-- The first to have its logon answered installs it. -/
theorem single_installed (hf : Flight e user requests s₀ A) {data : LogonData}
    (h : Lawful (rulesOf e user (requests.map .execute)) s₀ A ((t, .installed data) :: H))
    (hs : Single H) : Single ((t, .installed data) :: H) := by
  have hbefore : Lawful (rulesOf e user (requests.map .execute)) s₀ A H := h.before
  obtain ⟨r, -, -, m, status, headers, body, s, before, hdeeds, hm, hdata, hyields⟩ :=
    hf.rules (h.may trivial)
  have hseen : H.session s₀ = s := (hbefore.session_of_seen (by rw [hdeeds]; rfl)).1
  have hnone := hf.of_yields hbefore
    (by rw [hdeeds]; exact List.subset_append_right [_, _, _, _] before) (hseen ▸ hyields)
  refine ⟨hs.once, fun u hu v hv hgone hgone' => hs.one u hu v hv
    (Single.not_gone_of_cons hgone) (Single.not_gone_of_cons hgone'),
    fun hnone' => absurd List.mem_cons_self (hnone' t data), ?_⟩
  have hzero : H.installs = 0 := by
    rw [History.installs, List.countP_eq_zero]
    rintro ⟨u, d⟩ hmem
    cases d with
    | installed data => exact absurd hmem (hnone u data)
    | _ => exact Bool.false_ne_true
  have hone : History.installs ((t, .installed data) :: H) = H.installs + 1 :=
    List.countP_cons_of_pos rfl
  omega

/-- In every history at most one session is installed, and the logons but for one were sent by
operations that are gone. -/
theorem single (hf : Flight e user requests s₀ A)
    (h : Lawful (rulesOf e user (requests.map .execute)) s₀ A H) : Single H := by
  induction h with
  | nil => exact .nil
  | @cons H t d h hlive hfits hmay ih =>
      have hlawful := Lawful.cons h hlive hfits hmay
      cases d with
      | entered access =>
          refine ih.plain rfl (by simp) fun _ _ hinside _ => ?_
          cases access with
          | shared => exact absurd hinside (hfits t)
          | exclusive => rw [hfits t] at hinside; cases hinside
      | left =>
          refine ih.plain rfl (by simp) fun _ hgone _ howes => ?_
          obtain ⟨r, -, -, hrule⟩ := hf.rules (hmay trivial)
          rcases hrule with hsettled | hstop
          · rw [hsettled] at howes
            cases howes
          · exact absurd (.inl (List.mem_cons_of_mem _ hstop)) hgone
      | read s => exact ih.plain rfl (by simp) fun _ _ hinside howes => ⟨hinside, howes⟩
      | installed data => exact hf.single_installed hlawful ih
      | cleared => exact absurd List.mem_cons_self (hf.not_cleared hlawful)
      | sent m =>
          cases hm : m.request.isLogon with
          | true => exact hf.single_sent hlawful ih hm
          | false =>
              refine ih.plain (by simp [History.senders, hm]) (by simp) fun _ _ hinside _ => ?_
              obtain ⟨r, s, before, -, -, -, -, hdeeds, -⟩ := hf.of_plain hlawful hm
              rw [hdeeds] at hinside
              cases hinside
      | heard m d =>
          refine ih.plain rfl (by simp) fun _ _ hinside howes => ⟨hinside, ?_⟩
          obtain ⟨⟨earlier, hdeeds⟩, -, hanswer⟩ := hfits
          have hm : m.request.isLogon = true := by rwa [hdeeds] at howes
          obtain ⟨data, hdata, -⟩ := hf.opens H m d hanswer hm
          rw [Deed.owes, hdata, howes]
          rfl
      | gaveUp =>
          exact ih.plain rfl (by simp) fun _ hgone _ _ => absurd (.inl List.mem_cons_self) hgone
      | dropped =>
          exact ih.plain rfl (by simp) fun _ hgone _ _ => absurd (.inr List.mem_cons_self) hgone

theorem senders_ne_nil (hf : Flight e user requests s₀ A)
    (h : Lawful (rulesOf e user (requests.map .execute)) s₀ A H) {data : LogonData}
    (hmem : (t, .installed data) ∈ H) : H.senders ≠ [] := by
  obtain ⟨after, H', rfl⟩ := List.append_of_mem hmem
  obtain ⟨r, -, -, m, status, headers, body, s, before, hdeeds, hm, -, -⟩ :=
    hf.rules ((h.of_append after).may trivial)
  have hsent : (t, .sent m) ∈ H' := History.mem_of.1 (by rw [hdeeds]; simp)
  refine List.ne_nil_of_mem (a := t) (List.mem_filterMap.2 ⟨(t, .sent m), by simp [hsent], ?_⟩)
  exact if_pos (hf.logons m hm)

end Flight

/-! ## Counting in logs -/

namespace Entry

def isLogon : Entry → Bool
  | .sent _ m => m.request.isLogon
  | _ => false

def isInstall : Entry → Bool
  | .touched _ (.install _) => true
  | _ => false

end Entry

/-- The messages other than logons that an operation has sent, the latest first. -/
def usesOf (t : Nat) (log : List Entry) : List Message :=
  log.filterMap fun
    | .sent u m => if u = t ∧ m.request.isLogon = false then some m else none
    | _ => none

def Thread.isAbandoned {α : Type} (thread : Thread α) : Bool := thread.cancelled || thread.dropped

theorem history_cons (s₀ : Session) (entry : Entry) (log : List Entry) :
    history s₀ (entry :: log) =
      (entry.deed? ((history s₀ log).session s₀)).toList ++ history s₀ log := by
  rw [history]
  split
  · next deed hdeed => rw [hdeed]; rfl
  · next hnone => rw [hnone]; rfl

theorem Entry.isLogon_deed? (s : Session) (entry : Entry) :
    (History.senders (entry.deed? s).toList).length = [entry].countP isLogon := by
  cases entry with
  | touched t touch => cases touch <;> rfl
  | admitted t lock access => cases lock <;> rfl
  | released t lock => cases lock <;> rfl
  | sent t m => cases hm : m.request.isLogon <;> simp [deed?, History.senders, isLogon, hm]
  | _ => rfl

theorem Entry.isInstall_deed? (s : Session) (entry : Entry) :
    History.installs (entry.deed? s).toList = [entry].countP isInstall := by
  cases entry with
  | touched t touch => cases touch <;> rfl
  | admitted t lock access => cases lock <;> rfl
  | released t lock => cases lock <;> rfl
  | _ => rfl

theorem Entry.uses_deed? (s : Session) (entry : Entry) (t : Nat) :
    Deed.uses (History.of (entry.deed? s).toList t) = usesOf t [entry] := by
  -- Only messages are told, so for all other deeds it does not matter whose they are.
  have hother : ∀ (u : Nat) (d : Deed), (∀ m, d ≠ .sent m) →
      Deed.uses (History.of [(u, d)] t) = [] := by
    intro u d hd
    by_cases hut : u = t
    · subst hut
      rw [History.of_cons_self]
      cases d with
      | sent m => exact absurd rfl (hd m)
      | _ => rfl
    · rw [History.of_cons_ne hut]
      rfl
  cases entry with
  | touched u touch =>
      cases touch with
      | session => exact hother _ _ (by simp)
      | install data => exact hother _ _ (by simp)
      | clear => exact hother _ _ (by simp)
      | _ => rfl
  | admitted u lock access =>
      cases lock with
      | session => exact hother _ _ (by simp)
      | _ => rfl
  | released u lock =>
      cases lock with
      | session => exact hother _ _ (by simp)
      | _ => rfl
  | sent u m =>
      by_cases hut : u = t
      · cases hm : m.request.isLogon <;> simp [deed?, History.of, Deed.uses, usesOf, hut, hm]
      · simp [deed?, History.of, Deed.uses, usesOf, hut]
  | cancelled u => rfl
  | delivered u m d => exact hother _ _ (by simp)
  | gaveUp u => exact hother _ _ (by simp)
  | dropped u => exact hother _ _ (by simp)

theorem countP_isLogon (s₀ : Session) (log : List Entry) :
    log.countP Entry.isLogon = (history s₀ log).senders.length := by
  induction log with
  | nil => rfl
  | cons entry log ih =>
      rw [history_cons, History.senders, List.filterMap_append, List.length_append,
        ← History.senders, ← History.senders, Entry.isLogon_deed?, ← ih,
        ← List.countP_append]
      rfl

theorem countP_isInstall (s₀ : Session) (log : List Entry) :
    log.countP Entry.isInstall = (history s₀ log).installs := by
  induction log with
  | nil => rfl
  | cons entry log ih =>
      rw [history_cons, History.installs, List.countP_append, ← History.installs,
        ← History.installs, Entry.isInstall_deed?, ← ih, ← List.countP_append]
      rfl

theorem usesOf_eq (s₀ : Session) (log : List Entry) (t : Nat) :
    usesOf t log = Deed.uses ((history s₀ log).of t) := by
  induction log with
  | nil => rfl
  | cons entry log ih =>
      have happend : ∀ H H' : History, Deed.uses (History.of (H ++ H') t) =
          Deed.uses (H.of t) ++ Deed.uses (H'.of t) := by
        intro H H'
        simp only [History.of, Deed.uses, List.filterMap_append]
      rw [history_cons, happend, Entry.uses_deed?, ← ih, usesOf, usesOf, usesOf,
        ← List.filterMap_append]
      rfl

/-- Different operations of a kind are no more than there are of the kind. -/
theorem length_le_countP {α : Type} {threads : List (Thread α)} {p : Thread α → Bool}
    {ts : List Nat} (honce : ts.Nodup)
    (h : ∀ t ∈ ts, ∃ thread, threads[t]? = some thread ∧ p thread = true) :
    ts.length ≤ threads.countP p := by
  have hcount : ∀ threads : List (Thread α), threads.countP p =
      ((List.range threads.length).filter fun t => (threads[t]?).any p).length := by
    intro threads
    induction threads with
    | nil => rfl
    | cons thread rest ih =>
        rw [List.length_cons, List.range_succ_eq_map, List.filter_cons, List.filter_map,
          List.countP_cons, ih]
        simp only [List.getElem?_cons_zero, Option.any_some, Function.comp_def,
          List.getElem?_cons_succ]
        split <;> simp
  rw [hcount]
  refine honce.length_le_of_subset fun t ht => ?_
  obtain ⟨thread, hthread, hp⟩ := h t ht
  refine List.mem_filter.2 ⟨List.mem_range.2 ?_, ?_⟩
  · exact (List.getElem?_eq_some_iff.1 hthread).1
  · simp [hthread, hp]

/-- All but one of different operations are no more than there are of a kind, if all but one are of
the kind. -/
theorem length_le_succ_countP {α : Type} {threads : List (Thread α)} {p : Thread α → Bool}
    {ts : List Nat} {P : Nat → Prop} (honce : ts.Nodup)
    (hone : ∀ t ∈ ts, ∀ u ∈ ts, ¬ P t → ¬ P u → t = u)
    (h : ∀ t ∈ ts, P t → ∃ thread, threads[t]? = some thread ∧ p thread = true) :
    ts.length ≤ 1 + threads.countP p := by
  classical
  have hrest : (ts.filter fun t => P t).length ≤ threads.countP p := by
    refine length_le_countP (honce.filter _) fun t ht => ?_
    obtain ⟨hmem, hP⟩ := List.mem_filter.1 ht
    exact h t hmem (of_decide_eq_true hP)
  have hfew : (ts.filter fun t => !decide (P t)).length ≤ 1 := by
    match hlist : ts.filter fun t => !decide (P t) with
    | [] => exact Nat.zero_le 1
    | [t] => exact Nat.le_refl 1
    | t :: u :: others =>
        have hnodup := honce.filter fun t => !decide (P t)
        have hmem : ∀ v ∈ t :: u :: others, v ∈ ts ∧ ¬ P v := by
          intro v hv
          rw [← hlist] at hv
          simpa using List.mem_filter.1 hv
        rw [hlist] at hnodup
        have ht := hmem t (by simp)
        have hu := hmem u (by simp)
        have heq := hone t ht.1 u hu.1 ht.2 hu.2
        simp [heq] at hnodup
  have hsum := List.length_eq_countP_add_countP (fun t => decide (P t)) (l := ts)
  simp only [List.countP_eq_length_filter, decide_not, decide_eq_true_eq] at hsum
  omega

/-! ## The console -/

/-- Whether an entry tells that a logon has opened a session with an id. -/
def Entry.opens (id : String) : Entry → Bool
  | .delivered _ m d => m.request.isLogon && d.opened.toOption.any (·.sessionId == id)
  | _ => false

def OpenedWith (log : List Entry) (id : String) : Prop := ∃ entry ∈ log, entry.opens id = true

/-- How a console answers that opens a new session for every logon, accepts every session that it
has opened, and no longer knows the one that the client holds at first. -/
structure Obliging (s₀ : Session) (log : List Entry) (m : Message) (d : Delivery) : Prop where
  opens : m.request.isLogon = true → ∃ data ∈ d.opened.toOption,
    Sendable data.sessionId ∧ s₀.token? ≠ some data.sessionId ∧ ¬ OpenedWith log data.sessionId
  accepts : m.request.isLogon = false → ∀ id ∈ m.token, OpenedWith log id → d.isRegular = true
  rejects : m.request.isLogon = false → s₀.isAuthenticated = true → m.token = s₀.token? →
    d.rejects = true

instance (log : List Entry) (id : String) : Decidable (OpenedWith log id) :=
  inferInstanceAs (Decidable (∃ entry ∈ log, entry.opens id = true))

instance (s₀ : Session) (log : List Entry) (m : Message) (d : Delivery) :
    Decidable (Obliging s₀ log m d) :=
  decidable_of_iff (
    (m.request.isLogon = true → ∃ data ∈ d.opened.toOption, Sendable data.sessionId ∧
      s₀.token? ≠ some data.sessionId ∧ ¬ OpenedWith log data.sessionId) ∧
    (m.request.isLogon = false → ∀ id ∈ m.token, OpenedWith log id → d.isRegular = true) ∧
    (m.request.isLogon = false → s₀.isAuthenticated = true → m.token = s₀.token? →
      d.rejects = true))
    ⟨fun h => ⟨h.1, h.2.1, h.2.2⟩, fun h => ⟨h.opens, h.accepts, h.rejects⟩⟩

def obligingAnswers (s₀ : Session) : Answers :=
  fun H m d => ∃ log, history s₀ log = H ∧ Obliging s₀ log m d

theorem flight_of_obliging {idna : Idna} {text : String} {e : Endpoint}
    (he : Endpoint.parse idna text = .ok e) {requests : List Request}
    (hplain : ∀ r ∈ requests, r.isLogon = false) (s₀ : Session) :
    Flight e user requests s₀ (obligingAnswers s₀) where
  logons m hm := hm.isLogon he
  plain := hplain
  opens H m d := by
    rintro ⟨log, -, hobliging⟩ hm
    obtain ⟨data, hdata, hsendable, hfresh, -⟩ := hobliging.opens hm
    exact ⟨data, Delivery.opened_of_mem hdata, hfresh, hsendable⟩
  accepts H m d id := by
    rintro ⟨log, rfl, hobliging⟩ hm htoken ⟨t, m', d', data, hmem, hm', hdata, hid⟩
    refine Delivery.of_isRegular (hobliging.accepts hm id htoken ⟨.delivered t m' d', ?_, ?_⟩)
    · exact delivered_of_heard (History.mem_of.2 hmem)
    · simpa [Entry.opens, hm', hdata, Except.toOption] using hid
  rejects H m d := by
    rintro ⟨log, -, hobliging⟩ hm hauth htoken
    exact hobliging.rejects hm hauth htoken

/-! ## Every run -/

/-- How the call that executes a request has to end: with a regular answer, unless the content type
of the request cannot be sent. -/
def Answered (r : Request) (outcome : Outcome) : Prop :=
  (Sendable r.effectiveContentType → ∃ response, outcome = .answered (.ok response)) ∧
    (¬ Sendable r.effectiveContentType →
      outcome = .answered (.error (.ofCause (.invalidHeader "content-type"))))

section

variable {e : Endpoint} {shared : Shared} {requests : List Request} {w : World Outcome}
  {held : World.Holdings} {A : Answers} {t : Nat} {r : Request} {thread : Thread Outcome}
  {outcome : Outcome}

theorem exists_thread {P : List Entry → Message → Delivery → Prop}
    (h : World.Leads P (World.ofCalls e shared (requests.map .execute)) w)
    (hr : requests[t]? = some r) : ∃ thread : Thread Outcome, w.threads[t]? = some thread := by
  have hlength := h.length
  simp only [World.ofCalls, World.start, List.length_map] at hlength
  refine ⟨_, List.getElem?_eq_getElem ?_⟩
  rw [hlength]
  exact (List.getElem?_eq_some_iff.1 hr).1

variable (hf : Flight e user requests shared.session A)
  (h : w.Kept user (rulesOf e user (requests.map .execute)) (endsOf e user (requests.map .execute))
    shared.session A held)

include h

theorem result_of_resting (hrest : w.Resting) (ht : w.threads[t]? = some thread)
    (hlive : thread.dropped = false) : ∃ outcome, thread.result? = some outcome := by
  have hover := hrest.isOver h (fun t g outcome hend => by
    obtain ⟨call, -, hleft⟩ := hend
    exact hleft.1) ht
  rw [Thread.isOver, hlive, Bool.false_or] at hover
  exact Option.isSome_iff_exists.1 hover

include hf

theorem concluded_of_result (hr : requests[t]? = some r) (ht : w.threads[t]? = some thread)
    (hlive : thread.dropped = false) (houtcome : thread.result? = some outcome) :
    ∃ result, outcome = .answered result ∧
      Concluded e user r ((history shared.session w.log).of t) result := by
  have hstands := h.stands t thread ht hlive
  cases hrest : thread.rest with
  | perform step next => rw [Thread.result?, hrest] at houtcome; cases houtcome
  | done outcome' =>
      rw [Thread.result?, hrest] at houtcome
      cases houtcome
      rw [Thread.stands_iff (by rw [Thread.message?, hrest]), hrest] at hstands
      obtain ⟨call, hcall, hleft⟩ := hstands
      rw [List.getElem?_map, hr] at hcall
      cases hcall
      exact hleft.2 r rfl (hf.plain r (List.mem_of_getElem? hr))

/-- What a call ends with that was neither cancelled nor dropped. It is a regular answer only if
somebody has installed a session. -/
theorem answered_of_result (hfirst : ∀ id, shared.session.token? = some id → Sendable id)
    (hr : requests[t]? = some r) (ht : w.threads[t]? = some thread)
    (habandoned : thread.isAbandoned = false) (houtcome : thread.result? = some outcome) :
    Answered r outcome ∧ (Sendable r.effectiveContentType ∨ shared.session.isAuthenticated = false →
      ∃ u data, (u, .installed data) ∈ history shared.session w.log) := by
  obtain ⟨hcancelled, hlive⟩ := Bool.or_eq_false_iff.1 habandoned
  obtain ⟨result, rfl, hconcluded⟩ := concluded_of_result hf h hr ht hlive houtcome
  have hstays : .gaveUp ∉ (history shared.session w.log).of t := by
    intro hstop
    obtain ⟨other, hother, hyes⟩ := h.gaveUp t hstop
    rw [ht] at hother
    cases hother
    rw [hcancelled] at hyes
    cases hyes
  obtain ⟨hgood, hbad, hopens⟩ := hf.of_concluded h.lawful hfirst hr hstays hconcluded
  refine ⟨⟨fun hs => ?_, fun hs => by rw [hbad hs]⟩, hopens⟩
  obtain ⟨response, rfl⟩ := hgood hs
  exact ⟨response, rfl⟩

theorem countP_isLogon_le :
    w.log.countP Entry.isLogon ≤ 1 + w.threads.countP Thread.isAbandoned := by
  have hsingle := hf.single h.lawful
  rw [countP_isLogon shared.session]
  refine length_le_succ_countP hsingle.once hsingle.one fun t _ hgone => ?_
  rcases hgone with hstop | hdropped
  · obtain ⟨thread, ht, hyes⟩ := h.gaveUp t hstop
    exact ⟨thread, ht, by rw [Thread.isAbandoned, hyes, Bool.true_or]⟩
  · obtain ⟨thread, ht, hyes⟩ := h.dropped t hdropped
    exact ⟨thread, ht, by rw [Thread.isAbandoned, hyes, Bool.or_true]⟩

theorem usesOf_le (hr : requests[t]? = some r) :
    (∀ m ∈ usesOf t w.log, m.request = r) ∧ (usesOf t w.log).length ≤ 2 ∧
      ∀ second first, usesOf t w.log = [second, first] →
        shared.session.isAuthenticated = true ∧ first.token = shared.session.token? := by
  rw [usesOf_eq shared.session]
  obtain ⟨hown, hcases⟩ := hf.uses_cases h.lawful hr
  refine ⟨hown, ?_⟩
  rcases hcases with huses | ⟨m, huses⟩ | ⟨m, m₁, huses, hstale⟩
  · rw [huses]
    exact ⟨Nat.zero_le 2, by simp⟩
  · rw [huses]
    exact ⟨Nat.le_succ 1, by simp⟩
  · rw [huses]
    refine ⟨Nat.le_refl 2, fun second first heq => ?_⟩
    cases heq
    exact hstale

theorem countP_isLogon_pos {u : Nat} {data : LogonData}
    (hinstalled : (u, .installed data) ∈ history shared.session w.log) :
    0 < w.log.countP Entry.isLogon := by
  rw [countP_isLogon shared.session]
  exact List.length_pos_iff.2 (hf.senders_ne_nil h.lawful hinstalled)

end

/-- Requests that find no session, or one that the console no longer knows, share one logon. However
they run and whichever of them are cancelled or dropped: at most one session is installed; for every
logon but one an operation was cancelled or dropped; a request is sent at most twice, and twice only
if it was sent in the session held at first; and who has not been cancelled gets a regular answer.
The run comes to an end, and if nobody was cancelled, there was exactly one logon. -/
theorem single_flight {idna : Idna} {text : String} {e : Endpoint}
    (he : Endpoint.parse idna text = .ok e)
    {shared : Shared} {requests : List Request} (hplain : ∀ r ∈ requests, r.isLogon = false)
    (hfirst : ∀ id, shared.session.token? = some id → Sendable id) {w : World Outcome}
    (h : World.Leads (Obliging shared.session)
      (World.ofCalls e shared (requests.map .execute)) w) :
    w.log.countP Entry.isInstall ≤ 1 ∧
    w.log.countP Entry.isLogon ≤ 1 + w.threads.countP Thread.isAbandoned ∧
    (∀ t r, requests[t]? = some r →
      (∀ m ∈ usesOf t w.log, m.request = r) ∧ (usesOf t w.log).length ≤ 2 ∧
      ∀ second first, usesOf t w.log = [second, first] →
        shared.session.isAuthenticated = true ∧ first.token = shared.session.token?) ∧
    (∀ (t : Nat) r, requests[t]? = some r → ∃ thread : Thread Outcome,
      w.threads[t]? = some thread ∧ (thread.isAbandoned = false →
        (∀ outcome, thread.result? = some outcome → Answered r outcome) ∧
        (w.Resting → ∃ outcome, thread.result? = some outcome))) ∧
    Acc (fun w' w => w.Progresses w') w ∧
    (w.Resting → w.threads.countP Thread.isAbandoned = 0 →
      (∃ r ∈ requests, Sendable r.effectiveContentType ∨ shared.session.isAuthenticated = false) →
      w.log.countP Entry.isLogon = 1) := by
  have hf : Flight e shared.options requests shared.session (obligingAnswers shared.session) :=
    flight_of_obliging he hplain shared.session
  obtain ⟨held, hkept⟩ := h.calls_kept (A := obligingAnswers shared.session)
    fun log m d hP => ⟨log, rfl, hP⟩
  have hlogons := countP_isLogon_le hf hkept
  refine ⟨?_, hlogons, fun t r hr => usesOf_le hf hkept hr, ?_, World.progresses_wf.apply w, ?_⟩
  · rw [countP_isInstall shared.session]
    exact (hf.single hkept.lawful).installs
  · intro t r hr
    obtain ⟨thread, ht⟩ := exists_thread h hr
    refine ⟨thread, ht, fun habandoned => ⟨fun outcome houtcome => ?_, fun hrest => ?_⟩⟩
    · exact (answered_of_result hf hkept hfirst hr ht habandoned houtcome).1
    · exact result_of_resting hkept hrest ht (Bool.or_eq_false_iff.1 habandoned).2
  · rintro hrest hnobody ⟨r, hmem, hopens⟩
    obtain ⟨t, hr⟩ := List.getElem?_of_mem hmem
    obtain ⟨thread, ht⟩ := exists_thread h hr
    have habandoned : thread.isAbandoned = false :=
      Bool.eq_false_iff.2 (List.countP_eq_zero.1 hnobody thread (List.mem_of_getElem? ht))
    obtain ⟨outcome, houtcome⟩ :=
      result_of_resting hkept hrest ht (Bool.or_eq_false_iff.1 habandoned).2
    obtain ⟨u, data, hinstalled⟩ :=
      (answered_of_result hf hkept hfirst hr ht habandoned houtcome).2 hopens
    have hsome := countP_isLogon_pos hf hkept hinstalled
    omega

/-- Two requests whose session is rejected share one logon. -/
theorem single_flight_pair : ∃ w : World Outcome,
    World.Leads (Obliging (Sample.shared "old").session)
      (World.ofCalls Sample.endpoint (Sample.shared "old")
        ([Sample.request, Sample.request].map .execute)) w ∧
    w.Resting ∧ w.log.countP Entry.isInstall ≤ 1 ∧ w.log.countP Entry.isLogon = 1 ∧
    ∀ t : Nat, [Sample.request, Sample.request][t]? = some Sample.request →
      ∃ thread : Thread Outcome, w.threads[t]? = some thread ∧
        ∃ outcome, thread.result? = some outcome ∧ Answered Sample.request outcome := by
  have hrun : (World.runAllowed (Obliging (Sample.shared "old").session)
      (World.ofCalls Sample.endpoint (Sample.shared "old")
        ([Sample.request, Sample.request].map .execute))
      (Sample.advances 0 14 ++ [.deliver 0 Sample.rejecting] ++
        Sample.advances 1 14 ++ [.deliver 1 Sample.rejecting] ++
        Sample.advances 0 18 ++ [.deliver 0 Sample.opening] ++
        Sample.advances 1 6 ++ Sample.advances 0 12 ++ Sample.advances 1 4 ++
        Sample.advances 0 9 ++ Sample.advances 1 9 ++
        [.deliver 0 Sample.accepting, .deliver 1 Sample.accepting] ++
        Sample.advances 0 5 ++ Sample.advances 1 5)).map
      (fun w => (w.threads.all Thread.isOver, w.threads.countP Thread.isAbandoned)) =
        some (true, 0) := by decide +kernel
  obtain ⟨w, hw, hover⟩ := Option.map_eq_some_iff.1 hrun
  obtain ⟨hover, hnobody⟩ := Prod.mk.inj hover
  have hleads := World.Leads.of_run hw
  have hrest : w.Resting := .of_isOver (List.all_eq_true.1 hover)
  obtain ⟨hinstalls, -, -, hends, -, hone⟩ := single_flight Sample.parse_endpoint
    (by decide +kernel) (by decide +kernel) hleads
  refine ⟨w, hleads, hrest, hinstalls,
    hone hrest hnobody ⟨_, List.mem_cons_self, .inl (by decide +kernel)⟩, fun t ht => ?_⟩
  obtain ⟨thread, hthread, hresult⟩ := hends t Sample.request ht
  obtain ⟨hanswered, hresults⟩ := hresult (Bool.eq_false_iff.2
    (List.countP_eq_zero.1 hnobody thread (List.mem_of_getElem? hthread)))
  obtain ⟨outcome, houtcome⟩ := hresults hrest
  exact ⟨thread, hthread, outcome, houtcome, hanswered outcome houtcome⟩

/-- How the request of a call has failed. -/
def Thread.failure? (thread : Thread Outcome) : Option Failure :=
  match thread.result? with
  | some (.answered (.error failure)) => some failure
  | _ => none

/-- A request whose content type cannot be sent fails, and without a logon if a session is held. -/
theorem single_flight_unsendable : ∃ (r : Request) (w : World Outcome), r.isLogon = false ∧
    World.Leads (Obliging (Sample.shared "old").session)
      (World.ofCalls Sample.endpoint (Sample.shared "old") ([r].map .execute)) w ∧
    w.Resting ∧ w.threads.countP Thread.isAbandoned = 0 ∧ w.log.countP Entry.isLogon = 0 ∧
    w.threads.map Thread.failure? = [some (.ofCause (.invalidHeader "content-type"))] := by
  have hrun : (World.runAllowed (Obliging (Sample.shared "old").session)
      (World.ofCalls Sample.endpoint (Sample.shared "old")
        ([{ Sample.request with contentType := some "\n" }].map .execute))
      (Sample.advances 0 8)).map
      (fun w => (w.threads.all Thread.isOver, w.threads.countP Thread.isAbandoned,
        w.log.countP Entry.isLogon, w.threads.map Thread.failure?)) =
        some (true, 0, 0, [some (.ofCause (.invalidHeader "content-type"))]) := by
    decide +kernel
  obtain ⟨w, hw, hend⟩ := Option.map_eq_some_iff.1 hrun
  simp only [Prod.mk.injEq] at hend
  obtain ⟨hover, hnobody, hlogons, hfailure⟩ := hend
  exact ⟨_, w, by decide +kernel, .of_run hw, .of_isOver (List.all_eq_true.1 hover), hnobody,
    hlogons, hfailure⟩

end HmcClient.Client
