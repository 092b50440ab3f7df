import HmcClient.Proofs.Client.Integrity
import HmcClient.Proofs.Client.LoggingOn

/-!
# What follows a logon

An operation that has heard of its logon is alone inside the lock of the session, and little is left
to it. A session that was opened it installs, unless it gives up or is dropped. A failure it
reports, and no session is held when it leaves. `Informed.next` says all of that, and what comes of
the session in the history as a whole is told from it: `Fate` if a session was opened, and
`Informed.none_of_failed` if not.

The other half is what an operation does that is let into the lock. If it finds a session that it
has no reason to give up, the next thing that it sends is its request. If it is let in alone and
finds none, it is a logon.
-/

namespace HmcClient.Client

variable {user : Options}

/-- Whether an operation has only looked at the session. -/
def OnlyReads (deeds : List Deed) : Prop := ∀ d ∈ deeds, ∃ s, d = .read s

namespace OnlyReads

variable {reads : List Deed}

theorem nil : OnlyReads [] := fun _ h => absurd h List.not_mem_nil

theorem cons (h : OnlyReads reads) (s : Session) : OnlyReads (.read s :: reads) := by
  intro d hd
  rcases List.mem_cons.1 hd with rfl | hd
  · exact ⟨s, rfl⟩
  · exact h d hd

theorem eq_cases (h : OnlyReads reads) :
    reads = [] ∨ (∃ s, reads = [.read s]) ∨ ∃ s s' more, reads = .read s :: .read s' :: more := by
  match reads with
  | [] => exact .inl rfl
  | [d] =>
      obtain ⟨s, rfl⟩ := h d List.mem_cons_self
      exact .inr (.inl ⟨s, rfl⟩)
  | d :: d' :: more =>
      obtain ⟨s, rfl⟩ := h d List.mem_cons_self
      obtain ⟨s', rfl⟩ := h d' (List.mem_cons_of_mem _ List.mem_cons_self)
      exact .inr (.inr ⟨s, s', more, rfl⟩)

/-- The last deed that is something else than to look. -/
theorem eq_of_append (h : OnlyReads reads) {deeds more : List Deed} {d : Deed}
    (heq : reads ++ deeds = d :: more) (hd : ∀ s, d ≠ .read s) : deeds = d :: more := by
  cases reads with
  | nil => exact heq
  | cons first reads =>
      obtain ⟨s, rfl⟩ := h first List.mem_cons_self
      exact absurd (List.cons.inj heq).1.symm (hd s)

theorem inside_append (h : OnlyReads reads) (deeds : List Deed) :
    Deed.inside (reads ++ deeds) = Deed.inside deeds := by
  induction reads with
  | nil => rfl
  | cons d reads ih =>
      obtain ⟨s, rfl⟩ := h d List.mem_cons_self
      exact ih fun d hd => h d (List.mem_cons_of_mem _ hd)

theorem owes_append (h : OnlyReads reads) (deeds : List Deed) :
    Deed.owes (reads ++ deeds) = Deed.owes deeds := by
  induction reads with
  | nil => rfl
  | cons d reads ih =>
      obtain ⟨s, rfl⟩ := h d List.mem_cons_self
      exact ih fun d hd => h d (List.mem_cons_of_mem _ hd)

end OnlyReads

def Deed.IsWrite : Deed → Prop
  | installed _ | cleared => True
  | _ => False

theorem History.session_cons {s₀ : Session} {H : History} {t : Nat} {d : Deed}
    (h : ¬ d.IsWrite) : History.session s₀ ((t, d) :: H) = H.session s₀ := by
  cases d with
  | installed data => exact absurd trivial h
  | cleared => exact absurd trivial h
  | _ => rfl

theorem History.session_append {s₀ : Session} {L H : History}
    (h : ∀ deed ∈ L, ¬ deed.2.IsWrite) : History.session s₀ (L ++ H) = H.session s₀ := by
  induction L with
  | nil => rfl
  | cons deed L ih =>
      rw [List.cons_append, session_cons (h deed List.mem_cons_self),
        ih fun d hd => h d (List.mem_cons_of_mem _ hd)]

section

variable {R : Nat → Rules} {s₀ : Session} {A : Answers} {t u : Nat} {d : Deed} {access : Access}
  {L H : History}

/-- Who writes is alone inside the lock of the session. -/
theorem Lawful.alone_of_write (h : Lawful R s₀ A ((t, d) :: H)) (hwrite : d.IsWrite) :
    Deed.inside (H.of t) = some .exclusive := by
  cases d with
  | installed data => exact h.fits
  | cleared => exact h.fits
  | _ => exact hwrite.elim

/-- While one operation is inside the lock of the session, no other one writes. -/
theorem Lawful.session_of_inside (h : Lawful R s₀ A ((t, d) :: H))
    (hinside : Deed.inside (H.of u) ≠ none) (htu : t ≠ u) :
    History.session s₀ ((t, d) :: H) = H.session s₀ :=
  History.session_cons fun hwrite =>
    hinside (h.before.inside_eq_none (h.alone_of_write hwrite) (Ne.symm htu))

/-- While an operation inside the lock of the session only looks at it, it does not change. -/
theorem Lawful.session_of_onlyReads (h : Lawful R s₀ A (L ++ H))
    (hinside : Deed.inside (H.of t) ≠ none) (hreads : OnlyReads (L.of t)) :
    History.session s₀ (L ++ H) = H.session s₀ := by
  induction L with
  | nil => rfl
  | cons deed L ih =>
      obtain ⟨v, d⟩ := deed
      by_cases hvt : v = t
      · subst hvt
        rw [History.of_cons_self] at hreads
        obtain ⟨s, rfl⟩ := hreads d List.mem_cons_self
        exact ih h.before fun d hd => hreads d (List.mem_cons_of_mem _ hd)
      · rw [History.of_cons_ne hvt] at hreads
        have hstill : Deed.inside (History.of (L ++ H) t) ≠ none := by
          rwa [History.of_append, hreads.inside_append]
        exact (h.session_of_inside hstill hvt).trans (ih h.before hreads)

/-- What an operation finds when it looks for the first time after it was let in. -/
theorem Lawful.eq_of_first_read (h : Lawful R s₀ A (L ++ (t, .entered access) :: H))
    {later : List Deed} {s : Session} (hfirst : L.of t = later ++ [.read s]) :
    s = H.session s₀ := by
  obtain ⟨after, L', rfl, hL'⟩ := History.split_of later hfirst
  rw [List.append_assoc, List.cons_append] at h
  have hread := h.of_append after
  rw [hread.fits.2, hread.before.session_of_onlyReads (t := t) (by simp [Deed.inside])
    (by rw [hL']; exact .nil)]
  exact History.session_cons not_false

/-- Nobody is let into the lock of the session while an operation is alone inside. -/
theorem Lawful.not_alone_of_entered (h : Lawful R s₀ A ((t, .entered access) :: H)) (u : Nat) :
    Deed.inside (H.of u) ≠ some .exclusive := by
  have hfits := h.fits
  cases access with
  | shared => exact hfits u
  | exclusive =>
      intro hinside
      cases (hfits u).symm.trans hinside

end

/-! ## Calls that execute requests -/

/-- Whether a history is one of executed requests. -/
abbrev Executing (e : Endpoint) (user : Options) (requests : List Request) (s₀ : Session)
    (A : Answers) (H : History) : Prop :=
  Lawful (.each (Call.watched e user) (requests.map .execute)) s₀ A H

namespace Executing

variable {e : Endpoint} {requests : List Request} {s₀ : Session} {A : Answers} {H : History}
  {t : Nat} {r : Request} {d : Deed}

theorem rules (h : Executing e user requests s₀ A ((t, d) :: H)) (hr : requests[t]? = some r)
    (hplain : r.isLogon = false) (hown : d.IsOwn) :
    Rules.execute e user r (H.of t) d ∧ Rules.orderly (H.of t) d := by
  obtain ⟨call, hcall, hmay⟩ := Rules.each_iff.1 (h.may hown)
  rw [List.getElem?_map, hr] at hcall
  obtain rfl := Option.some.inj hcall
  rwa [Call.watched, if_neg (by rw [hplain]; exact Bool.false_ne_true)] at hmay

/-- Who writes over a session has been told that it is not valid. -/
theorem rejection (h : Executing e user requests s₀ A ((t, d) :: H)) (hwrite : d.IsWrite)
    (hauth : (History.session s₀ H).isAuthenticated = true) :
    Rejection (H.of t) (History.session s₀ H).token? := by
  have hyields : ∃ s, Deed.seen (H.of t) = some s ∧ Yields (H.of t) s := by
    have hcalls : ∀ call : Call, (requests.map Call.execute)[t]? = some call →
        call.uses = true := by
      intro call hcall
      rw [List.getElem?_map, Option.map_eq_some_iff] at hcall
      obtain ⟨r, -, rfl⟩ := hcall
      rfl
    cases d with
    | installed data =>
        obtain ⟨call, hcall, hmay⟩ := Rules.each_iff.1 (h.may trivial)
        have hrules := Call.rules_of_sending (Call.sending_of_watched hmay)
        exact Call.yields_of_rules (hcalls call hcall) (show IsWrite (.install data) from trivial)
          (show deedOf (.install data) () = _ from rfl) hrules
    | cleared =>
        obtain ⟨call, hcall, hmay⟩ := Rules.each_iff.1 (h.may trivial)
        have hrules := Call.rules_of_sending (Call.sending_of_watched hmay)
        exact Call.yields_of_rules (hcalls call hcall) (show IsWrite .clear from trivial)
          (show deedOf .clear () = _ from rfl) hrules
    | _ => exact hwrite.elim
  obtain ⟨s, hseen, hyields⟩ := hyields
  obtain rfl : History.session s₀ H = s := (h.before.session_of_seen hseen).1
  exact hyields hauth

/-- Who sends a message within a session is not inside the lock. -/
theorem inside_of_sent {m : Message} {id : String}
    (h : Executing e user requests s₀ A ((t, .sent m) :: H)) (hid : m.token = some id) :
    Deed.inside (H.of t) = none := by
  obtain ⟨call, hcall, hmay⟩ := Rules.each_iff.1 (h.may trivial)
  rw [List.getElem?_map, Option.map_eq_some_iff] at hcall
  obtain ⟨r, -, rfl⟩ := hcall
  have hsending := Call.sending_of_watched hmay
  rw [Call.sending] at hsending
  split at hsending
  · obtain ⟨s, hdeeds, -⟩ := hsending
    rw [hdeeds]
    rfl
  · obtain ⟨-, ⟨hm, -⟩ | ⟨s, earlier, hdeeds, -⟩⟩ := hsending
    · rw [hm.token] at hid
      cases hid
    · rw [hdeeds]
      rfl

end Executing

/-! ## Who has heard of its logon -/

/-- Whether an operation is alone inside the lock of the session, has found the given session and
heard of its logon, and has only looked since. -/
def Informed (m : Message) (d : Delivery) (s : Session) (deeds : List Deed) : Prop :=
  ∃ reads rest, deeds = reads ++ .heard m d :: .sent m :: .read s :: .entered .exclusive :: rest ∧
    OnlyReads reads ∧ .gaveUp ∉ rest

/-- What such an operation does next. -/
inductive Informed.Next (d : Delivery) (s : Session) : Deed → Prop where
  | read (s' : Session) : Next d s (.read s')
  | installed {data : LogonData} (h : d.opened = .ok data) : Next d s (.installed data)
  | cleared {failure : Failure} (h : d.opened = .error failure) : Next d s .cleared
  | left {failure : Failure} (h : d.opened = .error failure) (hs : s.isAuthenticated = false) :
    Next d s .left
  | gaveUp : Next d s .gaveUp
  | dropped : Next d s .dropped

namespace Informed

variable {e : Endpoint} {requests : List Request} {s₀ : Session} {A : Answers} {H : History}
  {t : Nat} {r : Request} {m : Message} {d : Delivery} {s : Session}

theorem of_heard (h : Executing e user requests s₀ A ((t, .heard m d) :: H))
    (hr : requests[t]? = some r) (hplain : r.isLogon = false) (hlogon : m.request.isLogon = true) :
    Informed m d (History.session s₀ H) (.heard m d :: H.of t) := by
  obtain ⟨⟨earlier, hdeeds⟩, -⟩ := h.fits
  obtain ⟨after, H', rfl, hearlier⟩ := History.split_of [] hdeeds
  obtain ⟨⟨hstays, hsent⟩, -⟩ := Executing.rules (h.before.of_append after) hr hplain trivial
  rw [hearlier] at hstays hsent
  rcases hsent with ⟨-, s, rest, rfl, -⟩ | ⟨s, rest, rfl, hm, -⟩
  · have hs : History.session s₀ (after ++ (t, .sent m) :: H') = s :=
      (h.before.session_of_seen (by rw [hdeeds]; rfl)).1
    rw [hs, hdeeds]
    exact ⟨[], rest, rfl, .nil, fun hmem => hstays (by simp [hmem])⟩
  · rw [hm.request, hplain] at hlogon
    cases hlogon

theorem read {deeds : List Deed} (h : Informed m d s deeds) (s' : Session) :
    Informed m d s (.read s' :: deeds) := by
  obtain ⟨reads, rest, rfl, hreads, hstays⟩ := h
  exact ⟨.read s' :: reads, rest, rfl, hreads.cons s', hstays⟩

theorem inside {deeds : List Deed} (h : Informed m d s deeds) :
    Deed.inside deeds = some .exclusive := by
  obtain ⟨reads, rest, rfl, hreads, -⟩ := h
  exact hreads.inside_append _

theorem goesOn {deeds : List Deed} (h : Informed m d s deeds) : .gaveUp ∉ deeds := by
  obtain ⟨reads, rest, rfl, hreads, hstays⟩ := h
  intro hmem
  rcases List.mem_append.1 hmem with hmem | hmem
  · obtain ⟨s', heq⟩ := hreads _ hmem
    cases heq
  · exact hstays (by simpa using hmem)

theorem next {x : Deed} (h : Executing e user requests s₀ A ((t, x) :: H))
    (hr : requests[t]? = some r) (hplain : r.isLogon = false) (hlogon : m.request.isLogon = true)
    (hinformed : Informed m d s (H.of t)) : Informed.Next d s x := by
  have hinside := hinformed.inside
  have hgoes := hinformed.goesOn
  obtain ⟨reads, rest, hdeeds, hreads, -⟩ := hinformed
  have howes : Deed.owes (H.of t) = d.opened.isOk := by
    rw [hdeeds, hreads.owes_append, Deed.owes, Deed.owes, hlogon, Bool.and_true]
  have hfailed : d.opened.isOk = false → ∃ failure, d.opened = .error failure := by
    intro hbad
    cases hopened : d.opened with
    | ok data => rw [hopened] at hbad; cases hbad
    | error failure => exact ⟨failure, rfl⟩
  cases x with
  | read s' => exact .read s'
  | gaveUp => exact .gaveUp
  | dropped => exact .dropped
  | heard m' d' =>
      obtain ⟨⟨earlier, hsent⟩, -⟩ := h.fits
      cases hreads.eq_of_append (hdeeds.symm.trans hsent) (by simp)
  | entered access => exact absurd hinside (h.not_alone_of_entered t)
  | sent m' =>
      obtain ⟨-, ⟨-, s', earlier, hsent, -⟩ | ⟨s', earlier, hsent, -⟩⟩ :=
        (Executing.rules h hr hplain trivial).1
      · rw [hdeeds] at hsent
        rcases hreads.eq_cases with rfl | ⟨s', rfl⟩ | ⟨s', s'', more, rfl⟩ <;> cases hsent
      · cases hreads.eq_of_append (hdeeds.symm.trans hsent) (by simp)
  | installed data =>
      obtain ⟨m', status, headers, body, s', earlier, hlast, -, hdata, -⟩ :=
        (Executing.rules h hr hplain trivial).1
      cases hreads.eq_of_append (hdeeds.symm.trans hlast) (by simp)
      exact .installed hdata
  | cleared =>
      obtain ⟨m', d', failure, s', earlier, hlast, -, hbad, -⟩ :=
        (Executing.rules h hr hplain trivial).1
      cases hreads.eq_of_append (hdeeds.symm.trans hlast) (by simp)
      exact .cleared hbad
  | left =>
      obtain ⟨hsettled, hdecided⟩ := Executing.rules h hr hplain trivial
      obtain ⟨failure, hbad⟩ := hfailed (howes ▸ hsettled.resolve_right hgoes)
      have hdecided' := hdecided.resolve_right hgoes
      rw [hdeeds] at hdecided'
      rcases hreads.eq_cases with rfl | ⟨s', rfl⟩ | ⟨s', s'', more, rfl⟩
      · exact .left hbad hdecided'
      · exact hdecided'.elim
      · exact hdecided'.elim

end Informed

section

variable {e : Endpoint} {requests : List Request} {s₀ : Session} {A : Answers} {L H : History}
  {t u : Nat} {r : Request} {m : Message} {d : Delivery} {s : Session} {data : LogonData}

/-! ## A logon that has opened a session -/

/-- What has become of a session that was opened. `L` is what was done since. -/
inductive Fate (s₀ : Session) (u : Nat) (m : Message) (d : Delivery) (data : LogonData)
    (L H : History) : Prop where
  /-- It is about to be installed. -/
  | pending {s : Session} (h : Informed m d s (History.of (L ++ H) u))
    (hnone : ∀ data', (u, .installed data') ∉ L)
  /-- It was installed and is held. -/
  | held (hmem : (u, .installed data) ∈ L)
    (hsession : History.session s₀ (L ++ H) = .ofLogon data)
  /-- It was lost with the operation that opened it. -/
  | lost (hnone : ∀ data', (u, .installed data') ∉ L) (hgone : (u, .gaveUp) ∈ L ∨ (u, .dropped) ∈ L)

theorem Delivery.token?_of_opened (h : d.opened = .ok data) :
    (Session.ofLogon data).token? = some data.sessionId := by
  obtain ⟨status, headers, body, rfl, hdata⟩ := Delivery.opened_eq_ok h
  exact Session.token?_ofLogon (Logon.of_opened_eq_ok hdata).2

/-- Who has given up installs nothing any more. -/
theorem Executing.not_installed (h : Executing e user requests s₀ A ((u, .installed data) :: H))
    (hr : requests[u]? = some r) (hplain : r.isLogon = false)
    (hgone : (u, .gaveUp) ∈ H ∨ (u, .dropped) ∈ H) : False := by
  rcases hgone with hstop | hdropped
  · obtain ⟨m, status, headers, body, s, earlier, hdeeds, -⟩ := (rules h hr hplain trivial).1
    obtain ⟨after, H', rfl, hbefore⟩ := History.split_of [.heard m (.answered status headers body)]
      hdeeds
    have hstays := (rules (h.before.of_append after) hr hplain trivial).1.1
    rw [hbefore] at hstays
    have hmem := History.mem_of.2 hstop
    rw [hdeeds] at hmem
    exact hstays (by simpa using hmem)
  · cases h with
    | cons _ hlive _ _ => exact hlive (History.mem_of.2 hdropped)

/-- One deed, if whoever is inside the lock has not been told that the new session is not valid. -/
theorem Fate.cons {v : Nat} {x : Deed} (h : Executing e user requests s₀ A ((v, x) :: (L ++ H)))
    (hr : requests[u]? = some r) (hplain : r.isLogon = false) (hlogon : m.request.isLogon = true)
    (hopened : d.opened = .ok data) (hfate : Fate s₀ u m d data L H)
    (hcalm : Deed.inside (History.of (L ++ H) v) ≠ none →
      ¬ Rejection (History.of (L ++ H) v) (some data.sessionId)) :
    Fate s₀ u m d data ((v, x) :: L) H := by
  cases hfate with
  | pending hinformed hnone =>
      by_cases hvu : v = u
      · subst hvu
        cases Informed.next h hr hplain hlogon hinformed with
        | read s' =>
            have hstill := hinformed.read s'
            rw [← History.of_cons_self] at hstill
            exact .pending hstill (by simpa using hnone)
        | installed hdata =>
            rw [hopened] at hdata
            obtain rfl := Except.ok.inj hdata
            exact .held List.mem_cons_self rfl
        | cleared hbad => rw [hopened] at hbad; cases hbad
        | left hbad => rw [hopened] at hbad; cases hbad
        | gaveUp => exact .lost (by simpa using hnone) (.inl List.mem_cons_self)
        | dropped => exact .lost (by simpa using hnone) (.inr List.mem_cons_self)
      · rw [← History.of_cons_ne hvu] at hinformed
        refine .pending hinformed fun data' hmem => ?_
        rcases List.mem_cons.1 hmem with heq | hmem
        · exact hvu (Prod.mk.inj heq).1.symm
        · exact hnone data' hmem
  | held hmem hsession =>
      refine .held (List.mem_cons_of_mem _ hmem) ?_
      rw [List.cons_append, History.session_cons ?_, hsession]
      -- Who writes is alone inside, and would have been told that the session is not valid.
      intro hwrite
      have htoken := Delivery.token?_of_opened hopened
      have hrejection := h.rejection hwrite (by
        rw [hsession]
        exact Session.isAuthenticated_of_token? htoken)
      rw [hsession, htoken] at hrejection
      refine hcalm ?_ hrejection
      rw [h.alone_of_write hwrite]
      exact Option.some_ne_none _
  | lost hnone hgone =>
      refine .lost (fun data' hmem => ?_) (hgone.imp (List.mem_cons_of_mem _)
        (List.mem_cons_of_mem _))
      rcases List.mem_cons.1 hmem with heq | hmem
      · obtain ⟨rfl, rfl⟩ := Prod.mk.inj heq
        exact Executing.not_installed h hr hplain
          (hgone.imp (List.mem_append_left _) (List.mem_append_left _))
      · exact hnone data' hmem

/-! ## A logon that has failed -/

/-- A failed logon leaves no session, if nobody else opens one and who sent it is not gone. -/
theorem Informed.none_of_failed (h : Executing e user requests s₀ A (L ++ H))
    (hr : requests[u]? = some r) (hplain : r.isLogon = false) (hlogon : m.request.isLogon = true)
    {failure : Failure} (hfailed : d.opened = .error failure)
    (hinformed : Informed m d s (H.of u)) (hsession : H.session s₀ = s)
    (hnone : ∀ v data, (v, .installed data) ∉ L) (hstays : (u, .gaveUp) ∉ L ∧ (u, .dropped) ∉ L) :
    (Informed m d s (History.of (L ++ H) u) ∧ History.session s₀ (L ++ H) = s) ∨
      (History.session s₀ (L ++ H)).isAuthenticated = false := by
  induction L with
  | nil => exact .inl ⟨hinformed, hsession⟩
  | cons deed L ih =>
      obtain ⟨v, x⟩ := deed
      have hnone' : ∀ v data, (v, .installed data) ∉ L :=
        fun v data hmem => hnone v data (List.mem_cons_of_mem _ hmem)
      have hstays' : (u, .gaveUp) ∉ L ∧ (u, .dropped) ∉ L :=
        hstays.imp (fun h hmem => h (List.mem_cons_of_mem _ hmem))
          fun h hmem => h (List.mem_cons_of_mem _ hmem)
      have hkeep : ¬ x.IsWrite → History.session s₀ ((v, x) :: L ++ H) =
          History.session s₀ (L ++ H) := History.session_cons
      have hwrites : ∀ data, x ≠ .installed data := by
        rintro data rfl
        exact hnone v data List.mem_cons_self
      rcases ih h.before hnone' hstays' with ⟨hstill, hs⟩ | hs
      · by_cases hvu : v = u
        · subst hvu
          cases Informed.next h hr hplain hlogon hstill with
          | read s' =>
              refine .inl ⟨?_, (hkeep not_false).trans hs⟩
              rw [List.cons_append, History.of_cons_self]
              exact hstill.read s'
          | installed hdata => rw [hfailed] at hdata; cases hdata
          | cleared => exact .inr rfl
          | left hbad hauth =>
              rw [hkeep not_false, hs]
              exact .inr hauth
          | gaveUp => exact absurd List.mem_cons_self hstays.1
          | dropped => exact absurd List.mem_cons_self hstays.2
        · -- Nobody else writes, because the operation is still alone inside the lock.
          have hinside : Deed.inside (History.of (L ++ H) u) ≠ none := by
            rw [hstill.inside]
            exact Option.some_ne_none _
          refine .inl ⟨?_, (h.session_of_inside hinside hvu).trans hs⟩
          rw [List.cons_append, History.of_cons_ne hvu]
          exact hstill
      · refine .inr ?_
        cases x with
        | installed data => exact absurd rfl (hwrites data)
        | cleared => rfl
        | _ => exact hs

/-- Nothing is sent after a logon that has failed. -/
theorem Executing.not_sent {m' : Message} (h : Executing e user requests s₀ A ((t, .sent m') :: H))
    (hr : requests[t]? = some r) (hplain : r.isLogon = false) (hlogon : m.request.isLogon = true)
    {failure : Failure} (hfailed : d.opened = .error failure) : (t, .heard m d) ∉ H := by
  intro hmem
  obtain ⟨data, hopened⟩ := (rules h hr hplain trivial).2.1 m d (History.mem_of.2 hmem) hlogon
  rw [hfailed] at hopened
  cases hopened

/-! ## An operation that is let in -/

/-- An operation that was let in alone when there was no session, and has only looked, has not done
what it came for: it would have found a session, but there is still none. -/
theorem Executing.not_decided_of_entered
    (h : Executing e user requests s₀ A (L ++ (t, .entered .exclusive) :: H))
    (hnone : (History.session s₀ H).isAuthenticated = false) (hreads : OnlyReads (L.of t)) :
    ¬ Decided (History.of (L ++ (t, .entered .exclusive) :: H) t) := by
  intro hdecided
  have hstill := h.session_of_onlyReads (t := t) (by simp [Deed.inside]) hreads
  rw [History.session_cons (d := .entered .exclusive) not_false] at hstill
  have hseen := @Lawful.session_of_seen _ _ _ _ h t
  rw [History.of_append, History.of_cons_self] at hdecided hseen
  rcases hreads.eq_cases with heq | ⟨s', heq⟩ | ⟨s', s'', more, heq⟩
  · rw [heq] at hdecided
    exact hdecided
  · rw [heq] at hdecided hseen
    rw [(hseen (s := s') rfl).1] at hstill
    rw [← hstill] at hnone
    cases hnone.symm.trans hdecided
  · rw [heq] at hdecided
    exact hdecided

/-- What an operation does that was let in alone when there was no session, and has only looked. -/
theorem Executing.next_of_entered {x : Deed}
    (h : Executing e user requests s₀ A ((t, x) :: (L ++ (t, .entered .exclusive) :: H)))
    (hr : requests[t]? = some r) (hplain : r.isLogon = false)
    (hnone : (History.session s₀ H).isAuthenticated = false) (hreads : OnlyReads (L.of t)) :
    (∃ s, x = .read s) ∨ (∃ m, x = .sent m ∧ m.IsLogonOf e user none) ∨
      (x = .left ∧ .gaveUp ∈ H.of t) ∨ x = .gaveUp ∨ x = .dropped := by
  have hdeeds : History.of (L ++ (t, .entered .exclusive) :: H) t =
      L.of t ++ .entered .exclusive :: H.of t := by
    rw [History.of_append, History.of_cons_self]
  have hinside : Deed.inside (History.of (L ++ (t, .entered .exclusive) :: H) t) =
      some .exclusive := by
    rw [hdeeds, hreads.inside_append]
    rfl
  cases x with
  | read s => exact .inl ⟨s, rfl⟩
  | gaveUp => simp
  | dropped => simp
  | heard m' d' =>
      obtain ⟨⟨earlier, hsent⟩, -⟩ := h.fits
      cases hreads.eq_of_append (hdeeds.symm.trans hsent) (by simp)
  | entered access => exact absurd hinside (h.not_alone_of_entered t)
  | sent m' =>
      obtain ⟨-, ⟨hm, -⟩ | ⟨s', earlier, hsent, -⟩⟩ := (rules h hr hplain trivial).1
      · exact .inr (.inl ⟨m', rfl, hm⟩)
      · cases hreads.eq_of_append (hdeeds.symm.trans hsent) (by simp)
  | installed data =>
      obtain ⟨m', status, headers, body, s', earlier, hlast, -⟩ := (rules h hr hplain trivial).1
      cases hreads.eq_of_append (hdeeds.symm.trans hlast) (by simp)
  | cleared =>
      obtain ⟨m', d', failure, s', earlier, hlast, -⟩ := (rules h hr hplain trivial).1
      cases hreads.eq_of_append (hdeeds.symm.trans hlast) (by simp)
  | left =>
      rcases (rules h hr hplain trivial).2 with hdecided | hstop
      · exact absurd hdecided (not_decided_of_entered h.before hnone hreads)
      · refine .inr (.inr (.inl ⟨rfl, ?_⟩))
        rw [hdeeds] at hstop
        rcases List.mem_append.1 hstop with hmem | hmem
        · obtain ⟨s, heq⟩ := hreads _ hmem
          cases heq
        · exact List.mem_of_ne_of_mem (by simp) hmem

/-- An operation that was let in alone when there was no session looks until it sends something. -/
theorem Executing.looks_or_sends
    (h : Executing e user requests s₀ A (L ++ (t, .entered .exclusive) :: H))
    (hr : requests[t]? = some r) (hplain : r.isLogon = false)
    (hnone : (History.session s₀ H).isAuthenticated = false) :
    OnlyReads (L.of t) ∨ (∃ m, .sent m ∈ L.of t) ∨
      .gaveUp ∈ History.of (L ++ (t, .entered .exclusive) :: H) t ∨ .dropped ∈ L.of t := by
  induction L with
  | nil => exact .inl .nil
  | cons deed L ih =>
      obtain ⟨v, x⟩ := deed
      rw [List.cons_append]
      by_cases hvt : v = t
      · subst hvt
        rw [History.of_cons_self, History.of_cons_self]
        rcases ih h.before with hreads | ⟨m, hm⟩ | hstop | hdropped
        · rcases next_of_entered h hr hplain hnone hreads with
            ⟨s, rfl⟩ | ⟨m, rfl, -⟩ | ⟨rfl, hstop⟩ | rfl | rfl
          · exact .inl (hreads.cons s)
          · exact .inr (.inl ⟨m, List.mem_cons_self⟩)
          · refine .inr (.inr (.inl (List.mem_cons_of_mem _ ?_)))
            rw [History.of_append, History.of_cons_self]
            exact List.mem_append_right _ (List.mem_cons_of_mem _ hstop)
          · exact .inr (.inr (.inl List.mem_cons_self))
          · exact .inr (.inr (.inr List.mem_cons_self))
        · exact .inr (.inl ⟨m, List.mem_cons_of_mem _ hm⟩)
        · exact .inr (.inr (.inl (List.mem_cons_of_mem _ hstop)))
        · exact .inr (.inr (.inr (List.mem_cons_of_mem _ hdropped)))
      · rw [History.of_cons_ne hvt, History.of_cons_ne hvt]
        exact ih h.before

/-- Where an operation asks for the session alone without having sent anything since it was let in
before, it has looked in vain. -/
theorem Wanting.of_append {mine deeds : List Deed} {access : Access}
    (h : Wanting (mine ++ .entered access :: deeds)) (hfirst : ∀ m, .sent m ∉ mine) :
    ∃ s, mine = [.left, .read s] ∧ s.isAuthenticated = false := by
  rcases h with ⟨s, hfound, hnone⟩ | ⟨m, d, earlier, hheard⟩
  · refine ⟨s, ?_, hnone⟩
    rcases mine with _ | ⟨d₁, _ | ⟨d₂, _ | ⟨d₃, more⟩⟩⟩
    · cases hfound
    · cases hfound
    · cases hfound
      rfl
    · simp at hfound
  · exfalso
    rcases mine with _ | ⟨d₁, _ | ⟨d₂, more⟩⟩
    · cases hheard
    · cases hheard
    · cases hheard
      exact hfirst m (by simp)

/-- An operation that was let in while a session was held which it does not know to be invalid sends
its request next. If nobody has written since, it does so in that session. -/
theorem Executing.request_of_first_sent {access : Access} {id : String}
    (h : Executing e user requests s₀ A ((t, .sent m) :: (L ++ (t, .entered access) :: H)))
    (hr : requests[t]? = some r) (hplain : r.isLogon = false)
    (hlogons : ∀ m : Message, m.IsLogonOf e user none → m.request.isLogon = true)
    (hid : (History.session s₀ H).token? = some id) (hcalm : ¬ Rejection (H.of t) (some id))
    (hfirst : ∀ m', .sent m' ∉ L.of t) :
    m.request = r ∧ ((∀ deed ∈ L, ¬ deed.2.IsWrite) → m.token = some id) := by
  have hdeeds : History.of (L ++ (t, .entered access) :: H) t =
      L.of t ++ .entered access :: H.of t := by
    rw [History.of_append, History.of_cons_self]
  obtain ⟨⟨-, hsent⟩, -, hwanting⟩ := rules h hr hplain trivial
  rw [hdeeds] at hsent hwanting
  rcases hsent with ⟨hm, s, earlier, hlast, hyields⟩ | ⟨s, earlier, hlast, hm, -⟩
  · exfalso
    obtain ⟨s', earlier', hlast', hwants⟩ := hwanting (hlogons m hm)
    obtain ⟨rfl, rfl⟩ : s = s' ∧ earlier = earlier' := by simpa using hlast.symm.trans hlast'
    have hauth := Session.isAuthenticated_of_token? hid
    -- It was let in alone at once, or comes again for having looked in vain.
    rcases hL : L.of t with _ | ⟨d₁, _ | ⟨d₂, rest⟩⟩
    · rw [hL] at hlast
      cases hlast
    · rw [hL] at hlast
      cases hlast
      rw [h.before.eq_of_first_read (show L.of t = [] ++ [_] from hL), Yields, hid] at hyields
      exact hcalm (hyields hauth)
    · rw [hL] at hlast
      cases hlast
      obtain ⟨s₁, rfl, hnone⟩ := hwants.of_append fun m' hmem => hfirst m' (by rw [hL]; simp [hmem])
      rw [h.before.eq_of_first_read
        (show L.of t = [.read s, .entered .exclusive, .left] ++ [_] from hL)] at hnone
      cases hnone.symm.trans hauth
  · refine ⟨hm.request, fun hquiet => ?_⟩
    rcases hL : L.of t with _ | ⟨d₁, _ | ⟨d₂, rest⟩⟩
    · rw [hL] at hlast
      cases hlast
    · rw [hL] at hlast
      cases hlast
    · rw [hL] at hlast
      obtain ⟨-, rfl, -⟩ : d₁ = .left ∧ d₂ = .read s ∧ _ := by simpa using hlast
      obtain ⟨after, L', rfl, -⟩ := History.split_of [d₁] hL
      have hlawful := h.before
      rw [List.append_assoc, List.cons_append] at hlawful
      rw [hm.token, (hlawful.of_append after).fits.2, History.session_append, ← hid]
      · exact congrArg Session.token? (History.session_cons (d := .entered access) not_false)
      · exact fun deed hdeed => hquiet deed (by simp [hdeed])

end

end HmcClient.Client
