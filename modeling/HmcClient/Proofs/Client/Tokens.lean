import Mathlib.Data.List.Basic
import HmcClient.Proofs.Client.Integrity

/-!
# Which token a request carries

An executed request reads its token under the lock of the session and sends it after it has left the
lock. In between anything may happen to the session, so what can be said of the token is said of the
moment at which it was read: that is the point at which the request takes effect among the
installations of sessions.

If the console gives every session an id of its own, that point can be found from the token alone.
The tokens that the client has held, in order, are then all different. A request that is sent twice
has read twice, and between the two readings another session was installed, because the request goes
on after a rejection only if it has found or opened one. So its second token is a later one than its
first, and in particular not the rejected one.
-/

namespace HmcClient.Client

variable {user : Options}

/-! ## The tokens that were held -/

namespace History

/-- The ids of the sessions that were installed, the latest first. -/
def installedIds (H : History) : List String :=
  H.filterMap fun
    | (_, .installed data) => some data.sessionId
    | _ => none

/-- The tokens that the client has held, the latest first. -/
def tokens (s₀ : Session) (H : History) : List String := H.installedIds ++ s₀.token?.toList

/-- The id of the session that a deed has heard to be opened. -/
def openedId? : Nat × Deed → Option String
  | (_, .heard m d) => if m.request.isLogon then d.opened.toOption.map (·.sessionId) else none
  | _ => none

theorem tokens_append (s₀ : Session) (later H : History) :
    tokens s₀ (later ++ H) = later.installedIds ++ tokens s₀ H := by
  rw [tokens, installedIds, List.filterMap_append, List.append_assoc]
  rfl

theorem mem_installedIds {H : History} {id : String} :
    id ∈ H.installedIds ↔ ∃ t data, (t, .installed data) ∈ H ∧ data.sessionId = id := by
  rw [installedIds, List.mem_filterMap]
  constructor
  · rintro ⟨⟨t, d⟩, hmem, hid⟩
    cases d with
    | installed data => exact ⟨t, data, hmem, Option.some.inj hid⟩
    | _ => cases hid
  · rintro ⟨t, data, hmem, rfl⟩
    exact ⟨(t, .installed data), hmem, rfl⟩

/-- The session that is held, if one is, is the latest that was. -/
theorem head_tokens {s₀ : Session} {H : History} {id : String}
    (h : (H.session s₀).token? = some id) : ∃ older, H.tokens s₀ = id :: older := by
  induction H with
  | nil =>
      refine ⟨[], ?_⟩
      rw [session] at h
      rw [tokens, h]
      rfl
  | cons deed H ih =>
      obtain ⟨t, d⟩ := deed
      cases d with
      | installed data =>
          have hid : data.sessionId = id := Session.token_of_token? h
          exact ⟨tokens s₀ H, by rw [← hid]; rfl⟩
      | cleared => cases h
      | _ => exact ih h

end History

/-- Two places of a list that both give one value, where no value is given twice. -/
theorem eq_of_filterMap_nodup {α β : Type} {f : α → Option β} {a b c d : List α} {x y : α} {v : β}
    (h : a ++ x :: b = c ++ y :: d) (hnodup : ((a ++ x :: b).filterMap f).Nodup)
    (hx : f x = some v) (hy : f y = some v) : a = c ∧ x = y := by
  -- Were the places different, the value would be given before and after the first of them.
  have hapart : ∀ {a b : List α} {x y : α}, f x = some v → f y = some v → y ∈ b →
      ¬ ((a ++ x :: b).filterMap f).Nodup := by
    intro a b x y hx hy hmem hnodup
    rw [List.filterMap_append, List.filterMap_cons_some hx, List.nodup_append] at hnodup
    exact (List.nodup_cons.1 hnodup.2.1).1 (List.mem_filterMap.2 ⟨y, hmem, hy⟩)
  rcases List.append_eq_append_iff.1 h with ⟨e, rfl, hb⟩ | ⟨e, rfl, hb⟩
  · cases e with
    | nil => exact ⟨(List.append_nil a).symm, (List.cons.inj hb).1⟩
    | cons z e =>
        obtain ⟨rfl, rfl⟩ := List.cons.inj hb
        exact absurd hnodup (hapart hx hy (by simp))
  · cases e with
    | nil => exact ⟨List.append_nil c, (List.cons.inj hb).1.symm⟩
    | cons z e =>
        obtain ⟨rfl, -⟩ := List.cons.inj hb
        rw [List.append_assoc, List.cons_append] at hnodup
        exact absurd hnodup (hapart hy hx (by simp))

/-- Rules under which a session is installed only right after a logon has opened it. -/
def Rules.Opening (e : Endpoint) (user : Options) (R : Rules) : Prop :=
  ∀ deeds data, R deeds (.installed data) → OpenedBy e user deeds data

theorem Rules.opening_sending (e : Endpoint) (calls : List Call) (t : Nat) :
    (each (Call.sending e user) calls t).Opening e user := by
  intro deeds data h
  obtain ⟨call, -, hmay⟩ := each_iff.1 h
  exact (Call.opened_of_rules (Call.rules_of_sending hmay)).2

namespace Lawful

section

variable {e : Endpoint} {R : Nat → Rules} {s₀ : Session} {A : Answers} {H : History} {t : Nat}

/-- Who installs a session has just heard that it was opened. -/
theorem heard_of_installed (hR : ∀ t, (R t).Opening e user)
    (hlogon : ∀ m : Message, m.IsLogonOf e user none → m.request.isLogon = true) {data : LogonData}
    (h : Lawful R s₀ A ((t, .installed data) :: H)) :
    ∃ m d after H', H = after ++ (t, .heard m d) :: H' ∧ History.of after t = [] ∧
      History.openedId? (t, .heard m d) = some data.sessionId := by
  obtain ⟨m, status, headers, body, earlier, hdeeds, hm, hdata⟩ := hR t _ _ (h.may trivial)
  obtain ⟨after, H', rfl, hbefore⟩ := History.split_of [] hdeeds
  refine ⟨m, _, after, H', rfl, ?_, ?_⟩
  · rw [History.of_append, History.of_cons_self, hbefore] at hdeeds
    exact List.append_left_eq_self.1 hdeeds
  · show (if m.request.isLogon then (Logon.opened ⟨status, body⟩).toOption.map (·.sessionId)
      else none) = _
    rw [if_pos (hlogon m hm), hdata]
    rfl

/-- If no id is given twice, no token is held twice. -/
theorem nodup_tokens (hR : ∀ t, (R t).Opening e user)
    (hlogon : ∀ m : Message, m.IsLogonOf e user none → m.request.isLogon = true)
    (h : Lawful R s₀ A H)
    (hids : (H.filterMap History.openedId? ++ s₀.token?.toList).Nodup) : (H.tokens s₀).Nodup := by
  induction h with
  | nil => exact hids
  | @cons H t d h hlive hfits hmay ih =>
      have hids' : (H.filterMap History.openedId? ++ s₀.token?.toList).Nodup :=
        hids.sublist (((List.sublist_cons_self _ H).filterMap _).append (List.Sublist.refl _))
      cases d with
      | installed data =>
          refine List.nodup_cons.2 ⟨fun hmem => ?_, ih hids'⟩
          obtain ⟨m, d, after, H', rfl, hafter, hid⟩ :=
            heard_of_installed hR hlogon (.cons h hlive hfits hmay)
          rcases List.mem_append.1 hmem with hmem | hfirst
          · -- The session was installed before, so it was heard of twice at the same place.
            obtain ⟨u, data', hu, hsame⟩ := History.mem_installedIds.1 hmem
            obtain ⟨p, q, hsplit⟩ := List.append_of_mem hu
            rw [hsplit] at h
            obtain ⟨m', d', after', H'', rfl, -, hid'⟩ :=
              heard_of_installed hR hlogon (h.of_append p)
            have hplaces : after ++ (t, .heard m d) :: H' =
                (p ++ (u, .installed data') :: after') ++ (u, .heard m' d') :: H'' := by
              rw [hsplit, List.append_assoc, List.cons_append]
            obtain ⟨rfl, hsame'⟩ := eq_of_filterMap_nodup hplaces (List.nodup_append.1 hids').1
              hid (hid'.trans (congrArg some hsame))
            obtain rfl : t = u := (Prod.mk.inj hsame').1
            rw [History.of_append, History.of_cons_self] at hafter
            simp at hafter
          · refine (List.nodup_append.1 hids').2.2 data.sessionId ?_ data.sessionId ?_ rfl
            · exact List.mem_filterMap.2 ⟨(t, .heard m d), by simp, hid⟩
            · exact hfirst
      | _ => exact ih hids'

end

variable {e : Endpoint} {calls : List Call} {s₀ : Session} {A : Answers} {H : History} {t : Nat}

/-- A token that a request carries is that of the session that was held when it was read. -/
theorem read_of_sent {r : Request} {m : Message} {id : String}
    (h : Lawful (.each (Call.sending e user) calls) s₀ A ((t, .sent m) :: H))
    (hcall : calls[t]? = some (.execute r)) (hid : m.token = some id) :
    m.request = r ∧
      ∃ after s H', H = after ++ (t, .read s) :: H' ∧ (History.session s₀ H').token? = some id := by
  have hread : ∃ s earlier, H.of t = .left :: .read s :: earlier ∧ m.IsOf r s.token? := by
    obtain ⟨call, hcall', hmay⟩ := Rules.each_iff.1 (h.may trivial)
    rw [hcall] at hcall'
    obtain rfl := Option.some.inj hcall'
    rw [Call.sending] at hmay
    split at hmay
    · obtain ⟨s, hdeeds, hm⟩ := hmay
      exact ⟨s, _, hdeeds, hm⟩
    · obtain ⟨-, ⟨hm, -⟩ | ⟨s, earlier, hdeeds, hm, -⟩⟩ := hmay
      · rw [hm.token] at hid
        cases hid
      · exact ⟨s, _, hdeeds, hm⟩
  obtain ⟨s, earlier, hdeeds, hm⟩ := hread
  obtain ⟨after, H', rfl, -⟩ := History.split_of [.left] hdeeds
  obtain rfl : s = History.session s₀ H' := (h.before.of_append after).fits.2
  exact ⟨hm.request, after, _, H', rfl, hm.token.symm.trans hid⟩

/-- A request that is sent again was rejected, and has found or opened another session since. -/
theorem of_resent (hlogon : ∀ m : Message, m.IsLogonOf e user none → m.request.isLogon = true)
    {r : Request} {first second : Message}
    (h : Lawful (.each (Call.sending e user) calls) s₀ A ((t, .sent second) :: H))
    (hcall : calls[t]? = some (.execute r)) (hsecond : second.request = r)
    (hsent : .sent first ∈ H.of t) (hfirst : first.request = r) :
    ∃ s later d earlier, H.of t = .left :: .read s :: .entered .shared ::
        (later ++ .heard first d :: .sent first :: earlier) ∧
      second.token = s.token? ∧ ¬ first.IsLogonOf e user none ∧ d.rejects = true ∧
      OnlyLogons e user later ∧ OnlyLogons e user earlier ∧ Finds later first.token := by
  obtain ⟨call, hcall', hmay⟩ := Rules.each_iff.1 (h.may trivial)
  rw [hcall] at hcall'
  obtain rfl := Option.some.inj hcall'
  rw [Call.sending] at hmay
  split at hmay
  · obtain ⟨s, hdeeds, -⟩ := hmay
    rw [hdeeds] at hsent
    simp at hsent
  next hplain =>
    have hown : ∀ m : Message, m.request = r → ¬ m.IsLogonOf e user none := by
      rintro m rfl hm
      exact hplain (hlogon m hm)
    obtain ⟨-, ⟨hm, -⟩ | ⟨s, before, hdeeds, hm, -, hstage⟩⟩ := hmay
    · exact absurd hm (hown second hsecond)
    have hbefore : .sent first ∈ before := by
      rw [hdeeds] at hsent
      simpa using hsent
    rcases hstage with hlogons | ⟨later, m, d, earlier, rfl, -, hrejects, hlater, hearlier, hfinds⟩
    · exact absurd (hlogons first hbefore) (hown first hfirst)
    · obtain rfl : first = m := by
        rcases List.mem_append.1 hbefore with hmem | hmem
        · exact absurd (hlater first hmem) (hown first hfirst)
        · rcases List.mem_cons.1 hmem with heq | hmem
          · cases heq
          · rcases List.mem_cons.1 hmem with heq | hmem
            · exact Deed.sent.inj heq
            · exact absurd (hearlier first hmem) (hown first hfirst)
      exact ⟨s, later, d, earlier, hdeeds, hm.token, hown first hfirst, hrejects, hlater, hearlier,
        hfinds⟩

/-- Another session than the one held at first was found since, so one was installed. -/
theorem installedIds_ne_nil {since : History} (h : Lawful (.each (Call.sending e user) calls) s₀ A
    (since ++ H)) {id : String} (hid : (History.session s₀ H).token? = some id) {s : Session}
    (hread : (t, .read s) ∈ since) (hauth : s.isAuthenticated = true)
    (hother : s.token? ≠ some id) :
    since.installedIds ≠ [] := by
  intro hnil
  obtain ⟨p, q, rfl⟩ := List.append_of_mem hread
  have hq : History.installedIds q = [] := by
    rw [History.installedIds, List.filterMap_append, List.append_eq_nil_iff] at hnil
    exact hnil.2
  rw [List.append_assoc, List.cons_append] at h
  have hs : (History.session s₀ (q ++ H)).token? = some s.token := by
    rw [← (h.of_append p).fits.2]
    exact Session.token?_eq_some hauth
  obtain ⟨rest, hrest⟩ := History.head_tokens hs
  obtain ⟨older, holder⟩ := History.head_tokens hid
  rw [History.tokens_append, hq, holder] at hrest
  obtain ⟨rfl, -⟩ := List.cons.inj hrest
  exact hother (Session.token?_eq_some hauth)

/-- The two tokens of a request follow the order of installation. -/
theorem tokens_of_resent
    (hlogon : ∀ m : Message, m.IsLogonOf e user none → m.request.isLogon = true)
    {r : Request} {first second : Message}
    (h : Lawful (.each (Call.sending e user) calls) s₀ A ((t, .sent second) :: H))
    (hcall : calls[t]? = some (.execute r)) (hsecond : second.request = r)
    (hsent : .sent first ∈ H.of t) (hfirst : first.request = r) {id₁ id₂ : String}
    (hid₁ : first.token = some id₁) (hid₂ : second.token = some id₂) :
    ∃ newer between older, H.tokens s₀ = newer ++ id₂ :: (between ++ id₁ :: older) := by
  obtain ⟨s, later, d, earlier, hdeeds, htoken, -, -, -, -, hfinds⟩ :=
    of_resent hlogon h hcall hsecond hsent hfirst
  obtain ⟨after, H₂, rfl, hH₂⟩ := History.split_of [.left] hdeeds
  have hread := h.before.of_append after
  obtain rfl : s = History.session s₀ H₂ := hread.fits.2
  -- The history at the first sending, and at the reading before it.
  have hsplit : History.of H₂ t =
      (.entered .shared :: (later ++ [.heard first d])) ++ .sent first :: earlier := by
    rw [hH₂]
    simp
  obtain ⟨since, H₁, rfl, hH₁⟩ := History.split_of _ hsplit
  have hlater : ∀ deed ∈ later, (t, deed) ∈ since := by
    intro deed hdeed
    rw [History.of_append, History.of_cons_self, hH₁] at hsplit
    have hof : History.of since t = .entered .shared :: (later ++ [.heard first d]) :=
      List.append_cancel_right hsplit
    exact History.mem_of.1 (by rw [hof]; simp [hdeed])
  obtain ⟨-, before, s₁, H₀, rfl, hs₁⟩ := read_of_sent (hread.before.of_append since) hcall hid₁
  have hsplit : since ++ (t, .sent first) :: (before ++ (t, .read s₁) :: H₀) =
      (since ++ (t, .sent first) :: (before ++ [(t, .read s₁)])) ++ H₀ := by simp
  rw [hsplit] at htoken hread
  have hgrown : History.installedIds (since ++ (t, .sent first) :: (before ++ [(t, .read s₁)])) ≠
      [] := by
    rcases hfinds with ⟨s, hs, hauth, hother⟩ | ⟨data, hdata⟩
    · rw [hid₁] at hother
      exact installedIds_ne_nil hread.before hs₁ (List.mem_append_left _ (hlater _ hs)) hauth hother
    · exact List.ne_nil_of_mem (History.mem_installedIds.2
        ⟨t, data, List.mem_append_left _ (hlater _ hdata), rfl⟩)
  obtain ⟨id, between, hbetween⟩ := List.exists_cons_of_ne_nil hgrown
  obtain ⟨older, holder⟩ := History.head_tokens hs₁
  obtain ⟨rest, hrest⟩ := History.head_tokens (htoken.symm.trans hid₂)
  rw [History.tokens_append, hbetween, List.cons_append] at hrest
  obtain ⟨rfl, -⟩ := List.cons.inj hrest
  refine ⟨History.installedIds after, between, older, ?_⟩
  rw [hsplit, History.tokens_append]
  show _ ++ History.tokens s₀ (_ ++ H₀) = _
  rw [History.tokens_append, hbetween, holder, List.cons_append]

end Lawful

/-! ## What the log tells -/

/-- The ids of the sessions that were held, by the log: those that were installed, the latest first,
and then the one that was held at first. -/
def heldTokens (s₀ : Session) (log : List Entry) : List String :=
  (log.filterMap fun
    | .touched _ (.install data) => some data.sessionId
    | _ => none) ++ s₀.token?.toList

/-- The ids that the console has given in its answers to logons, by the log. -/
def openedIds (log : List Entry) : List String :=
  log.filterMap fun
    | .delivered _ m d => if m.request.isLogon then d.opened.toOption.map (·.sessionId) else none
    | _ => none

/-- Whether another session was installed after the one with this id was held. -/
def Superseded (s₀ : Session) (log : List Entry) (id : String) : Prop :=
  ∃ newer older, newer ≠ [] ∧ heldTokens s₀ log = newer ++ id :: older

/-- Whether an entry tells of a step that an operation has taken, or of an answer to it. To be
cancelled or dropped is no step. -/
def Entry.IsStepOf (t : Nat) : Entry → Prop
  | touched u _ | admitted u _ _ | released u _ | sent u _ | delivered u _ _ | gaveUp u => u = t
  | cancelled _ | dropped _ => False

theorem tokens_history (s₀ : Session) (log : List Entry) :
    (history s₀ log).tokens s₀ = heldTokens s₀ log := by
  rw [History.tokens, History.installedIds, heldTokens, filterMap_history]
  intro s entry
  cases entry with
  | touched t touch => cases touch <;> rfl
  | admitted t lock access => cases lock <;> rfl
  | released t lock => cases lock <;> rfl
  | _ => rfl

theorem openedIds_history (s₀ : Session) (log : List Entry) :
    (history s₀ log).filterMap History.openedId? = openedIds log := by
  rw [openedIds, filterMap_history]
  intro s entry
  cases entry with
  | touched t touch => cases touch <;> rfl
  | admitted t lock access => cases lock <;> rfl
  | released t lock => cases lock <;> rfl
  | _ => rfl

theorem heldTokens_append (s₀ : Session) (later log : List Entry) :
    ∃ newer, heldTokens s₀ (later ++ log) = newer ++ heldTokens s₀ log := by
  rw [heldTokens, List.filterMap_append, List.append_assoc]
  exact ⟨_, rfl⟩

/-- The session that is held, if one is, is the latest that was. -/
theorem head_heldTokens {s₀ : Session} {log : List Entry} {id : String}
    (h : (sessionAfter s₀ log).token? = some id) : ∃ older, heldTokens s₀ log = id :: older := by
  rw [← session_history] at h
  rw [← tokens_history]
  exact History.head_tokens h

theorem mem_heldTokens_append {s₀ : Session} {before : List Entry} {id : String}
    (later : List Entry) (h : (sessionAfter s₀ before).token? = some id) :
    id ∈ heldTokens s₀ (later ++ before) := by
  obtain ⟨older, hheld⟩ := head_heldTokens h
  obtain ⟨newer, hnewer⟩ := heldTokens_append s₀ later before
  rw [hnewer, hheld]
  simp

/-- A token that is held was not superseded at any time before. -/
theorem not_superseded {s₀ : Session} {since before : List Entry} {id : String}
    (hnodup : (heldTokens s₀ (since ++ before)).Nodup)
    (hid : (sessionAfter s₀ (since ++ before)).token? = some id) : ¬ Superseded s₀ before id := by
  rintro ⟨newer, older, hne, hbefore⟩
  obtain ⟨added, hadded⟩ := heldTokens_append s₀ since before
  obtain ⟨rest, hrest⟩ := head_heldTokens hid
  rw [hrest] at hadded hnodup
  have hmem : id ∈ rest := by
    rw [hbefore] at hadded
    cases added with
    | nil =>
        obtain ⟨first, newer, rfl⟩ := List.exists_cons_of_ne_nil hne
        obtain ⟨rfl, rfl⟩ := List.cons.inj hadded
        simp
    | cons first added =>
        obtain ⟨rfl, rfl⟩ := List.cons.inj hadded
        simp
  exact (List.nodup_cons.1 hnodup).1 hmem

section

variable {idna : Idna} {text : String} {e : Endpoint} {shared : Shared} {calls : List Call}
  {w : World Outcome} {t : Nat} {r : Request} {m first second : Message}
  {later between earlier : List Entry}

/-- What held when a message was sent. -/
theorem World.Reaches.lawful_of_sent (h : (World.ofCalls e shared calls).Reaches w)
    (hlog : w.log = later ++ .sent t m :: earlier) :
    Lawful (.each (Call.sending e shared.options) calls) shared.session (fun _ _ _ => True)
      ((t, .sent m) :: history shared.session earlier) := by
  obtain ⟨held, hkept⟩ := h.each_kept (Call.follows_sending e)
  have hlawful := hkept.lawful
  obtain ⟨H, hH⟩ := @history_append shared.session (.sent t m :: earlier) later
  rw [hlog, hH, history_cons_some rfl] at hlawful
  exact hlawful.of_append H

/-- No token is held twice, at any time. -/
theorem World.Kept.nodup_heldTokens {α : Type} {R : Nat → Rules} {Q : Nat → Account → α → Prop}
    {s₀ : Session} {A : Answers} {w : World α} {held : Holdings} (h : w.Kept user R Q s₀ A held)
    (hR : ∀ t, (R t).Opening e user)
    (hlogon : ∀ m : Message, m.IsLogonOf e user none → m.request.isLogon = true)
    (hids : (openedIds w.log ++ s₀.token?.toList).Nodup)
    (hlog : w.log = later ++ earlier) : (heldTokens s₀ earlier).Nodup := by
  have hnodup := h.lawful.nodup_tokens hR hlogon (by rw [openedIds_history]; exact hids)
  obtain ⟨newer, hnewer⟩ := heldTokens_append s₀ later earlier
  rw [tokens_history, hlog, hnewer, List.nodup_append] at hnodup
  exact hnodup.2.1

theorem World.Reaches.nodup_heldTokens (h : (World.ofCalls e shared calls).Reaches w)
    (hlogon : ∀ m : Message, m.IsLogonOf e shared.options none → m.request.isLogon = true)
    (hids : (openedIds w.log ++ shared.session.token?.toList).Nodup)
    (hlog : w.log = later ++ earlier) : (heldTokens shared.session earlier).Nodup := by
  obtain ⟨held, hkept⟩ := h.each_kept (Call.follows_sending e)
  exact hkept.nodup_heldTokens (Rules.opening_sending e calls) hlogon hids hlog

/-- Before a call sends a token, it has looked at a session that has it. -/
theorem World.Reaches.looked_of_sent (h : (World.ofCalls e shared calls).Reaches w)
    (hcall : calls[t]? = some (.execute r)) (hlog : w.log = later ++ .sent t m :: earlier)
    {id : String} (hid : m.token = some id) :
    m.request = r ∧ ∃ during before, earlier = during ++ .touched t .session :: before ∧
      (sessionAfter shared.session before).token? = some id := by
  obtain ⟨hrequest, after, s, H, hsplit, hs⟩ := (h.lawful_of_sent hlog).read_of_sent hcall hid
  obtain ⟨during, entry, before, rfl, rfl, hdeed, -⟩ := split_of_history hsplit
  obtain rfl : entry = .touched t .session := Entry.eq_of_deed hdeed
  rw [session_history] at hs
  exact ⟨hrequest, during, before, rfl, hs⟩

/-- A call takes a step only after it has begun. -/
theorem begun_before_step {entry : Entry} {during before during' before' : List Entry}
    (hstep : entry.IsStepOf t) (hsplit : during ++ entry :: before = during' ++ before')
    (hbegun : ∀ entry ∈ before', ¬ entry.IsStepOf t) : ∃ since, before = since ++ before' := by
  rcases List.append_eq_append_iff.1 hsplit with ⟨since, -, hrest⟩ | ⟨since, -, hrest⟩
  · cases since with
    | nil =>
        obtain rfl : _ = before' := hrest
        exact absurd hstep (hbegun entry List.mem_cons_self)
    | cons first since => exact ⟨since, (List.cons.inj hrest).2⟩
  · exact absurd hstep (hbegun entry (by rw [hrest]; simp))

/-- A request is sent again only after the console has rejected it. -/
theorem World.Reaches.rejected_of_resent (h : (World.ofCalls e shared calls).Reaches w)
    (hlogon : ∀ m : Message, m.IsLogonOf e shared.options none → m.request.isLogon = true)
    (hcall : calls[t]? = some (.execute r))
    (hlog : w.log = later ++ .sent t second :: (between ++ .sent t first :: earlier))
    (hfirst : first.request = r) (hsecond : second.request = r) :
    ∃ d, .delivered t first d ∈ between ∧ d.rejects = true := by
  have hlawful := h.lawful_of_sent hlog
  obtain ⟨B, hB, htold⟩ := @history_append_of shared.session (.sent t first :: earlier) between
  rw [hB, history_cons_some rfl] at hlawful
  obtain ⟨s, since, d, past, hdeeds, -, hplain, hrejects, hsince, hpast, -⟩ :=
    hlawful.of_resent hlogon hcall hsecond (History.mem_of.2 (by simp)) hfirst
  refine ⟨d, ?_, hrejects⟩
  -- The first sending is the only one of its message, so the answer came after it.
  rw [History.of_append, History.of_cons_self] at hdeeds
  have hsplit : History.of B t ++ .sent first :: History.of (history shared.session earlier) t =
      (.left :: .read s :: .entered .shared :: (since ++ [.heard first d])) ++
        .sent first :: past := by
    rw [hdeeds]
    simp
  have hnew : .sent first ∉
      Deed.left :: .read s :: .entered .shared :: (since ++ [.heard first d]) := by
    simpa using fun hmem => hplain (hsince first hmem)
  obtain ⟨hsame, -, -⟩ := (List.append_cons_inj_of_notMem hnew
    (fun hmem => hplain (hpast first hmem))).1 hsplit.symm
  have hheard : .heard first d ∈ History.of B t := by
    rw [← hsame]
    simp
  obtain ⟨entry, hentry, s', hs'⟩ := htold _ (History.mem_of.1 hheard)
  exact Entry.eq_of_heard hs' ▸ hentry

/-- What a request carries the second time was installed after what it carried the first time. -/
theorem World.Reaches.held_of_resent (h : (World.ofCalls e shared calls).Reaches w)
    (hlogon : ∀ m : Message, m.IsLogonOf e shared.options none → m.request.isLogon = true)
    (hcall : calls[t]? = some (.execute r))
    (hlog : w.log = later ++ .sent t second :: (between ++ .sent t first :: earlier))
    (hfirst : first.request = r) (hsecond : second.request = r) {id₁ id₂ : String}
    (hid₁ : first.token = some id₁) (hid₂ : second.token = some id₂) :
    ∃ newer mid older, heldTokens shared.session (between ++ .sent t first :: earlier) =
      newer ++ id₂ :: (mid ++ id₁ :: older) := by
  have hlawful := h.lawful_of_sent hlog
  obtain ⟨B, hB⟩ := @history_append shared.session (.sent t first :: earlier) between
  rw [← tokens_history, hB, history_cons_some rfl]
  rw [hB, history_cons_some rfl] at hlawful
  exact hlawful.tokens_of_resent hlogon hcall hsecond (History.mem_of.2 (by simp)) hfirst hid₁ hid₂

/-- If the console gives every session an id of its own, also other than that of the session held at
first, the tokens of requests follow the order in which sessions were installed.

No id is held twice. A token that a request carries was held at the moment at which its call last
looked, so it was not superseded before the call took its first step. Where a call sends its request
again, the console has rejected it, and the second token was installed after the first. -/
theorem token_order (he : Endpoint.parse idna text = .ok e)
    (h : (World.ofCalls e shared calls).Reaches w)
    (hids : (openedIds w.log ++ shared.session.token?.toList).Nodup) {t : Nat} {r : Request}
    (hcall : calls[t]? = some (.execute r)) :
    (heldTokens shared.session w.log).Nodup ∧
    (∀ later m earlier id, w.log = later ++ .sent t m :: earlier → m.token = some id →
      m.request = r ∧
      (∃ during before, earlier = during ++ .touched t .session :: before ∧
        (sessionAfter shared.session before).token? = some id) ∧
      ∀ during before, earlier = during ++ before → (∀ entry ∈ before, ¬ entry.IsStepOf t) →
        ¬ Superseded shared.session before id) ∧
    ∀ later second between first earlier,
      w.log = later ++ .sent t second :: (between ++ .sent t first :: earlier) →
      first.request = r → second.request = r →
      (∃ d, .delivered t first d ∈ between ∧ d.rejects = true) ∧
      ∀ id₁ id₂, first.token = some id₁ → second.token = some id₂ → id₁ ≠ id₂ ∧
        ∃ newer mid older, heldTokens shared.session (between ++ .sent t first :: earlier) =
          newer ++ id₂ :: (mid ++ id₁ :: older) := by
  have hlogon : ∀ m : Message, m.IsLogonOf e shared.options none → m.request.isLogon = true :=
    fun m hm => hm.isLogon he
  have hnodup : ∀ later log : List Entry, w.log = later ++ log →
      (heldTokens shared.session log).Nodup :=
    fun later log hlog => h.nodup_heldTokens hlogon hids hlog
  refine ⟨hnodup [] w.log rfl, ?_, ?_⟩
  · intro later m earlier id hlog hid
    obtain ⟨hrequest, during, before, rfl, hs⟩ := h.looked_of_sent hcall hlog hid
    refine ⟨hrequest, ⟨during, before, rfl, hs⟩, fun during' before' hearlier hbegun => ?_⟩
    -- The call has looked after it began, so the log at its beginning is the shorter one.
    obtain ⟨since, rfl⟩ := begun_before_step (show Entry.IsStepOf t (.touched t .session) from rfl)
      hearlier hbegun
    have hlooked : w.log = (later ++ .sent t m :: (during ++ [.touched t .session])) ++
        (since ++ before') := by
      rw [hlog]
      simp
    exact not_superseded (hnodup _ _ hlooked) hs
  · intro later second between first earlier hlog hfirst hsecond
    refine ⟨h.rejected_of_resent hlogon hcall hlog hfirst hsecond, fun id₁ id₂ hid₁ hid₂ => ?_⟩
    obtain ⟨newer, mid, older, hheld⟩ :=
      h.held_of_resent hlogon hcall hlog hfirst hsecond hid₁ hid₂
    refine ⟨?_, newer, mid, older, hheld⟩
    rintro rfl
    have hresent : w.log =
        (later ++ [.sent t second]) ++ (between ++ .sent t first :: earlier) := by
      rw [hlog]
      simp
    have hpast := hnodup _ _ hresent
    rw [hheld, List.nodup_append] at hpast
    exact (List.nodup_cons.1 hpast.2.1).1 (by simp)

end

/-- A request whose session the console rejects is sent again in the session that was opened for
it. -/
theorem token_order_resent : ∃ (w : World Outcome) (first second : Message)
    (later between earlier : List Entry),
    (World.ofCalls Sample.endpoint (Sample.shared "old") [.execute Sample.request]).Reaches w ∧
    w.log = later ++ .sent 0 second :: (between ++ .sent 0 first :: earlier) ∧
    first.token = some "old" ∧ second.token = some "s1" ∧
    (∃ d, .delivered 0 first d ∈ between ∧ d.rejects = true) ∧ ∃ newer mid older,
      heldTokens (Sample.shared "old").session (between ++ .sent 0 first :: earlier) =
        newer ++ "s1" :: (mid ++ "old" :: older) := by
  have hrun : ((World.ofCalls Sample.endpoint (Sample.shared "old")
      [.execute Sample.request]).run (Sample.advances 0 14 ++ [.deliver 0 Sample.rejecting] ++
        Sample.advances 0 18 ++ [.deliver 0 Sample.opening] ++ Sample.advances 0 21 ++
        [.deliver 0 Sample.accepting] ++ Sample.advances 0 5)).map
        (fun w => (w.log.filterMap Entry.carried?, openedIds w.log)) =
      some ([(0, "s1"), (0, "old")], ["s1"]) := by decide +kernel
  obtain ⟨w, hw, hvalues⟩ := Option.map_eq_some_iff.1 hrun
  obtain ⟨hcarried, hopened⟩ := Prod.mk.inj hvalues
  have hreaches := World.Reaches.of_run hw
  obtain ⟨-, hsent, hresent⟩ := token_order Sample.parse_endpoint hreaches
    (by rw [hopened]; decide) (show [Call.execute Sample.request][0]? = _ from rfl)
  -- The two messages that carry a token, the later one first.
  obtain ⟨later, last, rest, hlog, -, hlast, hrest⟩ := List.filterMap_eq_cons_iff.1 hcarried
  obtain ⟨between, once, earlier, rfl, -, honce, -⟩ := List.filterMap_eq_cons_iff.1 hrest
  obtain ⟨second, rfl, hsecond⟩ := Entry.sent_of_carried hlast
  obtain ⟨first, rfl, hfirst⟩ := Entry.sent_of_carried honce
  have hsplit : w.log = (later ++ .sent 0 second :: between) ++ .sent 0 first :: earlier := by
    rw [hlog]
    simp
  obtain ⟨hrejected, horder⟩ := hresent later second between first earlier hlog
    (hsent _ first _ _ hsplit hfirst).1 (hsent _ second _ _ hlog hsecond).1
  exact ⟨w, first, second, later, between, earlier, hreaches, hlog, hfirst, hsecond, hrejected,
    (horder _ _ hfirst hsecond).2⟩

end HmcClient.Client
