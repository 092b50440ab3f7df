import HmcClient.Proofs.Client.Aftermath
import HmcClient.Proofs.Client.LoggingOff
import HmcClient.Proofs.Client.Progress
import HmcClient.Proofs.Client.Tokens

/-!
# Sessions are closed once

A logoff clears the session before it asks the console to close it, and it does both inside the lock
of the session. So a session that a logoff closes is no longer held by then, and if the console
gives every session an id of its own, it will never be held again. Whoever logs off later finds
another session or none.

`ClosedOnce` is what every deed keeps, and the place to look at is its last field: between the
clearing and the sending a logoff owes a message in a session that nobody else can close any more.

A call that changes the password closes the session that it has opened. It is kept apart from the
session of the client not by a lock but by the rules: it never comes inside the lock of the session,
and since it never installs what it has opened, nobody else ever holds that.
-/

namespace HmcClient.Client

variable {user : Options}

/-- Whether a call closes the session of the client. -/
def Call.isLogoff : Call → Bool
  | logoff => true
  | _ => false

theorem Call.eq_logoff {call : Call} (h : call.isLogoff = true) : call = .logoff := by
  cases call with
  | logoff => rfl
  | _ => cases h

/-! ## What the log tells -/

/-- The messages that an operation has sent, by the log, the latest first. -/
def sentBy (t : Nat) (log : List Entry) : List Message :=
  log.filterMap fun
    | .sent u m => if u = t then some m else none
    | _ => none

namespace History

/-- The session that a deed asks the console to close, if it is the deed of a logoff. -/
def closedId? (calls : List Call) : Nat × Deed → Option String
  | (t, .sent m) => if calls[t]?.any Call.isLogoff then m.token else none
  | _ => none

def closedIds (calls : List Call) (H : History) : List String := H.filterMap (closedId? calls)

end History

theorem sentBy_history (s₀ : Session) (t : Nat) (log : List Entry) :
    ((history s₀ log).of t).filterMap Deed.message? = sentBy t log := by
  rw [History.of, List.filterMap_filterMap, sentBy, filterMap_history]
  have hother (u : Nat) (d : Deed) (hd : d.message? = none) :
      (if u = t then some d else none).bind Deed.message? = none := by
    split
    · exact hd
    · rfl
  intro s entry
  cases entry with
  | touched u touch => cases touch <;> first | rfl | exact hother u _ rfl
  | admitted u lock access => cases lock <;> first | rfl | exact hother u _ rfl
  | released u lock => cases lock <;> first | rfl | exact hother u _ rfl
  | sent u m =>
      show (if u = t then some (Deed.sent m) else none).bind Deed.message? =
        if u = t then some m else none
      split <;> rfl
  | cancelled u => rfl
  | delivered u m d => exact hother u _ rfl
  | gaveUp u => exact hother u _ rfl
  | dropped u => exact hother u _ rfl

/-- Whether a history is one of calls that keep to their rules for closing sessions. -/
abbrev Closing (e : Endpoint) (user : Options) (calls : List Call) (s₀ : Session) (A : Answers)
    (H : History) : Prop :=
  Lawful (.each (Call.closing e user) calls) s₀ A H

/-- What holds of the sessions that logoffs have asked the console to close. -/
structure ClosedOnce (calls : List Call) (s₀ : Session) (H : History) : Prop where
  nodup : (H.closedIds calls).Nodup
  /-- They have been held. -/
  held : ∀ id ∈ H.closedIds calls, id ∈ H.tokens s₀
  /-- They are no longer held. -/
  gone : ∀ id ∈ H.closedIds calls, (H.session s₀).token? ≠ some id
  /-- A session that was cleared in order to be closed has not been closed by anybody else. -/
  pending : ∀ t s id, H.of t = [.cleared, .read s, .entered .exclusive] → s.token? = some id →
    id ∈ H.tokens s₀ ∧ id ∉ H.closedIds calls

namespace Closing

variable {e : Endpoint} {calls : List Call} {s₀ : Session} {A : Answers} {H : History} {t : Nat}
  {d : Deed} {call : Call}

theorem rules (h : Closing e user calls s₀ A H) (hcall : calls[t]? = some call) :
    (call.closing e user).Kept (H.of t) := by
  have hkept := Lawful.kept h t
  rwa [Rules.each, hcall] at hkept

theorem may (h : Closing e user calls s₀ A ((t, d) :: H)) (hcall : calls[t]? = some call)
    (hown : d.IsOwn) : call.closing e user (H.of t) d :=
  h.rules hcall [] d (H.of t) (by simp) hown

end Closing

namespace ClosedOnce

variable {e : Endpoint} {calls : List Call} {s₀ : Session} {A : Answers} {H : History} {t : Nat}
  {d : Deed}

/-- A deed after which what was closed and what is owed are as before. -/
theorem quiet (h : ClosedOnce calls s₀ H)
    (hclosed : History.closedIds calls ((t, d) :: H) = H.closedIds calls)
    (htokens : ∀ id ∈ H.tokens s₀, id ∈ History.tokens s₀ ((t, d) :: H))
    (hgone : ∀ id ∈ H.closedIds calls, (History.session s₀ ((t, d) :: H)).token? ≠ some id)
    (hd : d ≠ .cleared) : ClosedOnce calls s₀ ((t, d) :: H) where
  nodup := by rw [hclosed]; exact h.nodup
  held id hid := htokens id (h.held id (hclosed ▸ hid))
  gone id hid := hgone id (hclosed ▸ hid)
  pending u s id hof hid := by
    by_cases htu : t = u
    · subst htu
      rw [History.of_cons_self] at hof
      exact absurd (List.cons.inj hof).1 hd
    · rw [History.of_cons_ne htu] at hof
      rw [hclosed]
      obtain ⟨htoken, hnew⟩ := h.pending u s id hof hid
      exact ⟨htokens id htoken, hnew⟩

/-- Whoever clears a session has just seen it, so it was held until now and not closed. -/
theorem cleared (h : ClosedOnce calls s₀ H) (hH : Closing e user calls s₀ A H) :
    ClosedOnce calls s₀ ((t, .cleared) :: H) where
  nodup := h.nodup
  held := h.held
  gone id _ := nofun
  pending u s id hof hid := by
    by_cases htu : t = u
    · subst htu
      rw [History.of_cons_self] at hof
      have hof' : H.of t = [.read s, .entered .exclusive] := (List.cons.inj hof).2
      have hsession : (H.session s₀).token? = some id := by
        rw [(hH.session_of_seen (t := t) (s := s) (by rw [hof']; rfl)).1]
        exact hid
      obtain ⟨older, htokens⟩ := History.head_tokens hsession
      have hheld : id ∈ H.tokens s₀ := by
        rw [htokens]
        exact List.mem_cons_self
      exact ⟨hheld, fun hclosed => h.gone id hclosed hsession⟩
    · rw [History.of_cons_ne htu] at hof
      exact h.pending u s id hof hid

/-- A logoff sends the message that it owes. Nobody else owes one, being alone inside the lock. -/
theorem sent (h : ClosedOnce calls s₀ H) {m : Message}
    (hH : Closing e user calls s₀ A ((t, .sent m) :: H)) (hcall : calls[t]? = some .logoff) :
    ClosedOnce calls s₀ ((t, .sent m) :: H) := by
  obtain ⟨s, id, hof, hs, hm⟩ := hH.may hcall trivial
  have hclosed : History.closedIds calls ((t, .sent m) :: H) = id :: H.closedIds calls := by
    refine List.filterMap_cons_some ?_
    rw [History.closedId?, hcall, ← hm.token]
    rfl
  obtain ⟨htoken, hnew⟩ := h.pending t s id hof hs
  have hnone : (History.session s₀ ((t, .sent m) :: H)).token? = none := by
    show (H.session s₀).token? = none
    rw [(hH.before.session_of_seen (t := t) (s := .none) (by rw [hof]; rfl)).1]
    rfl
  refine ⟨?_, ?_, fun id' _ hid' => (nomatch hnone.symm.trans hid'), fun u s' id' hof' hid' => ?_⟩
  · rw [hclosed]
    exact List.nodup_cons.2 ⟨hnew, h.nodup⟩
  · rw [hclosed]
    intro id' hid'
    rcases List.mem_cons.1 hid' with rfl | hid'
    · exact htoken
    · exact h.held id' hid'
  · by_cases htu : t = u
    · subst htu
      rw [History.of_cons_self, hof] at hof'
      cases hof'
    · rw [History.of_cons_ne htu] at hof'
      have hout := hH.before.inside_eq_none (t := t) (u := u) (by rw [hof]; rfl) (Ne.symm htu)
      rw [hof'] at hout
      cases hout

theorem next (h : ClosedOnce calls s₀ H) (hH : Closing e user calls s₀ A ((t, d) :: H))
    (hnodup : (History.tokens s₀ ((t, d) :: H)).Nodup) : ClosedOnce calls s₀ ((t, d) :: H) := by
  cases d with
  | installed data =>
      refine h.quiet rfl (fun id hid => List.mem_cons_of_mem _ hid) (fun id hid hheld => ?_) nofun
      obtain rfl : data.sessionId = id := Session.token_of_token? hheld
      exact (List.nodup_cons.1 hnodup).1 (h.held _ hid)
  | cleared => exact h.cleared hH.before
  | sent m =>
      by_cases hlogoff : calls[t]?.any Call.isLogoff = true
      · obtain ⟨call, hcall, hcloses⟩ := Option.any_eq_true _ _ |>.1 hlogoff
        obtain rfl := Call.eq_logoff hcloses
        exact h.sent hH hcall
      · refine h.quiet (List.filterMap_cons_none (if_neg hlogoff)) (fun id hid => hid) ?_ nofun
        exact fun id hid => h.gone id hid
  | _ => exact h.quiet rfl (fun id hid => hid) (fun id hid => h.gone id hid) nofun

end ClosedOnce

namespace Lawful

variable {e : Endpoint} {calls : List Call} {s₀ : Session} {A : Answers} {H : History} {t : Nat}

end Lawful

/-- An operation has come to its end and has given something. -/
def World.Ended {α : Type} (w : World α) (t : Nat) (a : α) : Prop :=
  ∃ thread, w.threads[t]? = some thread ∧ thread.dropped = false ∧ thread.result? = some a

section

variable {e : Endpoint} {calls : List Call} {s₀ : Session} {A : Answers} {w : World Outcome}
  {held : World.Holdings} {t : Nat} {call : Call} {log later before : List Entry}
  {access : Access} {outcome : Outcome}

/-- The history of a log whose entry tells a deed. -/
theorem Lawful.of_entry {R : Nat → Rules} {entry : Entry} {d : Deed}
    (h : Lawful R s₀ A (history s₀ (later ++ entry :: before)))
    (hdeed : ∀ s, entry.deed? s = some (t, d)) :
    ∃ L, history s₀ (later ++ entry :: before) = L ++ (t, d) :: history s₀ before ∧
      Lawful R s₀ A ((t, d) :: history s₀ before) := by
  obtain ⟨L, hL⟩ := @history_append s₀ (entry :: before) later
  rw [history_cons_some (hdeed _)] at hL
  rw [hL] at h
  exact ⟨L, hL, h.of_append L⟩

/-- What a logoff has found is the session that was held when it was let in. -/
theorem Closing.found (h : Closing e user calls s₀ A (history s₀ log))
    (hcall : calls[t]? = some .logoff)
    (hlog : log = later ++ .admitted t .session access :: before) :
    access = .exclusive ∧ ∀ deeds s, (history s₀ log).of t =
      deeds ++ [.read s, .entered .exclusive] → s = sessionAfter s₀ before := by
  subst hlog
  obtain ⟨L, hL, hentered⟩ := Lawful.of_entry h (t := t) (d := .entered access) fun _ => rfl
  obtain ⟨rfl, hnil⟩ := Closing.may hentered hcall trivial
  refine ⟨rfl, fun deeds s hdeeds => ?_⟩
  rw [hL] at h hdeeds
  rw [History.of_append, History.of_cons_self, hnil] at hdeeds
  have hfirst : L.of t = deeds ++ [.read s] := by
    rw [show deeds ++ [Deed.read s, .entered .exclusive] =
      (deeds ++ [.read s]) ++ [.entered .exclusive] by simp] at hdeeds
    exact List.append_cancel_right hdeeds
  rw [h.eq_of_first_read hfirst, session_history]

variable (h : w.Kept user (.each (Call.closing e user) calls)
  (fun t g outcome => ∃ call, calls[t]? = some call ∧ call.Ends e user g outcome) s₀ A held)

include h

end

/-! ## All calls together -/

section

variable {e : Endpoint} {shared : Shared} {calls : List Call} {w : World Outcome}
  {held : World.Holdings} {A : Answers}

end

/-! ## Where only logoffs write -/

section

variable {e : Endpoint} {shared : Shared} {calls : List Call} {w : World Outcome}
  {held : World.Holdings} {A : Answers} {t : Nat} {id : String}
  (hkept : w.Kept user (.each (Call.closing e user) calls)
    (fun t g outcome => ∃ call, calls[t]? = some call ∧ call.Ends e user g outcome) shared.session A
    held)
  (hwrites : ∀ t touch, IsWrite touch → .touched t touch ∈ w.log → calls[t]? = some .logoff)
  (hid : shared.session.token? = some id)

include hkept hwrites

include hid

end

/-- Who writes the session, by the log, the latest first. -/
def writers (log : List Entry) : List Nat :=
  log.filterMap fun
    | .touched t (.install _) | .touched t .clear => some t
    | _ => none

theorem mem_writers {log : List Entry} {t : Nat} {touch : Touch} (hwrite : IsWrite touch)
    (h : .touched t touch ∈ log) : t ∈ writers log := by
  refine List.mem_filterMap.2 ⟨_, h, ?_⟩
  cases touch with
  | install data => rfl
  | clear => rfl
  | _ => exact hwrite.elim

end HmcClient.Client
