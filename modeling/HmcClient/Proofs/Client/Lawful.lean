import HmcClient.Proofs.Client.Follows

/-!
# Histories that can be

Which deed can follow which history is told by three things: the lock of the session, the session
as it is then, and the console. `Fits` says what they ask. A history is `Lawful` if every deed of it
fitted when it was done and was allowed to its operation by the operation's own rules.

Two facts hold of all lawful histories. An operation that is alone inside the lock of the session
is the only one inside. And what an operation has seen the session to be, it still is.

What a whole run keeps is shown by induction on lawful histories. There is one step for each deed,
and no trace of how the operations are written.
-/

namespace HmcClient.Client

/-- Which answers a console gives to a message, after what has happened. -/
abbrev Answers := History → Message → Delivery → Prop

/-- Whether a deed is one that an operation chooses to do. -/
def Deed.IsOwn : Deed → Prop
  | .heard .. | .gaveUp | .dropped => False
  | _ => True

/-- Whether a deed can be the next one. -/
def Fits (s₀ : Session) (A : Answers) (H : History) (t : Nat) : Deed → Prop
  | .entered .exclusive => ∀ u, Deed.inside (H.of u) = none
  | .entered .shared => ∀ u, Deed.inside (H.of u) ≠ some .exclusive
  | .left => Deed.inside (H.of t) ≠ none
  | .read s => Deed.inside (H.of t) ≠ none ∧ s = H.session s₀
  | .installed _ | .cleared => Deed.inside (H.of t) = some .exclusive
  | .heard m d => (∃ earlier, H.of t = .sent m :: earlier) ∧ d ≠ .cancelled ∧ A H m d
  | .sent _ | .gaveUp | .dropped => True

/-- Whether a history can be. -/
inductive Lawful (R : Nat → Rules) (s₀ : Session) (A : Answers) : History → Prop where
  | nil : Lawful R s₀ A []
  | cons {H : History} {t : Nat} {d : Deed} (h : Lawful R s₀ A H) (hlive : .dropped ∉ H.of t)
    (hfits : Fits s₀ A H t d) (hmay : d.IsOwn → R t (H.of t) d) :
    Lawful R s₀ A ((t, d) :: H)

namespace Lawful

variable {R : Nat → Rules} {s₀ : Session} {A : Answers} {H : History}

theorem of_append (later : History) (h : Lawful R s₀ A (later ++ H)) : Lawful R s₀ A H := by
  induction later with
  | nil => exact h
  | cons deed later ih =>
      cases h with
      | cons h _ _ _ => exact ih h

theorem before {t : Nat} {d : Deed} (h : Lawful R s₀ A ((t, d) :: H)) : Lawful R s₀ A H := by
  cases h with
  | cons h _ _ _ => exact h

theorem fits {t : Nat} {d : Deed} (h : Lawful R s₀ A ((t, d) :: H)) : Fits s₀ A H t d := by
  cases h with
  | cons _ _ hfits _ => exact hfits

theorem may {t : Nat} {d : Deed} (h : Lawful R s₀ A ((t, d) :: H)) (hown : d.IsOwn) :
    R t (H.of t) d := by
  cases h with
  | cons _ _ _ hmay => exact hmay hown

/-- One operation alone inside the lock of the session is the only one. -/
theorem inside_eq_none (h : Lawful R s₀ A H) {t u : Nat}
    (ht : Deed.inside (H.of t) = some .exclusive) (hu : u ≠ t) :
    Deed.inside (H.of u) = none := by
  induction h with
  | nil => cases ht
  | @cons H v d h hlive hfits hmay ih =>
      by_cases hvt : v = t
      · subst hvt
        rw [History.of_cons_ne hu.symm]
        rw [History.of_cons_self] at ht
        cases d with
        | entered access =>
            obtain rfl : access = .exclusive := by simpa [Deed.inside] using ht
            exact hfits u
        | left => cases ht
        | dropped => cases ht
        | _ => exact ih ht
      · rw [History.of_cons_ne hvt] at ht
        by_cases hvu : v = u
        · subst hvu
          rw [History.of_cons_self]
          cases d with
          | entered access =>
              cases access with
              | shared => exact absurd ht (hfits t)
              | exclusive => rw [hfits t] at ht; cases ht
          | left => rfl
          | dropped => rfl
          | _ => exact ih ht
        · rw [History.of_cons_ne hvu]
          exact ih ht

/-- What an operation has seen the session to be, it still is. -/
theorem session_of_seen (h : Lawful R s₀ A H) {t : Nat} {s : Session}
    (hs : Deed.seen (H.of t) = some s) :
    H.session s₀ = s ∧ Deed.inside (H.of t) ≠ none := by
  induction h with
  | nil => cases hs
  | @cons H v d h hlive hfits hmay ih =>
      by_cases hvt : v = t
      · subst hvt
        rw [History.of_cons_self] at hs ⊢
        cases d with
        | entered access => cases hs
        | left => cases hs
        | dropped => cases hs
        | read s' =>
            obtain rfl : s' = s := by simpa [Deed.seen] using hs
            exact ⟨hfits.2.symm, hfits.1⟩
        | installed data =>
            obtain rfl : Session.ofLogon data = s := by simpa [Deed.seen] using hs
            exact ⟨rfl, fun hn => nomatch hfits.symm.trans hn⟩
        | cleared =>
            obtain rfl : Session.none = s := by simpa [Deed.seen] using hs
            exact ⟨rfl, fun hn => nomatch hfits.symm.trans hn⟩
        | _ => exact ih hs
      · rw [History.of_cons_ne hvt] at hs ⊢
        obtain ⟨hsession, hinside⟩ := ih hs
        -- Another operation writes only if it is alone inside, and this one is inside too.
        have hwrite : Deed.inside (H.of v) ≠ some .exclusive := fun hv =>
          hinside (h.inside_eq_none hv (Ne.symm hvt))
        refine ⟨?_, hinside⟩
        cases d with
        | installed data => exact absurd hfits hwrite
        | cleared => exact absurd hfits hwrite
        | _ => exact hsession

end Lawful

end HmcClient.Client
