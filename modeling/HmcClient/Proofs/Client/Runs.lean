import HmcClient.Proofs.Client.Events
import HmcClient.Proofs.Client.Lawful
import HmcClient.Proofs.Client.Locking

/-!
# Every run of a world has a lawful history

The operations of a world run in any order, with any answers, and any of them may be cancelled or
dropped. If each keeps to its rules when it is looked at alone, the history of the run is lawful.
This is where the two views meet: `Follows` speaks of one operation and of all branches of its tree,
`Lawful` of all operations and of the one branch that each has taken.

`World.Kept` is what every event keeps. It says that the turnstiles agree with what the operations
hold, that the history is lawful and tells the session that is held now, and that each operation has
still to do what keeps to its rules, from the account that the history gives it.

`Leads` is reachability with a console that answers as it is said to.
-/

namespace HmcClient.Client

variable {α : Type}

/-- What is left to an operation keeps to rules. If it waits for an answer, its last deed is to have
sent the message. -/
def Thread.Stands (user : Options) (R : Rules) (Q : Account → α → Prop) (g : Account)
    (thread : Thread α) : Prop :=
  match thread.message? with
  | none => Follows user R Q g thread.rest
  | some m => ∃ earlier, g.deeds = .sent m :: earlier ∧
    Follows user R Q ⟨g.held, earlier⟩ thread.rest

theorem Thread.stands_iff {user : Options} {R : Rules} {Q : Account → α → Prop} {g : Account}
    {thread : Thread α} (h : thread.message? = none) :
    thread.Stands user R Q g ↔ Follows user R Q g thread.rest := by
  rw [Thread.Stands, h]

theorem Thread.stands_resume {user : Options} {R : Rules} {Q : Account → α → Prop} {g : Account}
    (thread : Thread α) {rest : Program Steps α} (h : Follows user R Q g rest) :
    Thread.Stands user R Q g { thread with rest := rest, waiting := false } := by
  refine (stands_iff ?_).2 h
  unfold Thread.message?
  split
  · exact if_neg Bool.false_ne_true
  · rfl

/-! ## Touches and their deeds -/

theorem Touch.gives_apply {user : Options} {shared : Shared}
    (h : shared.options.SameUser user) (touch : Touch) :
    touch.Gives user (touch.apply shared).1 := by
  cases touch <;> first | exact h | trivial

theorem Touch.sameUser_apply {user : Options} {shared : Shared} {touch : Touch}
    (h : shared.options.SameUser user) (hkeeps : touch.Keeps user) :
    (touch.apply shared).2.options.SameUser user := by
  cases touch <;> first | exact hkeeps | exact h

/-- What a touch of the session tells. -/
inductive Deed.Touches (s : Session) : Deed → Prop where
  | read : Touches s (.read s)
  | installed (data : LogonData) : Touches s (.installed data)
  | cleared : Touches s .cleared

theorem Touch.touches_of_deed {touch : Touch} {shared : Shared} {d : Deed}
    (h : deedOf touch (touch.apply shared).1 = some d) : d.Touches shared.session := by
  cases touch with
  | session => obtain rfl := Option.some.inj h; exact .read
  | install data => obtain rfl := Option.some.inj h; exact .installed data
  | clear => obtain rfl := Option.some.inj h; exact .cleared
  | _ => cases h

theorem Entry.deed?_touched (shared : Shared) (t : Nat) (touch : Touch) :
    Entry.deed? shared.session (.touched t touch) =
      (deedOf touch (touch.apply shared).1).map (Prod.mk t) := by
  cases touch <;> rfl

theorem Touch.isOwn_of_deed {touch : Touch} {answer : touch.Answer} {d : Deed}
    (h : deedOf touch answer = some d) : d.IsOwn := by
  cases touch with
  | session => obtain rfl := Option.some.inj h; trivial
  | install data => obtain rfl := Option.some.inj h; trivial
  | clear => obtain rfl := Option.some.inj h; trivial
  | _ => cases h

theorem Touch.apply_session_of_quiet {touch : Touch} {shared : Shared}
    (h : deedOf touch (touch.apply shared).1 = none) :
    (touch.apply shared).2.session = shared.session := by
  cases touch with
  | session => cases h
  | install data => cases h
  | clear => cases h
  | _ => rfl

theorem Touch.apply_session_of_deed {touch : Touch} {shared : Shared} {d : Deed}
    {s₀ : Session} {H : History} {t : Nat} (h : deedOf touch (touch.apply shared).1 = some d)
    (hs : shared.session = H.session s₀) :
    (touch.apply shared).2.session = History.session s₀ ((t, d) :: H) := by
  cases touch with
  | session => obtain rfl := Option.some.inj h; exact hs
  | install data => obtain rfl := Option.some.inj h; rfl
  | clear => obtain rfl := Option.some.inj h; rfl
  | _ => cases h

namespace World

/-- Whether an event agrees with how the console answers messages. -/
def Allows (P : List Entry → Message → Delivery → Prop) (w : World α) : Event → Prop
  | .deliver t d => ∀ thread m, w.threads[t]? = some thread → thread.message? = some m → P w.log m d
  | _ => True

/-- The world can come to another one while the console answers messages in a certain way. -/
inductive Leads (P : List Entry → Message → Delivery → Prop) : World α → World α → Prop where
  | refl (w : World α) : Leads P w w
  | step {w w' w'' : World α} (event : Event) (h : w.next event = some w')
    (hallows : w.Allows P event) (rest : Leads P w' w'') : Leads P w w''

theorem Reaches.snoc {w w' w'' : World α} {event : Event} (h : Reaches w w')
    (hnext : w'.next event = some w'') : Reaches w w'' := by
  induction h with
  | refl w => exact .step event hnext (.refl w'')
  | step first hfirst rest ih => exact .step first hfirst (ih hnext)

theorem Reaches.trans {w w' w'' : World α} (h : Reaches w w') (h' : Reaches w' w'') :
    Reaches w w'' := by
  induction h with
  | refl w => exact h'
  | step event hnext rest ih => exact .step event hnext (ih h')

theorem Reaches.leads {w w' : World α} (h : Reaches w w') : Leads (fun _ _ _ => True) w w' := by
  induction h with
  | refl w => exact .refl w
  | step event hnext rest ih =>
      refine .step event hnext ?_ ih
      cases event with
      | deliver t d => exact fun _ _ _ _ => trivial
      | _ => trivial

/-! ## Runs that are written out -/

theorem Reaches.of_run {w w' : World α} {events : List Event} (h : w.run events = some w') :
    Reaches w w' := by
  induction events generalizing w with
  | nil =>
      obtain rfl := Option.some.inj h
      exact .refl w
  | cons event events ih =>
      obtain ⟨w₁, hnext, hrest⟩ := Option.bind_eq_some_iff.1 h
      exact .step event hnext (ih hrest)

section

variable {P : List Entry → Message → Delivery → Prop} [∀ log m d, Decidable (P log m d)]

instance (w : World α) (event : Event) : Decidable (w.Allows P event) :=
  match event with
  | .deliver t d =>
    match h : w.threads[t]?.bind Thread.message? with
    | some m =>
      decidable_of_iff (P w.log m d) ⟨fun hP thread m' ht hm => by
        rw [ht, Option.bind_some, hm] at h
        exact Option.some.inj h ▸ hP, fun hallows => by
        obtain ⟨thread, ht, hm⟩ := Option.bind_eq_some_iff.1 h
        exact hallows thread m ht hm⟩
    | none => isTrue fun thread m ht hm => by
        rw [ht, Option.bind_some, hm] at h
        cases h
  | .advance _ | .cancel _ | .drop _ | .change _ => isTrue trivial

/-- Events happen one after the other, as far as the console answers in a certain way. -/
def runAllowed (P : List Entry → Message → Delivery → Prop) [∀ log m d, Decidable (P log m d)]
    (w : World α) (events : List Event) : Option (World α) :=
  events.foldlM (fun w event => if w.Allows P event then w.next event else none) w

theorem Leads.of_run {w w' : World α} {events : List Event}
    (h : w.runAllowed P events = some w') : Leads P w w' := by
  induction events generalizing w with
  | nil =>
      obtain rfl := Option.some.inj h
      exact .refl w
  | cons event events ih =>
      obtain ⟨w₁, hnext, hrest⟩ := Option.bind_eq_some_iff.1 h
      dsimp only at hnext
      split at hnext
      · next hallows => exact .step event hnext hallows (ih hrest)
      · cases hnext

end

/-! ## What is kept -/

/-- What every event keeps. -/
structure Kept (user : Options) (R : Nat → Rules) (Q : Nat → Account → α → Prop) (s₀ : Session)
    (A : Answers) (w : World α) (held : Holdings) : Prop where
  sameUser : w.shared.options.SameUser user
  locking : w.Locking held
  lawful : Lawful R s₀ A (history s₀ w.log)
  session : w.shared.session = (history s₀ w.log).session s₀
  inside : ∀ t access, (.session, access) ∈ held t ↔
    Deed.inside ((history s₀ w.log).of t) = some access
  dropped : ∀ t : Nat, .dropped ∈ (history s₀ w.log).of t →
    ∃ thread, w.threads[t]? = some thread ∧ thread.dropped = true
  gaveUp : ∀ t : Nat, .gaveUp ∈ (history s₀ w.log).of t →
    ∃ thread, w.threads[t]? = some thread ∧ thread.cancelled = true
  stands : ∀ (t : Nat) (thread : Thread α), w.threads[t]? = some thread →
    thread.dropped = false → thread.Stands user (R t) (Q t) ⟨held t, (history s₀ w.log).of t⟩

namespace Kept

variable {user : Options} {R : Nat → Rules} {Q : Nat → Account → α → Prop} {s₀ : Session}
  {A : Answers} {w w' : World α} {held : Holdings} {t : Nat} {thread thread' : Thread α}

theorem start {shared : Shared} {operations : List (Program Steps α)}
    (h : ∀ t p, operations[t]? = some p → Follows shared.options (R t) (Q t) .opening p) :
    (World.start shared operations).Kept shared.options R Q shared.session A fun _ => [] where
  sameUser := ⟨rfl, rfl⟩
  locking := .start shared operations
  lawful := .nil
  session := rfl
  inside t access := by simp [World.start, history, Deed.inside]
  dropped t ht := nomatch ht
  gaveUp t ht := nomatch ht
  stands t thread ht _ := by
    simp only [World.start, List.getElem?_map, Option.map_eq_some_iff] at ht
    obtain ⟨p, hp, rfl⟩ := ht
    have hnone : (Thread.start p).message? = none := by
      cases p with
      | done a => rfl
      | perform step next => cases step <;> rfl
    rw [Thread.Stands, hnone]
    exact h t p hp

theorem live (h : w.Kept user R Q s₀ A held) (ht : w.threads[t]? = some thread)
    (hlive : thread.dropped = false) : .dropped ∉ (history s₀ w.log).of t := by
  intro hmem
  obtain ⟨other, hother, hdropped⟩ := h.dropped t hmem
  rw [ht] at hother
  cases hother
  rw [hlive] at hdropped
  cases hdropped

/-- An operation that is over has ended as promised. -/
theorem ended (h : w.Kept user R Q s₀ A held) (ht : w.threads[t]? = some thread)
    (hlive : thread.dropped = false) {a : α} (ha : thread.result? = some a) :
    Q t ⟨held t, (history s₀ w.log).of t⟩ a := by
  have hstands := h.stands t thread ht hlive
  cases hrest : thread.rest with
  | perform step next => rw [Thread.result?, hrest] at ha; cases ha
  | done a' =>
      rw [Thread.result?, hrest] at ha
      cases ha
      rwa [Thread.stands_iff (by rw [Thread.message?, hrest]), hrest] at hstands

/-- An event that is no deed. -/
theorem quiet (h : w.Kept user R Q s₀ A held) {mine : List (Lock × Access)}
    (hthreads : w'.threads = w.threads.set t thread') (ht : w.threads[t]? = some thread)
    (hlocking : w'.Locking (held.put t mine))
    (hhistory : history s₀ w'.log = history s₀ w.log)
    (hsession : w'.shared.session = w.shared.session) (huser : w'.shared.options.SameUser user)
    (hinside : ∀ access, (.session, access) ∈ mine ↔ (.session, access) ∈ held t)
    (hdropped : thread'.dropped = thread.dropped)
    (hcancelled : thread.cancelled = true → thread'.cancelled = true)
    (hstands : thread'.dropped = false →
      thread'.Stands user (R t) (Q t) ⟨mine, (history s₀ w.log).of t⟩) :
    w'.Kept user R Q s₀ A (held.put t mine) where
  sameUser := huser
  locking := hlocking
  lawful := by rw [hhistory]; exact h.lawful
  session := by rw [hhistory, hsession]; exact h.session
  inside u access := by
    rw [hhistory, ← h.inside]
    by_cases hut : u = t
    · rw [hut, Holdings.put_self, hinside]
    · rw [Holdings.put_ne held mine hut]
  dropped u hu := by
    rw [hhistory] at hu
    obtain ⟨other, hother, hd⟩ := h.dropped u hu
    rw [hthreads, getElem?_set ht]
    split
    · next hut =>
        subst hut
        rw [ht] at hother
        cases hother
        exact ⟨thread', rfl, hdropped.trans hd⟩
    · exact ⟨other, hother, hd⟩
  gaveUp u hu := by
    rw [hhistory] at hu
    obtain ⟨other, hother, hc⟩ := h.gaveUp u hu
    rw [hthreads, getElem?_set ht]
    split
    · next hut =>
        subst hut
        rw [ht] at hother
        cases hother
        exact ⟨thread', rfl, hcancelled hc⟩
    · exact ⟨other, hother, hc⟩
  stands u other hother hlive := by
    rw [hthreads, getElem?_set ht] at hother
    rw [hhistory]
    split at hother
    · next hut =>
        subst hut
        cases hother
        rw [Holdings.put_self]
        exact hstands hlive
    · next hut =>
        rw [Holdings.put_ne held mine hut]
        exact h.stands u other hother hlive

/-- An event that is a deed. -/
theorem deed (h : w.Kept user R Q s₀ A held) {mine : List (Lock × Access)} {d : Deed}
    (hthreads : w'.threads = w.threads.set t thread') (ht : w.threads[t]? = some thread)
    (hlive : thread.dropped = false) (hlocking : w'.Locking (held.put t mine))
    (hhistory : history s₀ w'.log = (t, d) :: history s₀ w.log)
    (hfits : Fits s₀ A (history s₀ w.log) t d)
    (hmay : d.IsOwn → R t ((history s₀ w.log).of t) d)
    (hsession : w'.shared.session = History.session s₀ ((t, d) :: history s₀ w.log))
    (huser : w'.shared.options.SameUser user)
    (hinside : ∀ access, (.session, access) ∈ mine ↔
      Deed.inside (d :: (history s₀ w.log).of t) = some access)
    (hdropped : d = .dropped → thread'.dropped = true)
    (hgaveUp : d = .gaveUp → thread.cancelled = true)
    (hcancelled : thread'.cancelled = thread.cancelled)
    (hstands : thread'.dropped = false →
      thread'.Stands user (R t) (Q t) ⟨mine, d :: (history s₀ w.log).of t⟩) :
    w'.Kept user R Q s₀ A (held.put t mine) where
  sameUser := huser
  locking := hlocking
  lawful := by
    rw [hhistory]
    exact .cons h.lawful (h.live ht hlive) hfits hmay
  session := by rw [hhistory, hsession]
  inside u access := by
    rw [hhistory]
    by_cases hut : u = t
    · rw [hut, Holdings.put_self, hinside, History.of_cons_self]
    · rw [Holdings.put_ne held mine hut, History.of_cons_ne (Ne.symm hut), h.inside]
  dropped u hu := by
    rw [hthreads, getElem?_set ht]
    rw [hhistory] at hu
    by_cases hut : u = t
    · subst hut
      rw [History.of_cons_self] at hu
      rcases List.mem_cons.1 hu with hd | hu
      · exact ⟨thread', if_pos rfl, hdropped hd.symm⟩
      · exact absurd hu (h.live ht hlive)
    · rw [History.of_cons_ne (Ne.symm hut)] at hu
      rw [if_neg hut]
      exact h.dropped u hu
  gaveUp u hu := by
    rw [hthreads, getElem?_set ht]
    rw [hhistory] at hu
    by_cases hut : u = t
    · subst hut
      rw [History.of_cons_self] at hu
      refine ⟨thread', if_pos rfl, hcancelled.trans ?_⟩
      rcases List.mem_cons.1 hu with hd | hu
      · exact hgaveUp hd.symm
      · obtain ⟨other, hother, hc⟩ := h.gaveUp u hu
        rw [ht] at hother
        cases hother
        exact hc
    · rw [History.of_cons_ne (Ne.symm hut)] at hu
      rw [if_neg hut]
      exact h.gaveUp u hu
  stands u other hother hlive' := by
    rw [hthreads, getElem?_set ht] at hother
    rw [hhistory]
    split at hother
    · next hut =>
        subst hut
        cases hother
        rw [Holdings.put_self, History.of_cons_self]
        exact hstands hlive'
    · next hut =>
        rw [Holdings.put_ne held mine hut, History.of_cons_ne (Ne.symm hut)]
        exact h.stands u other hother hlive'

/-! ### The steps of one operation -/

theorem fits_of_permits (h : w.Kept user R Q s₀ A held) {d : Deed} (hd : d.Touches w.shared.session)
    (hpermits : Account.Permits ⟨held t, (history s₀ w.log).of t⟩ d) :
    Fits s₀ A (history s₀ w.log) t d := by
  cases hd with
  | read =>
      obtain ⟨access, haccess⟩ := hpermits
      refine ⟨fun hnone => ?_, h.session⟩
      rw [(h.inside t access).1 haccess] at hnone
      cases hnone
  | installed data => exact (h.inside t .exclusive).1 hpermits
  | cleared => exact (h.inside t .exclusive).1 hpermits

theorem fits_entered (h : w.Kept user R Q s₀ A held) {access : Access}
    (hadmits : (w.locks .session).admits access = true) :
    Fits s₀ A (history s₀ w.log) t (.entered access) := by
  have hholds : ∀ u a, Deed.inside ((history s₀ w.log).of u) = some a →
      (u, a) ∈ (w.locks .session).holders :=
    fun u a ha => (h.locking.holders _ _ _).2 ((h.inside u a).2 ha)
  cases access with
  | shared =>
      intro u hu
      exact nomatch List.all_eq_true.1 hadmits _ (hholds u _ hu)
  | exclusive =>
      intro u
      cases hin : Deed.inside ((history s₀ w.log).of u) with
      | none => rfl
      | some a =>
          have := hholds u a hin
          rw [List.isEmpty_iff.1 hadmits] at this
          cases this

theorem touch (h : w.Kept user R Q s₀ A held)
    (ht : w.threads[t]? = some thread) (hlive : thread.dropped = false) {touch : Touch}
    {next : touch.Answer → Program Steps α} (hrest : thread.rest = .perform (.touch touch) next) :
    (((resume { w with shared := (touch.apply w.shared).2 } t thread
      (next (touch.apply w.shared).1)).note (.touched t touch))).Kept user R Q s₀ A
      (held.put t (held t)) := by
  have hstands := h.stands t thread ht hlive
  rw [Thread.stands_iff (by rw [Thread.message?, hrest]), hrest] at hstands
  obtain ⟨hkeeps, hstands⟩ := hstands
  have hanswer := hstands (touch.apply w.shared).1 (Touch.gives_apply h.sameUser touch)
  have huser := Touch.sameUser_apply h.sameUser hkeeps
  have hentry := Entry.deed?_touched w.shared t touch
  rw [h.session] at hentry
  have hlocking : World.Locking (((resume { w with shared := (touch.apply w.shared).2 } t thread
      (next (touch.apply w.shared).1)).note (.touched t touch))) (held.put t (held t)) := by
    refine h.locking.keep rfl rfl ht rfl fun lock access => ?_
    exact iff_of_false (Thread.not_awaits_of_not_waiting rfl lock access)
      (Thread.not_awaits_of_rest hrest (by simp) lock access)
  cases hdeed : deedOf touch (touch.apply w.shared).1 with
  | none =>
      rw [hdeed] at hanswer hentry
      exact h.quiet rfl ht hlocking (history_cons_none hentry)
        (Touch.apply_session_of_quiet hdeed) huser (fun _ => Iff.rfl) rfl id fun _ =>
        Thread.stands_resume thread hanswer
  | some d =>
      rw [hdeed] at hanswer hentry
      obtain ⟨hpermits, hmay, hgo⟩ := hanswer
      have htouches := Touch.touches_of_deed hdeed
      have hfits := h.fits_of_permits htouches hpermits
      refine h.deed rfl ht hlive hlocking (history_cons_some hentry) hfits (fun _ => hmay)
        (Touch.apply_session_of_deed hdeed h.session) huser (fun access => ?_) ?_ ?_ rfl
        fun _ => Thread.stands_resume thread hgo
      · rw [h.inside]
        cases htouches <;> rfl
      · rintro rfl
        cases htouches
      · rintro rfl
        cases htouches

theorem release (h : w.Kept user R Q s₀ A held)
    (ht : w.threads[t]? = some thread) (hlive : thread.dropped = false) {lock : Lock}
    {next : Unit → Program Steps α} (hrest : thread.rest = .perform (.release lock) next) :
    (((w.resume t thread (next ())).setLock lock ((w.locks lock).exit t)).note
      (.released t lock)).Kept user R Q s₀ A (held.put t ((held t).filter (·.1 ≠ lock))) := by
  have hstands := h.stands t thread ht hlive
  rw [Thread.stands_iff (by rw [Thread.message?, hrest]), hrest] at hstands
  obtain ⟨hheld, hmay, hgo⟩ := hstands
  have hlocking : World.Locking (((w.resume t thread (next ())).setLock lock
      ((w.locks lock).exit t)).note (.released t lock)) _ :=
    h.locking.exit rfl rfl ht hlive (Thread.not_awaits_of_rest hrest (by simp))
      (Thread.not_awaits_of_not_waiting rfl)
  have hgo' := Thread.stands_resume thread hgo
  by_cases hlock : lock = .session
  · subst hlock
    obtain ⟨access, haccess⟩ := hheld
    refine h.deed (d := .left) rfl ht hlive hlocking (history_cons_some rfl) ?_
      (fun _ => hmay rfl) h.session h.sameUser (fun access => ?_) (by simp) (by simp) rfl
      fun _ => hgo'
    · show Deed.inside _ ≠ none
      rw [(h.inside t access).1 haccess]
      simp
    · simp [Deed.inside]
  · have hquiet : Entry.deed? ((history s₀ w.log).session s₀) (.released t lock) = none := by
      cases lock with
      | session => exact absurd rfl hlock
      | _ => rfl
    refine h.quiet rfl ht hlocking (history_cons_none hquiet) rfl h.sameUser
      (fun access => ?_) rfl id fun _ => ?_
    · simp [Ne.symm hlock]
    · simpa only [Account.leave, if_neg hlock] using hgo'

/-- A cancelled operation leaves a lock to others. -/
theorem refuse (h : w.Kept user R Q s₀ A held)
    (ht : w.threads[t]? = some thread) (hlive : thread.dropped = false)
    (hcancelled : thread.cancelled = true) {lock : Lock} {access : Access}
    {next : Bool → Program Steps α}
    (hrest : thread.rest = .perform (.acquire lock access true) next) :
    (((w.resume t thread (next true)).setLock lock ((w.locks lock).leave t)).note
      (.gaveUp t)).Kept user R Q s₀ A (held.put t (held t)) := by
  have hstands := h.stands t thread ht hlive
  rw [Thread.stands_iff (by rw [Thread.message?, hrest]), hrest] at hstands
  obtain ⟨-, -, -, hgo⟩ := hstands
  have hlocking : World.Locking (((w.resume t thread (next true)).setLock lock
      ((w.locks lock).leave t)).note (.gaveUp t)) _ :=
    h.locking.leave rfl rfl ht hlive
      (fun other a hother hawaits => hother (Thread.lock_of_awaits hrest hawaits).1)
      (Thread.not_awaits_of_not_waiting rfl)
  exact h.deed (d := .gaveUp) rfl ht hlive hlocking (history_cons_some rfl) trivial
    (fun hown => hown.elim) h.session h.sameUser (fun access => h.inside t access) (by simp)
    (fun _ => hcancelled) rfl fun _ => Thread.stands_resume thread (hgo rfl)

theorem enter (h : w.Kept user R Q s₀ A held)
    (ht : w.threads[t]? = some thread) (hlive : thread.dropped = false)
    (hwaiting : thread.waiting = true) {lock : Lock} {access : Access} {cancellable : Bool}
    {next : Bool → Program Steps α}
    (hrest : thread.rest = .perform (.acquire lock access cancellable) next) {s : Turnstile}
    (hs : (w.locks lock).enter? t = some s) :
    (((w.resume t thread (next false)).setLock lock s).note (.admitted t lock access)).Kept
      user R Q s₀ A (held.put t ((lock, access) :: held t)) := by
  have hstands := h.stands t thread ht hlive
  rw [Thread.stands_iff (by rw [Thread.message?, hrest]), hrest] at hstands
  obtain ⟨horder, hmay, hgo, -⟩ := hstands
  have hout : ∀ a, (lock, a) ∉ held t := fun a ha => Nat.lt_irrefl _ (horder _ ha)
  have hlocking : World.Locking (((w.resume t thread (next false)).setLock lock s).note
      (.admitted t lock access)) (held.put t ((lock, access) :: held t)) :=
    h.locking.enter hs rfl rfl ht hlive hout
      (fun other a => ⟨Thread.lock_of_awaits hrest,
        fun ⟨hother, ha⟩ => ⟨hlive, hwaiting, cancellable, next, by rw [hother, ha, hrest]⟩⟩)
      (Thread.not_awaits_of_not_waiting rfl)
  by_cases hlock : lock = .session
  · subst hlock
    refine h.deed (d := .entered access) rfl ht hlive hlocking (history_cons_some rfl) ?_
      (fun _ => hmay rfl) h.session h.sameUser (fun a => ?_) (by simp) (by simp) rfl
      fun _ => Thread.stands_resume thread hgo
    · obtain ⟨-, -, hadmits, -⟩ := h.locking.of_enter? hs ht
        fun a ha => (Thread.lock_of_awaits hrest ha).2
      exact h.fits_entered hadmits
    · have : ∀ a, (.session, a) ∉ held t := hout
      simp [Deed.inside, this, eq_comm]
  · have hquiet : Entry.deed? ((history s₀ w.log).session s₀) (.admitted t lock access) = none := by
      cases lock with
      | session => exact absurd rfl hlock
      | _ => rfl
    refine h.quiet rfl ht hlocking (history_cons_none hquiet) rfl h.sameUser
      (fun a => ?_) rfl id fun _ => ?_
    · simp [Ne.symm hlock]
    · simpa only [Account.enter, if_neg hlock] using Thread.stands_resume thread hgo

theorem join (h : w.Kept user R Q s₀ A held)
    (ht : w.threads[t]? = some thread) (hlive : thread.dropped = false)
    (hwaiting : thread.waiting = false) {lock : Lock} {access : Access} {cancellable : Bool}
    {next : Bool → Program Steps α}
    (hrest : thread.rest = .perform (.acquire lock access cancellable) next) :
    ((w.setThread t { thread with waiting := true }).setLock lock
      ((w.locks lock).join t access)).Kept user R Q s₀ A (held.put t (held t)) := by
  have hstands := h.stands t thread ht hlive
  rw [Thread.stands_iff (by rw [Thread.message?, hrest])] at hstands
  have hawaits : ∀ other a, Thread.Awaits { thread with waiting := true } other a ↔
      other = lock ∧ a = access := by
    refine fun other a => ⟨fun ha => ?_, ?_⟩
    · exact Thread.lock_of_awaits
        (show Thread.rest { thread with waiting := true } = _ from hrest) ha
    · rintro ⟨rfl, rfl⟩
      exact ⟨hlive, rfl, cancellable, next, hrest⟩
  have hlocking : World.Locking ((w.setThread t { thread with waiting := true }).setLock lock
      ((w.locks lock).join t access)) (held.put t (held t)) :=
    h.locking.join rfl rfl ht hlive (Thread.not_awaits_of_not_waiting hwaiting) hawaits
  refine h.quiet rfl ht hlocking rfl rfl h.sameUser (fun _ => Iff.rfl) rfl id fun _ => ?_
  rw [Thread.stands_iff (by simp [Thread.message?, hrest])]
  exact hstands

theorem send (h : w.Kept user R Q s₀ A held)
    (ht : w.threads[t]? = some thread) (hlive : thread.dropped = false)
    (hwaiting : thread.waiting = false) {m : Message} {cancellable : Bool}
    {next : Delivery → Program Steps α}
    (hrest : thread.rest = .perform (.exchange m cancellable) next) :
    ((w.setThread t { thread with waiting := true }).note (.sent t m)).Kept user R Q s₀ A
      (held.put t (held t)) := by
  have hstands := h.stands t thread ht hlive
  rw [Thread.stands_iff (by simp [Thread.message?, hrest, hwaiting]), hrest] at hstands
  have hno : ∀ lock access, ¬ Thread.Awaits { thread with waiting := true } lock access :=
    Thread.not_awaits_of_rest hrest (by simp)
  have hlocking : ((w.setThread t { thread with waiting := true }).note (.sent t m)).Locking
      (held.put t (held t)) :=
    h.locking.keep rfl rfl ht rfl fun lock access =>
      iff_of_false (hno lock access) (Thread.not_awaits_of_not_waiting hwaiting lock access)
  refine h.deed (d := .sent m) rfl ht hlive hlocking (history_cons_some rfl) trivial
    (fun _ => hstands.1) h.session h.sameUser (fun a => h.inside t a) (by simp)
    (by simp) rfl fun _ => ?_
  simp only [Thread.Stands, Thread.message?, hrest, if_true]
  exact ⟨_, rfl, hstands⟩

theorem waits (h : w.Kept user R Q s₀ A held)
    (ht : w.threads[t]? = some thread) (hlive : thread.dropped = false)
    (hwaiting : thread.waiting = true) {m : Message} {cancellable : Bool}
    {next : Delivery → Program Steps α}
    (hrest : thread.rest = .perform (.exchange m cancellable) next) :
    ∃ earlier, (history s₀ w.log).of t = .sent m :: earlier ∧
      Follows user (R t) (Q t) ⟨held t, earlier⟩ (.perform (.exchange m cancellable) next) := by
  have hstands := h.stands t thread ht hlive
  simpa only [Thread.Stands, Thread.message?, hrest, hwaiting, if_true] using hstands

/-- A wait that changes no lock ends because the operation is cancelled. -/
theorem giveUp (h : w.Kept user R Q s₀ A held)
    (ht : w.threads[t]? = some thread) (hlive : thread.dropped = false)
    (hcancelled : thread.cancelled = true)
    (hno : ∀ lock access, ¬ thread.Awaits lock access) {rest : Program Steps α}
    (hgo : Follows user (R t) (Q t) ⟨held t, .gaveUp :: (history s₀ w.log).of t⟩ rest) :
    ((w.resume t thread rest).note (.gaveUp t)).Kept user R Q s₀ A (held.put t (held t)) := by
  have hlocking : ((w.resume t thread rest).note (.gaveUp t)).Locking (held.put t (held t)) :=
    h.locking.keep rfl rfl ht rfl fun lock access =>
      iff_of_false (Thread.not_awaits_of_not_waiting rfl lock access) (hno lock access)
  exact h.deed (d := .gaveUp) rfl ht hlive hlocking (history_cons_some rfl) trivial
    (fun hown => hown.elim) h.session h.sameUser (fun access => h.inside t access) (by simp)
    (fun _ => hcancelled) rfl fun _ => Thread.stands_resume thread hgo

theorem answer (h : w.Kept user R Q s₀ A held)
    (ht : w.threads[t]? = some thread) (hlive : thread.dropped = false)
    (hwaiting : thread.waiting = true) {m : Message} {cancellable : Bool}
    {next : Delivery → Program Steps α}
    (hrest : thread.rest = .perform (.exchange m cancellable) next) {d : Delivery}
    (hd : d ≠ .cancelled) (hanswer : A (history s₀ w.log) m d) :
    ((w.resume t thread (next d)).note (.delivered t m d)).Kept user R Q s₀ A
      (held.put t (held t)) := by
  obtain ⟨earlier, hdeeds, -, hgo, -⟩ := h.waits ht hlive hwaiting hrest
  have hfits : Fits s₀ A (history s₀ w.log) t (.heard m d) := ⟨⟨earlier, hdeeds⟩, hd, hanswer⟩
  have hlocking : ((w.resume t thread (next d)).note (.delivered t m d)).Locking
      (held.put t (held t)) :=
    h.locking.keep rfl rfl ht rfl fun lock access =>
      iff_of_false (Thread.not_awaits_of_not_waiting rfl lock access)
        (Thread.not_awaits_of_rest hrest (by simp) lock access)
  refine h.deed (d := .heard m d) rfl ht hlive hlocking (history_cons_some rfl) hfits
    (fun hown => hown.elim) h.session h.sameUser (fun access => h.inside t access) (by simp)
    (by simp) rfl
    fun _ => Thread.stands_resume thread ?_
  rw [hdeeds]
  exact hgo d hd

theorem stop (h : w.Kept user R Q s₀ A held)
    (ht : w.threads[t]? = some thread) (hlive : thread.dropped = false)
    (hcancelled : thread.cancelled = true) {m : Message} {next : Delivery → Program Steps α}
    (hrest : thread.rest = .perform (.exchange m true) next) :
    ((w.resume t thread (next .cancelled)).note (.gaveUp t)).Kept user R Q s₀ A
      (held.put t (held t)) := by
  refine h.giveUp ht hlive hcancelled (Thread.not_awaits_of_rest hrest (by simp)) ?_
  cases hwaiting : thread.waiting with
  | true =>
      obtain ⟨earlier, hdeeds, -, -, hgo⟩ := h.waits ht hlive hwaiting hrest
      rw [hdeeds]
      exact (hgo rfl).2
  | false =>
      have hstands := h.stands t thread ht hlive
      rw [Thread.stands_iff (by simp [Thread.message?, hrest, hwaiting]), hrest] at hstands
      exact (hstands.2.2 rfl).1

theorem wake (h : w.Kept user R Q s₀ A held)
    (ht : w.threads[t]? = some thread) (hlive : thread.dropped = false)
    (hcancelled : thread.cancelled = true) {interval : Duration} {next : Bool → Program Steps α}
    (hrest : thread.rest = .perform (.pause interval true) next) :
    ((w.resume t thread (next true)).note (.gaveUp t)).Kept user R Q s₀ A
      (held.put t (held t)) := by
  have hstands := h.stands t thread ht hlive
  rw [Thread.stands_iff (by rw [Thread.message?, hrest]), hrest] at hstands
  exact h.giveUp ht hlive hcancelled (Thread.not_awaits_of_rest hrest (by simp)) (hstands.2 rfl)

theorem pass (h : w.Kept user R Q s₀ A held)
    (ht : w.threads[t]? = some thread) (hlive : thread.dropped = false)
    {interval : Duration} {cancellable : Bool} {next : Bool → Program Steps α}
    (hrest : thread.rest = .perform (.pause interval cancellable) next) :
    (resume { w with shared := w.shared.after interval } t thread (next false)).Kept user R Q s₀ A
      (held.put t (held t)) := by
  have hstands := h.stands t thread ht hlive
  rw [Thread.stands_iff (by rw [Thread.message?, hrest]), hrest] at hstands
  have hlocking : (resume { w with shared := w.shared.after interval } t thread
      (next false)).Locking (held.put t (held t)) :=
    h.locking.keep rfl rfl ht rfl fun lock access =>
      iff_of_false (Thread.not_awaits_of_not_waiting rfl lock access)
        (Thread.not_awaits_of_rest hrest (by simp) lock access)
  exact h.quiet rfl ht hlocking rfl rfl h.sameUser (fun _ => Iff.rfl) rfl id
    fun _ => Thread.stands_resume thread hstands.1

/-- An operation is cancelled. It goes on until it comes to a wait. -/
theorem cancel (h : w.Kept user R Q s₀ A held) (ht : w.threads[t]? = some thread) :
    ((w.setThread t { thread with cancelled := true }).note (.cancelled t)).Kept user R Q s₀ A
      (held.put t (held t)) := by
  have hlocking : ((w.setThread t { thread with cancelled := true }).note (.cancelled t)).Locking
      (held.put t (held t)) :=
    h.locking.keep rfl rfl ht rfl fun lock access => Iff.rfl
  exact h.quiet rfl ht hlocking (history_cons_none rfl) rfl h.sameUser (fun _ => Iff.rfl) rfl
    (fun _ => rfl)
    fun hlive => h.stands t thread ht hlive

theorem drop (h : w.Kept user R Q s₀ A held) (ht : w.threads[t]? = some thread)
    (hlive : thread.dropped = false) :
    (World.note { w.setThread t { thread with dropped := true, waiting := false } with
      locks := fun lock => (w.locks lock).forget t } (.dropped t)).Kept user R Q s₀ A
      (held.put t []) := by
  refine h.deed (d := .dropped) rfl ht hlive (h.locking.drop rfl rfl ht rfl)
    (history_cons_some rfl) trivial (fun hown => hown.elim) h.session h.sameUser ?_ (fun _ => rfl)
    (by simp)
    rfl fun hlive => nomatch hlive
  intro access
  simp [Deed.inside]

theorem change (h : w.Kept user R Q s₀ A held) (files : Files) :
    World.Kept user R Q s₀ A { w with shared := { w.shared with files := files } } held :=
  ⟨h.sameUser, ⟨h.locking.sound, h.locking.holders, h.locking.queue, h.locking.live⟩, h.lawful,
    h.session, h.inside, h.dropped, h.gaveUp, h.stands⟩

theorem next (h : w.Kept user R Q s₀ A held) {P : List Entry → Message → Delivery → Prop}
    (hP : ∀ log m d, P log m d → A (history s₀ log) m d) {event : Event}
    (hw : w.next event = some w') (hallows : w.Allows P event) :
    ∃ held', w'.Kept user R Q s₀ A held' := by
  cases happens_of_next hw with
  | touch ht hlive hrest => exact ⟨_, h.touch ht hlive hrest⟩
  | release ht hlive hrest => exact ⟨_, h.release ht hlive hrest⟩
  | refuse ht hlive hcancelled hrest => exact ⟨_, h.refuse ht hlive hcancelled hrest⟩
  | enter ht hlive hwaiting hrest hs => exact ⟨_, h.enter ht hlive hwaiting hrest hs⟩
  | join ht hlive hwaiting hrest => exact ⟨_, h.join ht hlive hwaiting hrest⟩
  | send ht hlive hwaiting hrest => exact ⟨_, h.send ht hlive hwaiting hrest⟩
  | stop ht hlive hcancelled hrest => exact ⟨_, h.stop ht hlive hcancelled hrest⟩
  | wake ht hlive hcancelled hrest => exact ⟨_, h.wake ht hlive hcancelled hrest⟩
  | pass ht hlive hrest => exact ⟨_, h.pass ht hlive hrest⟩
  | answer ht hlive hwaiting hrest hd =>
      refine ⟨_, h.answer ht hlive hwaiting hrest hd (hP _ _ _ (hallows _ _ ht ?_))⟩
      simp [Thread.message?, hrest, hwaiting]
  | cancel ht => exact ⟨_, h.cancel ht⟩
  | drop ht hlive => exact ⟨_, h.drop ht hlive⟩
  | change files => exact ⟨_, h.change files⟩

end Kept

theorem Leads.kept {user : Options} {R : Nat → Rules} {Q : Nat → Account → α → Prop}
    {s₀ : Session} {A : Answers} {P : List Entry → Message → Delivery → Prop} {w w' : World α}
    {held : Holdings}
    (hP : ∀ log m d, P log m d → A (history s₀ log) m d) (hw : Leads P w w')
    (h : w.Kept user R Q s₀ A held) : ∃ held', w'.Kept user R Q s₀ A held' := by
  induction hw generalizing held with
  | refl w => exact ⟨held, h⟩
  | step event hnext hallows rest ih =>
      obtain ⟨held', h'⟩ := h.next hP hnext hallows
      exact ih h'

theorem next_length {w w' : World α} {event : Event} (h : w.next event = some w') :
    w'.threads.length = w.threads.length := by
  cases happens_of_next h with
  | change => rfl
  | _ => exact List.length_set ..

/-- No operation comes or goes. -/
theorem Leads.length {P : List Entry → Message → Delivery → Prop} {w w' : World α}
    (h : Leads P w w') : w'.threads.length = w.threads.length := by
  induction h with
  | refl w => rfl
  | step event hnext hallows rest ih => rw [ih, next_length hnext]

end World

end HmcClient.Client
