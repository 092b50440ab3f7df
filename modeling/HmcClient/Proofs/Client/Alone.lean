import HmcClient.Client.Alone
import HmcClient.Proofs.Client.Runs

/-!
# An operation that nothing disturbs

`Follows` speaks of every branch of an operation. One that runs alone takes one of them, and then
more is known of its deeds: what it reads of the session is what it has left there itself, what it
hears is what the console answers, and no wait is given up. So whatever is proved of an operation
by its rules is true of its run alone, with deeds that are *undisturbed*.

The console is any function of its own state. To tell what was exchanged it is made to remember,
which changes nothing else.
-/

namespace HmcClient.Client

variable {σ α : Type}

namespace Deed

/-- The exchanges among the deeds of an operation, the earliest first. -/
def exchanges : List Deed → List (Message × Delivery)
  | [] => []
  | heard m d :: earlier => exchanges earlier ++ [(m, d)]
  | _ :: earlier => exchanges earlier

/-- What the deeds of an operation leave of the session if no other operation writes it. -/
def leaves (s₀ : Session) (deeds : List Deed) : Session :=
  History.session s₀ (deeds.map (Prod.mk 0))

/-- Whether deeds are those of an operation that nothing disturbs, with answers as they are said to
be. -/
def Undisturbed (s₀ : Session) (P : Message → Delivery → Prop) : List Deed → Prop
  | [] => True
  | read s :: earlier => s = leaves s₀ earlier ∧ Undisturbed s₀ P earlier
  | heard m d :: earlier => P m d ∧ Undisturbed s₀ P earlier
  | gaveUp :: _ | dropped :: _ => False
  | _ :: earlier => Undisturbed s₀ P earlier

variable {s₀ : Session} {P : Message → Delivery → Prop}

theorem Undisturbed.not_gaveUp {deeds : List Deed} (h : Undisturbed s₀ P deeds) :
    .gaveUp ∉ deeds := by
  induction deeds with
  | nil => exact List.not_mem_nil
  | cons d deeds ih =>
      intro hmem
      cases d with
      | gaveUp => exact h
      | dropped => exact h
      | read s => exact ih h.2 (by simpa using hmem)
      | heard m d => exact ih h.2 (by simpa using hmem)
      | _ => exact ih h (by simpa using hmem)

theorem Undisturbed.allowed {deeds : List Deed} (h : Undisturbed s₀ P deeds) :
    ∀ x ∈ exchanges deeds, P x.1 x.2 := by
  induction deeds with
  | nil => exact fun x hx => nomatch hx
  | cons d deeds ih =>
      cases d with
      | gaveUp => exact h.elim
      | dropped => exact h.elim
      | read s => exact ih h.2
      | heard m d =>
          intro x hx
          rcases List.mem_append.1 hx with hx | hx
          · exact ih h.2 x hx
          · obtain rfl := List.mem_singleton.1 hx
            exact h.1
      | _ => exact ih h

theorem Undisturbed.touches {deeds : List Deed} {s : Session} {d : Deed}
    (h : Undisturbed s₀ P deeds) (hs : s = leaves s₀ deeds) (hd : d.Touches s) :
    Undisturbed s₀ P (d :: deeds) ∧ exchanges (d :: deeds) = exchanges deeds := by
  cases hd with
  | read => exact ⟨⟨hs, h⟩, rfl⟩
  | installed data => exact ⟨h, rfl⟩
  | cleared => exact ⟨h, rfl⟩

end Deed

/-! ## Consoles -/

namespace Answering

/-- Whether every message is answered or lost, and every answer is as it is said to be. -/
def Settles (answering : Answering σ) (P : Message → Delivery → Prop) : Prop :=
  ∀ m c, ∃ d c', answering m c = (some d, c') ∧ d ≠ .cancelled ∧ P m d

/-- The console that remembers its exchanges, the earliest first. -/
def recorded (answering : Answering σ) : Answering (List (Message × Delivery) × σ) :=
  fun m (past, c) =>
    match answering m c with
    | (some d, c) => (some d, past ++ [(m, d)], c)
    | (none, c) => (none, past, c)

end Answering

namespace Alone

def forgetful (s : Alone (List (Message × Delivery) × σ)) : Alone σ :=
  ⟨s.shared, s.console.2, s.cancelled⟩

theorem exchange_recorded (answering : Answering σ) (m : Message) (cancellable : Bool)
    (s : Alone (List (Message × Delivery) × σ)) :
    (s.exchange answering.recorded m cancellable).1 =
        (s.forgetful.exchange answering m cancellable).1 ∧
      (s.exchange answering.recorded m cancellable).2.forgetful =
        (s.forgetful.exchange answering m cancellable).2 := by
  obtain ⟨shared, ⟨past, c⟩, cancelled⟩ := s
  unfold exchange Answering.recorded forgetful
  dsimp only
  split
  · exact ⟨rfl, rfl⟩
  · rcases answering m c with ⟨_ | d, c'⟩
    · dsimp only
      split
      · exact ⟨rfl, rfl⟩
      · exact ⟨rfl, rfl⟩
    · exact ⟨rfl, rfl⟩

theorem handle_recorded (answering : Answering σ) (step : Step)
    (s : Alone (List (Message × Delivery) × σ)) :
    (handle answering.recorded step s).1 = (handle answering step s.forgetful).1 ∧
      (handle answering.recorded step s).2.forgetful = (handle answering step s.forgetful).2 := by
  cases step with
  | touch t => exact ⟨rfl, rfl⟩
  | release lock => exact ⟨rfl, rfl⟩
  | acquire lock access cancellable => exact ⟨rfl, rfl⟩
  | exchange m cancellable => exact exchange_recorded answering m cancellable s
  | pause interval cancellable =>
      unfold handle forgetful
      dsimp only
      split
      · exact ⟨rfl, rfl⟩
      · exact ⟨rfl, rfl⟩

theorem run_perform (answering : Answering σ) (step : Step)
    (next : step.Answer → Program Steps α) (s : Alone σ) :
    s.run answering (.perform step next) =
      (handle answering step s).2.run answering (next (handle answering step s).1) := rfl

theorem run_bind {β : Type} (answering : Answering σ) (p : Action α) (f : α → Action β)
    (s : Alone σ) :
    s.run answering (p >>= f) = (s.run answering p).2.run answering (f (s.run answering p).1) := by
  show Program.run (S := Steps) (handle answering) (Program.bind p f) s = _
  rw [Program.run_bind]
  rfl

theorem run_bindTask {β : Type} (answering : Answering σ) (x : Task α) (f : α → Task β)
    (s : Alone σ) :
    s.run answering (x >>= f).run =
      match s.run answering x.run with
      | (.ok a, s) => s.run answering (f a).run
      | (.error failure, s) => (.error failure, s) := by
  rw [ExceptT.run_bind, run_bind]
  rcases s.run answering x.run with ⟨failure | a, s'⟩
  · rfl
  · rfl

/-- What is kept by every answer is kept by a run. -/
theorem run_console (answering : Answering σ) {I : σ → Prop}
    (h : ∀ m c, I c → I (answering m c).2) (p : Action α) {s : Alone σ} (hs : I s.console) :
    I (s.run answering p).2.console := by
  induction p generalizing s with
  | done a => exact hs
  | perform step next ih =>
      rw [run_perform]
      refine ih _ ?_
      cases step with
      | touch t => exact hs
      | release lock => exact hs
      | acquire lock access cancellable => exact hs
      | exchange m cancellable =>
          have hnext := h m s.console hs
          rw [handle, exchange]
          split
          · exact hs
          · split
            next heq => rwa [heq] at hnext
            next heq =>
              rw [heq] at hnext
              split
              · exact hnext
              · exact hnext
      | pause interval cancellable =>
          rw [handle]
          split
          · exact hs
          · exact hs

/-- To remember changes nothing else. -/
theorem run_recorded (answering : Answering σ) (p : Action α)
    (s : Alone (List (Message × Delivery) × σ)) :
    (s.run answering.recorded p).1 = (s.forgetful.run answering p).1 ∧
      (s.run answering.recorded p).2.forgetful = (s.forgetful.run answering p).2 := by
  induction p generalizing s with
  | done a => exact ⟨rfl, rfl⟩
  | perform step next ih =>
      obtain ⟨hanswer, hs⟩ := handle_recorded answering step s
      rw [run_perform, run_perform, ← hanswer, ← hs]
      exact ih _ _

end Alone

/-! ## The branch that is taken -/

/-- Whether a client and the console's memory are as the deeds of the only operation leave them. -/
structure Alone.Tells (s : Alone (List (Message × Delivery) × σ)) (user : Options)
    (s₀ : Session) (P : Message → Delivery → Prop) (deeds : List Deed) : Prop where
  goesOn : s.cancelled = false
  sameUser : s.shared.options.SameUser user
  session : s.shared.session = Deed.leaves s₀ deeds
  exchanges : s.console.1 = Deed.exchanges deeds
  undisturbed : Deed.Undisturbed s₀ P deeds

namespace Alone.Tells

variable {s : Alone (List (Message × Delivery) × σ)} {user : Options} {s₀ : Session}
  {P : Message → Delivery → Prop} {g : Account}

theorem enter (h : s.Tells user s₀ P g.deeds) (lock : Lock) (access : Access) :
    s.Tells user s₀ P (g.enter lock access).deeds := by
  unfold Account.enter
  dsimp only
  split
  · exact ⟨h.goesOn, h.sameUser, h.session, h.exchanges, h.undisturbed⟩
  · exact h

theorem leave (h : s.Tells user s₀ P g.deeds) (lock : Lock) :
    s.Tells user s₀ P (g.leave lock).deeds := by
  unfold Account.leave
  dsimp only
  split
  · exact ⟨h.goesOn, h.sameUser, h.session, h.exchanges, h.undisturbed⟩
  · exact h

theorem hear {answering : Answering σ} (h : s.Tells user s₀ P g.deeds)
    (hanswering : answering.Settles P) (m : Message) (cancellable : Bool) :
    (s.exchange answering.recorded m cancellable).1 ≠ .cancelled ∧
      (s.exchange answering.recorded m cancellable).2.Tells user s₀ P
        (.heard m (s.exchange answering.recorded m cancellable).1 :: .sent m :: g.deeds) := by
  obtain ⟨shared, ⟨past, c⟩, cancelled⟩ := s
  obtain ⟨d, c', hd, hreal, hP⟩ := hanswering m c
  obtain rfl : cancelled = false := h.goesOn
  have hexchange : exchange answering.recorded m cancellable ⟨shared, (past, c), false⟩ =
      (d, ⟨shared, (past ++ [(m, d)], c'), false⟩) := by
    simp [exchange, Answering.recorded, hd]
  rw [hexchange]
  obtain rfl : past = Deed.exchanges g.deeds := h.exchanges
  exact ⟨hreal, rfl, h.sameUser, h.session, rfl, hP, h.undisturbed⟩

end Alone.Tells

/-- An operation that runs alone ends as its rules promise, with deeds that are undisturbed. -/
theorem Follows.undisturbed {user : Options} {R : Rules} {Q : Account → α → Prop}
    {answering : Answering σ} {P : Message → Delivery → Prop} {s₀ : Session}
    (hanswering : answering.Settles P)
    {p : Action α} {g : Account} {s : Alone (List (Message × Delivery) × σ)}
    (h : Follows user R Q g p) (hs : s.Tells user s₀ P g.deeds) :
    ∃ g', Q g' (s.run answering.recorded p).1 ∧
      (s.run answering.recorded p).2.Tells user s₀ P g'.deeds := by
  induction p generalizing g s with
  | done a => exact ⟨g, h, hs⟩
  | perform step next ih =>
      rw [Alone.run_perform]
      cases step with
      | touch t =>
          have hnext := h.2 (t.apply s.shared).1 (Touch.gives_apply hs.sameUser t)
          have huser := Touch.sameUser_apply hs.sameUser h.1
          cases hdeed : deedOf t (t.apply s.shared).1 with
          | none =>
              rw [hdeed] at hnext
              exact ih _ hnext ⟨hs.goesOn, huser,
                (Touch.apply_session_of_quiet hdeed).trans hs.session, hs.exchanges,
                hs.undisturbed⟩
          | some d =>
              rw [hdeed] at hnext
              obtain ⟨hundisturbed, hexchanges⟩ :=
                hs.undisturbed.touches hs.session (Touch.touches_of_deed hdeed)
              exact ih _ hnext.2.2 ⟨hs.goesOn, huser,
                Touch.apply_session_of_deed hdeed hs.session,
                hs.exchanges.trans hexchanges.symm, hundisturbed⟩
      | release lock => exact ih () h.2.2 (hs.leave lock)
      | acquire lock access cancellable =>
          have hanswer : (cancellable && s.cancelled) = false := by rw [hs.goesOn, Bool.and_false]
          rw [Alone.handle, hanswer]
          exact ih false h.2.2.1 (hs.enter lock access)
      | exchange m cancellable =>
          obtain ⟨hreal, hs'⟩ := hs.hear hanswering m cancellable
          exact ih _ (h.2.1 _ hreal) hs'
      | pause interval cancellable =>
          have hanswer : (cancellable && s.cancelled) = false := by rw [hs.goesOn, Bool.and_false]
          rw [Alone.handle, hanswer]
          exact ih false h.1 ⟨hs.goesOn, hs.sameUser, hs.session, hs.exchanges, hs.undisturbed⟩

/-- What the rules of an operation promise of its exchanges and of the session it leaves, if nothing
disturbs it, is true of its run alone. -/
theorem Follows.runs_alone {R : Rules} {P : Message → Delivery → Prop}
    {T : List (Message × Delivery) → α → Session → Prop} {shared : Shared} {p : Action α}
    {answering : Answering σ}
    (h : Follows shared.options R (fun g a => Deed.Undisturbed shared.session P g.deeds →
      T (Deed.exchanges g.deeds) a (Deed.leaves shared.session g.deeds)) .opening p)
    (hanswering : answering.Settles P) (c : σ) :
    ∃ exchanges a shared' c',
      Alone.run answering p ⟨shared, c, false⟩ = (a, ⟨shared', c', false⟩) ∧
      Alone.run answering.recorded p ⟨shared, ([], c), false⟩ =
        (a, ⟨shared', (exchanges, c'), false⟩) ∧
      T exchanges a shared'.session := by
  obtain ⟨g, hpromised, htells⟩ := h.undisturbed hanswering (s := ⟨shared, ([], c), false⟩)
    ⟨rfl, ⟨rfl, rfl⟩, rfl, rfl, trivial⟩
  obtain ⟨hresult, hend⟩ := Alone.run_recorded answering p ⟨shared, ([], c), false⟩
  revert hpromised htells hresult hend
  generalize Alone.run answering.recorded p ⟨shared, ([], c), false⟩ = x
  obtain ⟨a, shared', ⟨exchanges, c'⟩, cancelled⟩ := x
  intro hpromised htells hresult hend
  obtain rfl : cancelled = false := htells.goesOn
  obtain rfl : exchanges = Deed.exchanges g.deeds := htells.exchanges
  have hsession : shared'.session = Deed.leaves shared.session g.deeds := htells.session
  refine ⟨_, a, shared', c', Prod.ext hresult.symm hend.symm, rfl, ?_⟩
  rw [hsession]
  exact hpromised htells.undisturbed

end HmcClient.Client
