import HmcClient.Proofs.Client.History

/-!
# What an operation does, whatever is answered

An operation is a tree, and other operations run between any two of its steps. So what it does is
told by what it asks for along every branch of the tree, where a branch is a way to answer it.
`Follows` says that a program keeps to `Rules` along every branch: each deed is one that the rules
allow after the deeds before it, and the end is as promised.

Three things need no rules because every operation of the client has them in common. Locks are taken
in one order, so an operation never waits for a lock that it or anything it waits for holds. The
session is read under its lock and written under its lock held alone, so that what an operation has
seen stays true until it leaves the lock. And whatever is changed in the options of a client, they
name the same user as before, so that every logon is one of this user.

The lemmas here are about the ways of putting programs together. There is one for each, and it says
what to prove of the parts.
-/

namespace HmcClient

/-! ## The user of a client -/

/-- Whether options name the same user as others. -/
structure Options.SameUser (o user : Options) : Prop where
  username : o.username = user.username
  password : o.password = user.password

/-- Whether a touch leaves a client to its user. -/
def Touch.Keeps (user : Options) : Touch → Prop
  | setOptions o => o.SameUser user
  | _ => True

/-- Whether a touch can give an answer to a client of a user. -/
def Touch.Gives (user : Options) : (t : Touch) → t.Answer → Prop
  | options, o => o.SameUser user
  | _, _ => True

namespace Client

/-! ## Accounts -/

/-- The place of a lock in the order in which locks are taken. -/
def Lock.rank : Lock → Nat
  | .session => 0
  | .options => 1
  | .connection => 2
  | .statistics => 3

/-- What an operation has to its account: the locks it holds and its deeds, the latest first. -/
structure Account where
  held : List (Lock × Access)
  deeds : List Deed

namespace Account

def opening : Account := ⟨[], []⟩

def add (g : Account) (d : Deed) : Account := { g with deeds := d :: g.deeds }

def enter (g : Account) (lock : Lock) (access : Access) : Account :=
  ⟨(lock, access) :: g.held, if lock = .session then .entered access :: g.deeds else g.deeds⟩

def leave (g : Account) (lock : Lock) : Account :=
  ⟨g.held.filter (·.1 ≠ lock), if lock = .session then .left :: g.deeds else g.deeds⟩

/-- Whether the locks held come before another one. -/
def Precedes (g : Account) (lock : Lock) : Prop := ∀ h ∈ g.held, h.1.rank < lock.rank

/-- Whether the locks held are those that a deed needs. -/
def Permits (g : Account) : Deed → Prop
  | .read _ => ∃ access, (.session, access) ∈ g.held
  | .installed _ | .cleared => (.session, .exclusive) ∈ g.held
  | _ => True

theorem leave_held_map (g : Account) (lock : Lock) :
    (g.leave lock).held.map Prod.fst = (g.held.map Prod.fst).filter (· ≠ lock) := by
  simp only [leave, List.filter_map]
  rfl

theorem mem_leave_deeds {g : Account} {lock : Lock} {d : Deed} (h : d ∈ g.deeds) :
    d ∈ (g.leave lock).deeds := by
  simp only [leave]
  split
  · exact List.mem_cons_of_mem _ h
  · exact h

/-- To take a lock other than that of the session and give it back changes nothing. -/
theorem leave_enter {g : Account} {lock : Lock} (access : Access) (hlock : lock ≠ .session)
    (h : g.Precedes lock) : (g.enter lock access).leave lock = g := by
  have hkeep : g.held.filter (·.1 ≠ lock) = g.held := by
    refine List.filter_eq_self.2 fun held hheld => ?_
    have := h held hheld
    simp only [ne_eq, decide_not, Bool.not_eq_true', decide_eq_false_iff_not]
    rintro rfl
    omega
  cases g with
  | mk held deeds =>
      simp only [enter, leave, if_neg hlock, ne_eq, not_true_eq_false, decide_false,
        Bool.false_eq_true, not_false_eq_true, List.filter_cons_of_neg]
      rw [hkeep]

end Account

/-! ## Rules -/

/-- What an operation may do next, after what it has done. -/
abbrev Rules := List Deed → Deed → Prop

/-- What two rules both allow. -/
def Rules.both (R R' : Rules) : Rules := fun deeds d => R deeds d ∧ R' deeds d

/-- The deed of a touch. -/
def deedOf : (t : Touch) → t.Answer → Option Deed
  | .session, s => some (.read s)
  | .install data, _ => some (.installed data)
  | .clear, _ => some .cleared
  | _, _ => .none

/-- Whether a program of a user keeps to rules from an account on, and ends as promised. -/
def Follows {α : Type} (user : Options) (R : Rules) (Q : Account → α → Prop) :
    Account → Action α → Prop
  | g, .done a => Q g a
  | g, .perform (.touch t) next => t.Keeps user ∧ ∀ answer, t.Gives user answer →
    match deedOf t answer with
    | .none => Follows user R Q g (next answer)
    | some d => g.Permits d ∧ R g.deeds d ∧ Follows user R Q (g.add d) (next answer)
  | g, .perform (.release lock) next =>
    (∃ access, (lock, access) ∈ g.held) ∧ (lock = .session → R g.deeds .left) ∧
      Follows user R Q (g.leave lock) (next ())
  | g, .perform (.acquire lock access cancellable) next =>
    g.Precedes lock ∧ (lock = .session → R g.deeds (.entered access)) ∧
      Follows user R Q (g.enter lock access) (next false) ∧
      (cancellable = true → Follows user R Q (g.add .gaveUp) (next true))
  | g, .perform (.exchange m cancellable) next =>
    R g.deeds (.sent m) ∧
      (∀ d, d ≠ .cancelled →
        Follows user R Q ((g.add (.sent m)).add (.heard m d)) (next d)) ∧
      (cancellable = true → Follows user R Q (g.add .gaveUp) (next .cancelled) ∧
        Follows user R Q ((g.add (.sent m)).add .gaveUp) (next .cancelled))
  | g, .perform (.pause _ cancellable) next =>
    Follows user R Q g (next false) ∧
      (cancellable = true → Follows user R Q (g.add .gaveUp) (next true))

namespace Follows

variable {α β : Type} {user : Options} {R : Rules}

/-! ## Putting programs together -/

/-- One program after the other: where the first ends, the second goes on. -/
theorem trans {Q : Account → α → Prop} {Q' : Account → β → Prop} {p : Action α}
    {f : α → Action β} {g : Account} (h : Follows user R Q g p)
    (hf : ∀ g a, Q g a → Follows user R Q' g (f a)) : Follows user R Q' g (p >>= f) := by
  show Follows user R Q' g (Program.bind p f)
  induction p generalizing g with
  | done a => exact hf g a h
  | perform step next ih =>
      cases step with
      | touch t =>
          refine ⟨h.1, fun answer hgives => ?_⟩
          have ha := h.2 answer hgives
          revert ha
          cases deedOf t answer with
          | none => exact fun ha => ih answer ha
          | some d => exact fun ha => ⟨ha.1, ha.2.1, ih answer ha.2.2⟩
      | release lock => exact ⟨h.1, h.2.1, ih () h.2.2⟩
      | acquire lock access cancellable =>
          exact ⟨h.1, h.2.1, ih false h.2.2.1, fun hc => ih true (h.2.2.2 hc)⟩
      | exchange m cancellable =>
          exact ⟨h.1, fun d hd => ih d (h.2.1 d hd),
            fun hc => ⟨ih _ (h.2.2 hc).1, ih _ (h.2.2 hc).2⟩⟩
      | pause interval cancellable => exact ⟨ih false h.1, fun hc => ih true (h.2 hc)⟩

/-- An end that is better than promised will do. -/
theorem mono {Q Q' : Account → α → Prop} (hQ : ∀ g a, Q g a → Q' g a) {p : Action α}
    {g : Account} (h : Follows user R Q g p) : Follows user R Q' g p := by
  have := trans (f := Pure.pure) h hQ
  rwa [bind_pure] at this

/-- A program that keeps to two rules keeps to both at once. -/
theorem both {R' : Rules} {Q Q' : Account → α → Prop} {p : Action α} {g : Account}
    (h : Follows user R Q g p) (h' : Follows user R' Q' g p) :
    Follows user (R.both R') (fun g a => Q g a ∧ Q' g a) g p := by
  induction p generalizing g with
  | done a => exact ⟨h, h'⟩
  | perform step next ih =>
      cases step with
      | touch t =>
          refine ⟨h.1, fun answer hgives => ?_⟩
          have ha := h.2 answer hgives
          have ha' := h'.2 answer hgives
          revert ha ha'
          cases deedOf t answer with
          | none => exact fun ha ha' => ih answer ha ha'
          | some d =>
              exact fun ha ha' => ⟨ha.1, ⟨ha.2.1, ha'.2.1⟩, ih answer ha.2.2 ha'.2.2⟩
      | release lock =>
          exact ⟨h.1, fun hlock => ⟨h.2.1 hlock, h'.2.1 hlock⟩, ih () h.2.2 h'.2.2⟩
      | acquire lock access cancellable =>
          exact ⟨h.1, fun hlock => ⟨h.2.1 hlock, h'.2.1 hlock⟩, ih false h.2.2.1 h'.2.2.1,
            fun hc => ih true (h.2.2.2 hc) (h'.2.2.2 hc)⟩
      | exchange m cancellable =>
          exact ⟨⟨h.1, h'.1⟩, fun d hd => ih d (h.2.1 d hd) (h'.2.1 d hd),
            fun hc => ⟨ih _ (h.2.2 hc).1 (h'.2.2 hc).1, ih _ (h.2.2 hc).2 (h'.2.2 hc).2⟩⟩
      | pause interval cancellable =>
          exact ⟨ih false h.1 h'.1, fun hc => ih true (h.2 hc) (h'.2 hc)⟩

theorem bind {Q : Account → β → Prop} {p : Action α} {f : α → Action β} {g : Account}
    (h : Follows user R (fun g a => Follows user R Q g (f a)) g p) : Follows user R Q g (p >>= f) :=
  trans h fun _ _ h => h

theorem pure {Q : Account → α → Prop} {g : Account} {a : α} (h : Q g a) :
    Follows user R Q g (Pure.pure a) := h

theorem map {Q : Account → β → Prop} {p : Action α} {f : α → β} {g : Account}
    (h : Follows user R (fun g a => Q g (f a)) g p) : Follows user R Q g (f <$> p) := by
  rw [map_eq_pure_bind]
  exact bind h

/-- One task after the other. A failure of the first is the end. -/
theorem bindTask {Q : Account → Result β → Prop} {x : Task α} {f : α → Task β} {g : Account}
    (h : Follows user R (fun g result =>
      match result with
      | .ok a => Follows user R Q g (f a).run
      | .error failure => Q g (.error failure)) g x.run) : Follows user R Q g (x >>= f).run := by
  rw [ExceptT.run_bind]
  refine bind (mono (fun g result hr => ?_) h)
  cases result with
  | ok a => exact hr
  | error failure => exact hr

theorem ofResult {Q : Account → Result α → Prop} {g : Account} {result : Result α}
    (h : Q g result) : Follows user R Q g (ofResult result).run := h

theorem lift {Q : Account → Result α → Prop} {p : Action α} {g : Account}
    (h : Follows user R (fun g a => Q g (.ok a)) g p) : Follows user R Q g (liftM p : Task α).run :=
  map h

theorem touchQuietly {t : Touch} {Q : Account → t.Answer → Prop} {g : Account}
    (hquiet : ∀ answer, deedOf t answer = .none) (hkeeps : t.Keeps user)
    (h : ∀ answer, t.Gives user answer → Q g answer) : Follows user R Q g (touch t) := by
  refine ⟨hkeeps, fun answer hgives => ?_⟩
  rw [hquiet answer]
  exact h answer hgives

theorem touchSession {Q : Account → Session → Prop} {g : Account}
    (hheld : ∃ access, (.session, access) ∈ g.held)
    (hmay : ∀ s, R g.deeds (.read s))
    (h : ∀ s, Q (g.add (.read s)) s) :
    Follows user R Q g (touch .session) :=
  ⟨trivial, fun s _ => ⟨hheld, hmay s, h s⟩⟩

theorem touchInstall {data : LogonData} {Q : Account → Unit → Prop} {g : Account}
    (hheld : (.session, .exclusive) ∈ g.held) (hmay : R g.deeds (.installed data))
    (h : Q (g.add (.installed data)) ()) : Follows user R Q g (touch (.install data)) :=
  ⟨trivial, fun _ _ => ⟨hheld, hmay, h⟩⟩

theorem touchClear {Q : Account → Unit → Prop} {g : Account}
    (hheld : (.session, .exclusive) ∈ g.held) (hmay : R g.deeds .cleared)
    (h : Q (g.add .cleared) ()) : Follows user R Q g (touch .clear) :=
  ⟨trivial, fun _ _ => ⟨hheld, hmay, h⟩⟩

theorem locked {lock : Lock} {access : Access} {body : Action α} {Q : Account → α → Prop}
    {g : Account} (horder : g.Precedes lock)
    (henter : lock = .session → R g.deeds (.entered access))
    (h : Follows user R (fun g a => (∃ access, (lock, access) ∈ g.held) ∧
      (lock = .session → R g.deeds .left) ∧ Q (g.leave lock) a) (g.enter lock access) body) :
    Follows user R Q g (locked lock access body) := by
  refine ⟨horder, henter, ?_, fun hc => nomatch hc⟩
  show Follows user R Q (g.enter lock access)
    (body >>= fun result => Program.ask (S := Steps) (.release lock) >>= fun _ => Pure.pure result)
  exact trans h fun g a ha => ha

/-- A touch that is no deed, under a lock other than that of the session. -/
theorem lockedQuietly {lock : Lock} {access : Access} {t : Touch} {Q : Account → t.Answer → Prop}
    {g : Account} (hlock : lock ≠ .session) (horder : g.Precedes lock)
    (hquiet : ∀ answer, deedOf t answer = .none) (hkeeps : t.Keeps user)
    (h : ∀ answer, t.Gives user answer → Q g answer) :
    Follows user R Q g (Client.locked lock access (touch t)) := by
  refine locked horder (fun hs => absurd hs hlock)
    (touchQuietly hquiet hkeeps fun answer hgives => ?_)
  refine ⟨⟨access, by simp [Account.enter]⟩, fun hs => absurd hs hlock, ?_⟩
  rw [Account.leave_enter access hlock horder]
  exact h answer hgives

end Follows

end Client

end HmcClient
