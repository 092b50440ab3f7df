import HmcClient.Proofs.Client.Turnstile

/-!
# Who holds a lock and who waits for it

The turnstiles of a world tell who holds which lock. Each operation also knows it of itself, since
it takes and gives back its locks by its own steps. `World.Locking` says that the two agree, that
every turnstile is sound, and that the queue of a lock is made of the operations that have begun to
wait for it.

Most events change no lock, and then all that matters is that the operation waits for the same lock
before and after. The others change one lock for one operation, except that a dropped operation
vanishes from all.
-/

namespace HmcClient.Client

variable {α : Type}

/-- Whether an operation stands in the queue of a lock. -/
def Thread.Awaits (thread : Thread α) (lock : Lock) (access : Access) : Prop :=
  thread.dropped = false ∧ thread.waiting = true ∧
    ∃ cancellable next, thread.rest = .perform (.acquire lock access cancellable) next

theorem Thread.not_awaits_of_not_waiting {thread : Thread α} (h : thread.waiting = false)
    (lock : Lock) (access : Access) : ¬ thread.Awaits lock access :=
  fun ⟨_, hwaiting, _⟩ => nomatch hwaiting.symm.trans h

theorem Thread.not_awaits_of_rest {thread : Thread α} {step : Step}
    {next : step.Answer → Program Steps α} (h : thread.rest = .perform step next)
    (hstep : ∀ lock access cancellable, step ≠ .acquire lock access cancellable) (lock : Lock)
    (access : Access) : ¬ thread.Awaits lock access := by
  rintro ⟨-, -, cancellable, next', hrest⟩
  rw [h] at hrest
  cases hrest
  exact hstep _ _ _ rfl

theorem Thread.lock_of_awaits {thread : Thread α} {lock other : Lock} {access a : Access}
    {cancellable : Bool} {next : Bool → Program Steps α}
    (h : thread.rest = .perform (.acquire lock access cancellable) next)
    (hawaits : thread.Awaits other a) : other = lock ∧ a = access := by
  obtain ⟨-, -, cancellable', next', hrest⟩ := hawaits
  rw [h] at hrest
  cases hrest
  exact ⟨rfl, rfl⟩

namespace World

/-- What operations hold, each told by itself. -/
abbrev Holdings := Nat → List (Lock × Access)

/-- The holdings with those of one operation replaced. -/
def Holdings.put (held : Holdings) (t : Nat) (mine : List (Lock × Access)) : Holdings :=
  fun u => if u = t then mine else held u

@[simp]
theorem Holdings.put_self (held : Holdings) (t : Nat) (mine : List (Lock × Access)) :
    held.put t mine t = mine := if_pos rfl

theorem Holdings.put_ne (held : Holdings) {t u : Nat} (mine : List (Lock × Access)) (h : u ≠ t) :
    held.put t mine u = held u := if_neg h

theorem Holdings.put_eq (held : Holdings) (t : Nat) : held.put t (held t) = held := by
  funext u
  by_cases hut : u = t
  · rw [hut, put_self]
  · rw [put_ne held _ hut]

/-- The turnstiles agree with what the operations hold and wait for. -/
structure Locking (w : World α) (held : Holdings) : Prop where
  sound : ∀ lock, (w.locks lock).Sound
  holders : ∀ lock t access, (t, access) ∈ (w.locks lock).holders ↔ (lock, access) ∈ held t
  queue : ∀ lock t access, (t, access) ∈ (w.locks lock).queue ↔
    ∃ thread, w.threads[t]? = some thread ∧ thread.Awaits lock access
  live : ∀ t h, h ∈ held t → ∃ thread, w.threads[t]? = some thread ∧ thread.dropped = false

theorem Locking.start (shared : Shared) (operations : List (Program Steps α)) :
    (World.start shared operations).Locking fun _ => [] where
  sound _ := .free
  holders lock t access := by simp [World.start, Turnstile.free]
  queue lock t access := by
    simp only [World.start, Turnstile.free, List.not_mem_nil, List.getElem?_map,
      Option.map_eq_some_iff, false_iff]
    rintro ⟨thread, ⟨p, -, rfl⟩, hawaits⟩
    exact Thread.not_awaits_of_not_waiting rfl lock access hawaits
  live t h hh := nomatch hh

theorem getElem?_set {threads : List (Thread α)} {t : Nat} {thread : Thread α}
    (h : threads[t]? = some thread) (thread' : Thread α) (u : Nat) :
    (threads.set t thread')[u]? = if u = t then some thread' else threads[u]? := by
  by_cases hu : u = t
  · subst hu
    rw [if_pos rfl, List.getElem?_set_self]
    exact (List.getElem?_eq_some_iff.1 h).1
  · rw [if_neg hu, List.getElem?_set_ne (Ne.symm hu)]

namespace Locking

variable {w w' : World α} {held : Holdings} {t : Nat} {thread thread' : Thread α} {lock : Lock}
  {access : Access}

/-- An event that changes at most one lock, and that for one operation. -/
theorem turn (h : w.Locking held) {s : Turnstile} {mine : List (Lock × Access)}
    (hlocks : w'.locks = fun other => if other = lock then s else w.locks other)
    (hthreads : w'.threads = w.threads.set t thread') (ht : w.threads[t]? = some thread)
    (hdropped : thread'.dropped = false) (hsound : s.Sound)
    (hholders : ∀ u a, (u, a) ∈ s.holders ↔
      if u = t then (lock, a) ∈ mine else (u, a) ∈ (w.locks lock).holders)
    (hmine : ∀ other a, other ≠ lock → ((other, a) ∈ mine ↔ (other, a) ∈ held t))
    (hqueue : ∀ u a, (u, a) ∈ s.queue ↔
      if u = t then thread'.Awaits lock a else (u, a) ∈ (w.locks lock).queue)
    (hawaits : ∀ other a, other ≠ lock → (thread'.Awaits other a ↔ thread.Awaits other a)) :
    w'.Locking (held.put t mine) where
  sound other := by
    rw [hlocks]
    dsimp only
    split
    · exact hsound
    · exact h.sound other
  holders other u a := by
    rw [hlocks]
    dsimp only
    split
    · next hother =>
        subst hother
        rw [hholders]
        split
        · next hut => rw [hut, Holdings.put_self]
        · next hut => rw [Holdings.put_ne held mine hut, h.holders]
    · next hother =>
        rw [h.holders]
        by_cases hut : u = t
        · rw [hut, Holdings.put_self, hmine other a hother]
        · rw [Holdings.put_ne held mine hut]
  queue other u a := by
    rw [hlocks, hthreads, getElem?_set ht]
    dsimp only
    split
    · next hother =>
        subst hother
        rw [hqueue]
        split
        · simp only [Option.some.injEq, exists_eq_left']
        · rw [h.queue]
    · next hother =>
        rw [h.queue]
        split
        · next hut =>
            subst hut
            simp only [ht, Option.some.injEq, exists_eq_left', hawaits other a hother]
        · rfl
  live u hold hmem := by
    rw [hthreads, getElem?_set ht]
    by_cases hut : u = t
    · exact ⟨thread', if_pos hut, hdropped⟩
    · rw [if_neg hut]
      exact h.live u hold (by rwa [Holdings.put_ne held mine hut] at hmem)

/-- An event that changes no lock. -/
theorem keep (h : w.Locking held) (hlocks : w'.locks = w.locks)
    (hthreads : w'.threads = w.threads.set t thread') (ht : w.threads[t]? = some thread)
    (hdropped : thread'.dropped = thread.dropped)
    (hawaits : ∀ lock access, thread'.Awaits lock access ↔ thread.Awaits lock access) :
    w'.Locking (held.put t (held t)) where
  sound := by rw [hlocks]; exact h.sound
  holders := by rw [hlocks, Holdings.put_eq]; exact h.holders
  queue lock u access := by
    rw [hlocks, hthreads, h.queue lock u access, getElem?_set ht]
    split
    · next hu => subst hu; simp [ht, hawaits]
    · rfl
  live u hold hmem := by
    rw [Holdings.put_eq] at hmem
    obtain ⟨other, hother, hlive⟩ := h.live u hold hmem
    rw [hthreads, getElem?_set ht]
    split
    · next hu =>
        subst hu
        rw [ht] at hother
        cases hother
        exact ⟨thread', rfl, hdropped.trans hlive⟩
    · exact ⟨other, hother, hlive⟩

theorem exit (h : w.Locking held)
    (hlocks : w'.locks = fun other => if other = lock then (w.locks lock).exit t else w.locks other)
    (hthreads : w'.threads = w.threads.set t thread') (ht : w.threads[t]? = some thread)
    (hdropped : thread'.dropped = false)
    (hbefore : ∀ lock access, ¬ thread.Awaits lock access)
    (hafter : ∀ lock access, ¬ thread'.Awaits lock access) :
    w'.Locking (held.put t ((held t).filter (·.1 ≠ lock))) := by
  refine h.turn hlocks hthreads ht hdropped (h.sound lock).exit (fun u a => ?_)
    (fun other a hother => ?_) (fun u a => ?_) (fun other a _ => ?_)
  · rw [Turnstile.mem_exit_holders (h.sound lock)]
    by_cases hut : u = t
    · simp [hut]
    · simp [hut]
  · simp [hother]
  · show (u, a) ∈ (w.locks lock).queue ↔ _
    split
    · next hut =>
        subst hut
        rw [h.queue]
        simp only [ht, Option.some.injEq, exists_eq_left', hbefore, hafter]
    · rfl
  · simp only [hbefore, hafter]

/-- Who is let in has asked for the access that it gets. -/
theorem of_enter? (h : w.Locking held) {s : Turnstile} (hs : (w.locks lock).enter? t = some s)
    (ht : w.threads[t]? = some thread) (hasked : ∀ a, thread.Awaits lock a → a = access) :
    ∃ rest, (w.locks lock).queue = (t, access) :: rest ∧ (w.locks lock).admits access = true ∧
      s = ⟨(t, access) :: (w.locks lock).holders, rest⟩ := by
  obtain ⟨a, rest, hqueue, hadmits, rfl⟩ := Turnstile.of_enter? hs
  have hmem : (t, a) ∈ (w.locks lock).queue := by rw [hqueue]; exact List.mem_cons_self
  obtain ⟨other, hother, hawaits⟩ := (h.queue lock t a).1 hmem
  rw [ht] at hother
  cases hother
  obtain rfl := hasked a hawaits
  exact ⟨rest, hqueue, hadmits, rfl⟩

theorem enter (h : w.Locking held) {s : Turnstile} (hs : (w.locks lock).enter? t = some s)
    (hlocks : w'.locks = fun other => if other = lock then s else w.locks other)
    (hthreads : w'.threads = w.threads.set t thread') (ht : w.threads[t]? = some thread)
    (hdropped : thread'.dropped = false) (hout : ∀ a, (lock, a) ∉ held t)
    (hbefore : ∀ other a, thread.Awaits other a ↔ other = lock ∧ a = access)
    (hafter : ∀ other a, ¬ thread'.Awaits other a) :
    w'.Locking (held.put t ((lock, access) :: held t)) := by
  obtain ⟨rest, hqueue, hadmits, rfl⟩ := h.of_enter? hs ht fun a ha => ((hbefore lock a).1 ha).2
  have hnotin : ∀ a, (t, a) ∉ (w.locks lock).holders := fun a ha => hout a ((h.holders _ _ _).1 ha)
  refine h.turn hlocks hthreads ht hdropped ((h.sound lock).enter hqueue hadmits hnotin)
    (fun u a => ?_) (fun other a hother => ?_) (fun u a => ?_) (fun other a hother => ?_)
  · by_cases hut : u = t
    · subst hut
      simp [hnotin, hout]
    · simp [hut]
  · simp [hother]
  · have honce := (h.sound lock).queuedOnce
    rw [hqueue] at honce ⊢
    rw [List.map_cons, List.nodup_cons] at honce
    by_cases hut : u = t
    · subst hut
      simp only [if_true, hafter, iff_false]
      exact fun hmem => honce.1 (List.mem_map.2 ⟨_, hmem, rfl⟩)
    · simp [hut]
  · simp [hbefore, hafter, hother]

theorem join (h : w.Locking held)
    (hlocks : w'.locks = fun other =>
      if other = lock then (w.locks lock).join t access else w.locks other)
    (hthreads : w'.threads = w.threads.set t thread') (ht : w.threads[t]? = some thread)
    (hdropped : thread'.dropped = false)
    (hbefore : ∀ other a, ¬ thread.Awaits other a)
    (hafter : ∀ other a, thread'.Awaits other a ↔ other = lock ∧ a = access) :
    w'.Locking (held.put t (held t)) := by
  have hout : ∀ a, (t, a) ∉ (w.locks lock).queue := by
    intro a ha
    obtain ⟨other, hother, hawaits⟩ := (h.queue lock t a).1 ha
    rw [ht] at hother
    cases hother
    exact hbefore lock a hawaits
  refine h.turn hlocks hthreads ht hdropped ((h.sound lock).join hout) (fun u a => ?_)
    (fun other a hother => Iff.rfl) (fun u a => ?_) (fun other a hother => ?_)
  · show (u, a) ∈ (w.locks lock).holders ↔ _
    split
    · next hut => rw [hut, h.holders]
    · rfl
  · rw [Turnstile.mem_join_queue]
    by_cases hut : u = t
    · subst hut
      simp [hout, hafter]
    · simp [hut]
  · simp [hbefore, hafter, hother]

/-- An operation leaves a queue, or never was in it. -/
theorem leave (h : w.Locking held)
    (hlocks : w'.locks = fun other =>
      if other = lock then (w.locks lock).leave t else w.locks other)
    (hthreads : w'.threads = w.threads.set t thread') (ht : w.threads[t]? = some thread)
    (hdropped : thread'.dropped = false)
    (hbefore : ∀ other a, other ≠ lock → ¬ thread.Awaits other a)
    (hafter : ∀ other a, ¬ thread'.Awaits other a) :
    w'.Locking (held.put t (held t)) := by
  refine h.turn hlocks hthreads ht hdropped (h.sound lock).leave (fun u a => ?_)
    (fun other a hother => Iff.rfl) (fun u a => ?_) (fun other a hother => ?_)
  · show (u, a) ∈ (w.locks lock).holders ↔ _
    split
    · next hut => rw [hut, h.holders]
    · rfl
  · rw [Turnstile.mem_leave_queue]
    by_cases hut : u = t
    · simp [hut, hafter]
    · simp [hut]
  · simp [hbefore other a hother, hafter]

theorem drop (h : w.Locking held) (hlocks : w'.locks = fun lock => (w.locks lock).forget t)
    (hthreads : w'.threads = w.threads.set t thread') (ht : w.threads[t]? = some thread)
    (hdropped : thread'.dropped = true) : w'.Locking (held.put t []) where
  sound lock := by
    rw [hlocks]
    exact (h.sound lock).forget
  holders lock u a := by
    rw [hlocks, Turnstile.mem_forget_holders, h.holders]
    by_cases hut : u = t
    · simp [hut]
    · simp [Holdings.put_ne held _ hut, hut]
  queue lock u a := by
    rw [hlocks, hthreads, getElem?_set ht, Turnstile.mem_forget_queue, h.queue]
    split
    · next hut => simp [hut, Thread.Awaits, hdropped]
    · next hut => simp [hut]
  live u hold hmem := by
    by_cases hut : u = t
    · subst hut
      rw [Holdings.put_self] at hmem
      cases hmem
    · rw [Holdings.put_ne held _ hut] at hmem
      rw [hthreads, getElem?_set ht, if_neg hut]
      exact h.live u hold hmem

end Locking

end World

end HmcClient.Client
