import HmcClient.Proofs.Client.Runs

/-!
# Waiting for one's turn

Who waits for a lock keeps its place. Others leave the queue in front of it or are let in before it,
but nobody comes in between: whoever begins to wait later stands behind. So what holds of those in
front of an operation when something happens bounds what can happen to the lock until it is let in
itself, or leaves.
-/

namespace HmcClient.Client.World

variable {α : Type} {w w' : World α} {held : Holdings} {lock : Lock} {t : Nat} {access : Access}
  {ahead : List (Nat × Access)}

/-- Whether an operation waits for a lock and stands in its queue right behind the given ones. -/
def Stands (w : World α) (lock : Lock) (ahead : List (Nat × Access)) (t : Nat) (access : Access) :
    Prop :=
  ∃ behind, (w.locks lock).queue = ahead ++ (t, access) :: behind

theorem Stands.of_awaits (h : w.Locking held) {thread : Thread α}
    (ht : w.threads[t]? = some thread) (hawaits : thread.Awaits lock access) :
    ∃ ahead, w.Stands lock ahead t access :=
  List.append_of_mem ((h.queue lock t access).2 ⟨thread, ht, hawaits⟩)

theorem Stands.awaits (hplace : w.Stands lock ahead t access) (h : w.Locking held) :
    ∃ thread, w.threads[t]? = some thread ∧ thread.Awaits lock access := by
  obtain ⟨behind, hqueue⟩ := hplace
  exact (h.queue lock t access).1 (by rw [hqueue]; simp)

/-- Others leave the queue. -/
theorem Stands.filter (hplace : w.Stands lock ahead t access) {v : Nat} (hv : v ≠ t)
    (hqueue : (w'.locks lock).queue = (w.locks lock).queue.filter fun other => other.1 != v) :
    w'.Stands lock (ahead.filter fun other => other.1 != v) t access := by
  obtain ⟨behind, hbefore⟩ := hplace
  refine ⟨behind.filter fun other => other.1 != v, ?_⟩
  rw [hqueue, hbefore, List.filter_append, List.filter_cons_of_pos (by simpa using Ne.symm hv)]

/-- Whether an entry of the log is one that can come while an operation waits: it tells nothing of
that operation, and lets into the lock only who stands before it. -/
structure Passes (lock : Lock) (ahead : List (Nat × Access)) (t : Nat) (entry : Entry) : Prop where
  admits : ∀ v a, entry = .admitted v lock a → (v, a) ∈ ahead
  spares : ∀ s d, entry.deed? s ≠ some (t, d)

/-- What one event does to an operation that waits for a lock. -/
inductive Turn (w w' : World α) (lock : Lock) (ahead : List (Nat × Access)) (t : Nat)
    (access : Access) : Prop where
  /-- It keeps its place. -/
  | waits {ahead' : List (Nat × Access)} (hsub : ahead' ⊆ ahead)
    (hplace : w'.Stands lock ahead' t access)
    (hlog : w'.log = w.log ∨ ∃ entry, w'.log = entry :: w.log ∧ Passes lock ahead t entry)
  /-- It is let in, if nobody stands before it. -/
  | enters (hfirst : ahead = []) (hlog : w'.log = .admitted t lock access :: w.log)
  | leaves (hlog : w'.log = .gaveUp t :: w.log ∨ w'.log = .dropped t :: w.log)

/-- Whoever does not wait for the lock is not the one that waits. -/
theorem Stands.ne_of_not_awaits (hplace : w.Stands lock ahead t access) (h : w.Locking held)
    {v : Nat} {thread : Thread α} (hv : w.threads[v]? = some thread)
    (hnot : ¬ thread.Awaits lock access) : v ≠ t := by
  rintro rfl
  obtain ⟨waiter, hwaiter, hawaits⟩ := hplace.awaits h
  rw [hwaiter] at hv
  cases hv
  exact hnot hawaits

theorem Stands.ne_of_rest (hplace : w.Stands lock ahead t access) (h : w.Locking held) {v : Nat}
    {thread : Thread α} {step : Step} {next : step.Answer → Program Steps α}
    (hv : w.threads[v]? = some thread) (hrest : thread.rest = .perform step next)
    (hstep : ∀ lock access cancellable, step ≠ .acquire lock access cancellable) : v ≠ t :=
  hplace.ne_of_not_awaits h hv (Thread.not_awaits_of_rest hrest hstep lock access)

/-- What does not concern the lock. -/
theorem Stands.kept (hplace : w.Stands lock ahead t access) {entry : Entry}
    (hlocks : w'.locks lock = w.locks lock) (hlog : w'.log = entry :: w.log)
    (hadmits : ∀ v a, entry ≠ .admitted v lock a) (hspares : ∀ s d, entry.deed? s ≠ some (t, d)) :
    w.Turn w' lock ahead t access := by
  refine .waits (List.Subset.refl _) ?_
    (.inr ⟨entry, hlog, fun v a h => absurd h (hadmits v a), hspares⟩)
  rwa [Stands, hlocks]

/-- The first of the queue is let in: the one that waits, or one that stands before it. -/
theorem Stands.entered (hplace : w.Stands lock ahead t access) (h : w.Locking held) {v : Nat}
    {a : Access} {rest : List (Nat × Access)} (hfirst : (w.locks lock).queue = (v, a) :: rest)
    (hqueue : (w'.locks lock).queue = rest) (hlog : w'.log = .admitted v lock a :: w.log) :
    w.Turn w' lock ahead t access := by
  obtain ⟨behind, hbefore⟩ := hplace
  rw [hfirst] at hbefore
  cases ahead with
  | nil =>
      obtain ⟨hpair, rfl⟩ := List.cons.inj hbefore
      obtain ⟨rfl, rfl⟩ := Prod.mk.inj hpair
      exact .enters rfl hlog
  | cons first ahead =>
      obtain ⟨rfl, rfl⟩ := List.cons.inj hbefore
      have hvt : v ≠ t := by
        rintro rfl
        have honce := (h.sound lock).queuedOnce
        rw [hfirst] at honce
        simp at honce
      refine .waits (List.subset_cons_self _ _) ⟨behind, hqueue⟩ (.inr ⟨_, hlog, ?_, fun s d => ?_⟩)
      · rintro v' a' hentry
        cases hentry
        exact List.mem_cons_self
      · cases lock <;> simp [Entry.deed?, hvt]

theorem Stands.turn (hplace : w.Stands lock ahead t access) (h : w.Locking held) {event : Event}
    (hnext : w.next event = some w') : w.Turn w' lock ahead t access := by
  cases happens_of_next hnext with
  | @touch v thread touch next hv hlive hrest =>
      have hvt := hplace.ne_of_rest h hv hrest (by simp)
      refine hplace.kept rfl rfl (by simp) fun s d => ?_
      cases touch <;> simp [Entry.deed?, hvt]
  | @release v thread other next hv hlive hrest =>
      have hvt := hplace.ne_of_rest h hv hrest (by simp)
      refine .waits (List.Subset.refl _) ?_ (.inr ⟨_, rfl, by simp, fun s d => ?_⟩)
      · -- To give back a lock changes its holders and not its queue.
        show ∃ behind, (if lock = other then _ else _ : Turnstile).queue = _
        split
        · next h => exact h ▸ hplace
        · exact hplace
      · cases other <;> simp [Entry.deed?, hvt]
  | @refuse v thread other a next hv hlive hcancelled hrest =>
      by_cases hvt : v = t
      · exact .leaves (.inl (by rw [hvt]; rfl))
      by_cases hl : lock = other
      · subst hl
        refine .waits (List.filter_sublist.subset) (hplace.filter hvt ?_)
          (.inr ⟨_, rfl, by simp, by simp [Entry.deed?, hvt]⟩)
        exact congrArg Turnstile.queue (if_pos rfl)
      · exact hplace.kept (if_neg hl) rfl (by simp) (by simp [Entry.deed?, hvt])
  | @enter v thread other a c next queue hv hlive hwaiting hrest hqueue =>
      by_cases hl : lock = other
      · subst hl
        obtain ⟨rest, hfirst, -, rfl⟩ := h.of_enter? hqueue hv fun a' ha' =>
          (Thread.lock_of_awaits hrest ha').2
        exact hplace.entered h hfirst (congrArg Turnstile.queue (if_pos rfl)) rfl
      · have hvt := hplace.ne_of_not_awaits h hv fun hawaits =>
          hl (Thread.lock_of_awaits hrest hawaits).1
        refine hplace.kept (if_neg hl) rfl ?_ fun s d => ?_
        · intro v' a' hentry
          cases hentry
          exact hl rfl
        · cases other <;> simp [Entry.deed?, hvt]
  | @join v thread other a c next hv hlive hwaiting hrest =>
      refine .waits (List.Subset.refl _) ?_ (.inl rfl)
      obtain ⟨behind, hbefore⟩ := hplace
      by_cases hl : lock = other
      · subst hl
        refine ⟨behind ++ [(v, a)], ?_⟩
        refine (congrArg Turnstile.queue (if_pos rfl)).trans ?_
        rw [Turnstile.join, hbefore, List.append_assoc, List.cons_append]
      · exact ⟨behind, (congrArg Turnstile.queue (if_neg hl)).trans hbefore⟩
  | @send v thread m c next hv hlive hwaiting hrest =>
      have hvt := hplace.ne_of_rest h hv hrest (by simp)
      exact hplace.kept rfl rfl (by simp) (by simp [Entry.deed?, hvt])
  | @stop v thread m next hv hlive hcancelled hrest =>
      have hvt := hplace.ne_of_rest h hv hrest (by simp)
      exact hplace.kept rfl rfl (by simp) (by simp [Entry.deed?, hvt])
  | @wake v thread interval next hv hlive hcancelled hrest =>
      have hvt := hplace.ne_of_rest h hv hrest (by simp)
      exact hplace.kept rfl rfl (by simp) (by simp [Entry.deed?, hvt])
  | pass hv hlive hrest => exact .waits (List.Subset.refl _) hplace (.inl rfl)
  | @answer v thread m c d next hv hlive hwaiting hrest hd =>
      have hvt := hplace.ne_of_rest h hv hrest (by simp)
      exact hplace.kept rfl rfl (by simp) (by simp [Entry.deed?, hvt])
  | cancel hv => exact hplace.kept rfl rfl (by simp) (by simp [Entry.deed?])
  | @drop v thread step next hv hlive hrest hwait =>
      by_cases hvt : v = t
      · exact .leaves (.inr (by rw [hvt]; rfl))
      · exact .waits (List.filter_sublist.subset) (hplace.filter hvt rfl)
          (.inr ⟨_, rfl, by simp, by simp [Entry.deed?, hvt]⟩)
  | change files => exact .waits (List.Subset.refl _) hplace (.inl rfl)

/-- Who waits for a lock is answered nothing. -/
theorem Locking.not_delivered (h : w.Locking held) {event : Event}
    (hnext : w.next event = some w') (hqueued : t ∈ (w.locks lock).queue.map Prod.fst)
    (m : Message) (d : Delivery) : w'.log ≠ .delivered t m d :: w.log := by
  intro hdelivered
  obtain ⟨⟨t, access⟩, hmem, rfl⟩ := List.mem_map.1 hqueued
  obtain ⟨ahead, hplace⟩ : ∃ ahead, w.Stands lock ahead t access := List.append_of_mem hmem
  cases hplace.turn h hnext with
  | waits hsub hplace' hlog =>
      rcases hlog with hlog | ⟨entry, hlog, hpasses⟩
      · exact absurd (hlog.symm.trans hdelivered).symm (List.cons_ne_self _ _)
      · obtain rfl := (List.cons.inj (hlog.symm.trans hdelivered)).1
        exact hpasses.spares .none (.heard m d) rfl
  | enters hfirst hlog => cases hlog.symm.trans hdelivered
  | leaves hlog =>
      rcases hlog with hlog | hlog
      · cases hlog.symm.trans hdelivered
      · cases hlog.symm.trans hdelivered

theorem next_log {event : Event} (h : w.next event = some w') :
    w'.log = w.log ∨ ∃ entry, w'.log = entry :: w.log := by
  cases happens_of_next h with
  | join | pass | change => exact .inl rfl
  | _ => exact .inr ⟨_, rfl⟩

/-- What the log has told stays in it. -/
theorem Reaches.log_append (h : Reaches w w') : ∃ l, w'.log = l ++ w.log := by
  induction h with
  | refl w => exact ⟨[], rfl⟩
  | @step w w₁ w' event hnext rest ih =>
      obtain ⟨l, hl⟩ := ih
      rcases next_log hnext with hlog | ⟨entry, hlog⟩
      · exact ⟨l, hl.trans (congrArg _ hlog)⟩
      · exact ⟨l ++ [entry], by rw [hl, hlog, List.append_assoc]; rfl⟩

end HmcClient.Client.World
