import HmcClient.Client.Call

/-!
# What has happened to the session

The log of a world tells everything. Most of it does not concern the session, and one thing is
missing from it: which session an operation has read. The session at any time is what the last
write has left, so what was read can be worked out from the log. `history` does that. It gives the
*deeds* of all operations, the latest first: entering and leaving the lock of the session, reading
and writing the session, messages sent and answers heard.

A single operation knows its own deeds and nothing else, so what it will do next is told by
`History.of`. Two readings of the deeds of one operation matter throughout: whether it is inside the
lock of the session, and what it knows the session to be as long as it is inside.
-/

namespace HmcClient.Client

/-- What an operation does that concerns the session. -/
inductive Deed where
  /-- It is let into the lock of the session. -/
  | entered (access : Access)
  /-- It gives back the lock of the session. -/
  | left
  | read (s : Session)
  | installed (data : LogonData)
  | cleared
  | sent (m : Message)
  /-- It learns what has become of the message that it sent last. -/
  | heard (m : Message) (d : Delivery)
  /-- A wait ends because it was cancelled. -/
  | gaveUp
  /-- It is dropped. -/
  | dropped

namespace Deed

/-- How the operation is inside the lock of the session. -/
def inside : List Deed → Option Access
  | [] => none
  | entered access :: _ => some access
  | left :: _ | dropped :: _ => none
  | _ :: earlier => inside earlier

/-- What the operation knows the session to be. -/
def seen : List Deed → Option Session
  | [] => none
  | read s :: _ => some s
  | installed data :: _ => some (.ofLogon data)
  | cleared :: _ => some .none
  | entered _ :: _ | left :: _ | dropped :: _ => none
  | _ :: earlier => seen earlier

end Deed

/-! ## Histories -/

/-- The deeds of all operations, the latest first. -/
abbrev History := List (Nat × Deed)

namespace History

def of (H : History) (t : Nat) : List Deed :=
  H.filterMap fun entry => if entry.1 = t then some entry.2 else none

@[simp]
theorem of_nil (t : Nat) : of [] t = [] := rfl

@[simp]
theorem of_cons_self (H : History) (t : Nat) (d : Deed) : of ((t, d) :: H) t = d :: H.of t := by
  simp [of]

theorem of_cons_ne {H : History} {t u : Nat} {d : Deed} (h : t ≠ u) :
    of ((t, d) :: H) u = H.of u := by
  simp [of, h]

theorem of_append (H H' : History) (t : Nat) : of (H ++ H') t = H.of t ++ H'.of t :=
  List.filterMap_append

theorem mem_of {H : History} {t : Nat} {d : Deed} : d ∈ H.of t ↔ (t, d) ∈ H := by
  simp only [of, List.mem_filterMap, Option.ite_none_right_eq_some, Option.some.injEq]
  constructor
  · rintro ⟨⟨u, d'⟩, hmem, rfl, rfl⟩
    exact hmem
  · intro h
    exact ⟨(t, d), h, rfl, rfl⟩

/-- The session that the writes have left, from the one held at first. -/
def session (s₀ : Session) : History → Session
  | [] => s₀
  | (_, .installed data) :: _ => .ofLogon data
  | (_, .cleared) :: _ => .none
  | _ :: earlier => session s₀ earlier

end History

/-- The deed that an entry of the log tells, if the session is as given. -/
def Entry.deed? (s : Session) : Entry → Option (Nat × Deed)
  | .touched t .session => some (t, .read s)
  | .touched t (.install data) => some (t, .installed data)
  | .touched t .clear => some (t, .cleared)
  | .admitted t .session access => some (t, .entered access)
  | .released t .session => some (t, .left)
  | .sent t m => some (t, .sent m)
  | .delivered t m d => some (t, .heard m d)
  | .gaveUp t => some (t, .gaveUp)
  | .dropped t => some (t, .dropped)
  | _ => none

/-- The deeds that a log tells, if the session held at first was as given. -/
def history (s₀ : Session) : List Entry → History
  | [] => []
  | entry :: log =>
    match entry.deed? ((history s₀ log).session s₀) with
    | some deed => deed :: history s₀ log
    | none => history s₀ log

theorem history_cons_some {s₀ : Session} {entry : Entry} {log : List Entry} {deed : Nat × Deed}
    (h : entry.deed? ((history s₀ log).session s₀) = some deed) :
    history s₀ (entry :: log) = deed :: history s₀ log := by
  rw [history, h]

theorem history_cons_none {s₀ : Session} {entry : Entry} {log : List Entry}
    (h : entry.deed? ((history s₀ log).session s₀) = none) :
    history s₀ (entry :: log) = history s₀ log := by
  rw [history, h]

/-- The session that a log leaves, from the one held at first. -/
def sessionAfter (s₀ : Session) : List Entry → Session
  | [] => s₀
  | .touched _ (.install data) :: _ => .ofLogon data
  | .touched _ .clear :: _ => .none
  | _ :: earlier => sessionAfter s₀ earlier

theorem session_history (s₀ : Session) (log : List Entry) :
    (history s₀ log).session s₀ = sessionAfter s₀ log := by
  induction log with
  | nil => rfl
  | cons entry log ih =>
      cases entry with
      | touched t touch => cases touch <;> first | rfl | exact ih
      | admitted t lock access => cases lock <;> exact ih
      | released t lock => cases lock <;> exact ih
      | _ => exact ih

/-- What is picked from the deeds of a log can be picked from its entries. -/
theorem filterMap_history {β : Type} {s₀ : Session} {f : Nat × Deed → Option β}
    {f' : Entry → Option β} (h : ∀ s entry, (entry.deed? s).bind f = f' entry)
    (log : List Entry) : (history s₀ log).filterMap f = log.filterMap f' := by
  induction log with
  | nil => rfl
  | cons entry log ih =>
      rw [history, List.filterMap_cons, ← h ((history s₀ log).session s₀) entry]
      cases hdeed : entry.deed? ((history s₀ log).session s₀) with
      | none => exact ih
      | some deed =>
          rw [Option.bind_some]
          show List.filterMap f (deed :: history s₀ log) = _
          rw [List.filterMap_cons, ih]

/-! ## From histories back to logs -/

/-- The entry of the log that tells a deed of an operation. -/
def Deed.entry (t : Nat) : Deed → Entry
  | entered access => .admitted t .session access
  | left => .released t .session
  | read _ => .touched t .session
  | installed data => .touched t (.install data)
  | cleared => .touched t .clear
  | sent m => .sent t m
  | heard m d => .delivered t m d
  | gaveUp => .gaveUp t
  | dropped => .dropped t

namespace Entry

variable {s : Session} {entry : Entry} {t : Nat}

theorem eq_of_deed {d : Deed} (h : entry.deed? s = some (t, d)) : entry = d.entry t := by
  cases entry with
  | touched u touch => cases touch <;> cases h <;> rfl
  | admitted u lock access => cases lock <;> cases h; rfl
  | released u lock => cases lock <;> cases h; rfl
  | cancelled u => cases h
  | _ => cases h; rfl

theorem eq_of_heard {m : Message} {d : Delivery} (h : entry.deed? s = some (t, .heard m d)) :
    entry = .delivered t m d := eq_of_deed h

theorem eq_of_installed {data : LogonData} (h : entry.deed? s = some (t, .installed data)) :
    entry = .touched t (.install data) := eq_of_deed h

end Entry

section

variable {s₀ : Session} {log : List Entry} {t : Nat}

/-- The history of a log goes on from the history of what was there before, with what the entries
since then tell. -/
theorem history_append_of (later : List Entry) :
    ∃ H, history s₀ (later ++ log) = H ++ history s₀ log ∧
      ∀ deed ∈ H, ∃ entry ∈ later, ∃ s, entry.deed? s = some deed := by
  induction later with
  | nil => exact ⟨[], rfl, fun _ h => nomatch h⟩
  | cons entry later ih =>
      obtain ⟨H, hH, htold⟩ := ih
      have htold' : ∀ deed ∈ H, ∃ other ∈ entry :: later, ∃ s, other.deed? s = some deed := by
        intro deed hdeed
        obtain ⟨other, hother, hs⟩ := htold deed hdeed
        exact ⟨other, List.mem_cons_of_mem _ hother, hs⟩
      rw [List.cons_append, history]
      split
      · next deed hdeed =>
          refine ⟨deed :: H, by rw [hH]; rfl, fun other hother => ?_⟩
          rcases List.mem_cons.1 hother with rfl | hother
          · exact ⟨entry, List.mem_cons_self, _, hdeed⟩
          · exact htold' other hother
      · exact ⟨H, hH, htold'⟩

theorem history_append (later : List Entry) :
    ∃ H, history s₀ (later ++ log) = H ++ history s₀ log := by
  obtain ⟨H, hH, -⟩ := @history_append_of s₀ log later
  exact ⟨H, hH⟩

/-- What an entry tells that came later is among what was done later. -/
theorem mem_of_history_append {later : List Entry} {H : History} {entry : Entry}
    {deed : Nat × Deed} (h : history s₀ (later ++ log) = H ++ history s₀ log)
    (hentry : entry ∈ later) (hdeed : ∀ s, entry.deed? s = some deed) : deed ∈ H := by
  obtain ⟨since, before, rfl⟩ := List.append_of_mem hentry
  rw [List.append_assoc, List.cons_append] at h
  obtain ⟨H₂, hH₂⟩ := @history_append s₀ (entry :: (before ++ log)) since
  obtain ⟨H₁, hH₁⟩ := @history_append s₀ log before
  rw [hH₂, history_cons_some (hdeed _), hH₁, ← List.cons_append, ← List.append_assoc] at h
  rw [← List.append_cancel_right h]
  simp

theorem mem_history {entry : Entry} {deed : Nat × Deed} (hentry : entry ∈ log)
    (hdeed : ∀ s, entry.deed? s = some deed) : deed ∈ history s₀ log := by
  have hsplit : history s₀ (log ++ []) = history s₀ log ++ history s₀ [] := by
    rw [history, List.append_nil, List.append_nil]
  exact mem_of_history_append hsplit hentry hdeed

/-- What was done later is told by an entry that came later. -/
theorem entry_of_history_append {later : List Entry} {H : History} {d : Deed}
    (h : history s₀ (later ++ log) = H ++ history s₀ log) (hd : (t, d) ∈ H) :
    d.entry t ∈ later := by
  obtain ⟨H', hH', htold⟩ := @history_append_of s₀ log later
  rw [hH'] at h
  rw [← List.append_cancel_right h] at hd
  obtain ⟨entry, hentry, s, hs⟩ := htold _ hd
  rwa [← Entry.eq_of_deed hs]

theorem entry_of_mem_history {deed : Nat × Deed} (h : deed ∈ history s₀ log) :
    ∃ entry ∈ log, ∃ s, entry.deed? s = some deed := by
  induction log with
  | nil => cases h
  | cons entry log ih =>
      rw [history] at h
      split at h
      · next first hfirst =>
          rcases List.mem_cons.1 h with rfl | h
          · exact ⟨entry, List.mem_cons_self, _, hfirst⟩
          · obtain ⟨other, hother, hs⟩ := ih h
            exact ⟨other, List.mem_cons_of_mem _ hother, hs⟩
      · obtain ⟨other, hother, hs⟩ := ih h
        exact ⟨other, List.mem_cons_of_mem _ hother, hs⟩

theorem entry_of_history {d : Deed} (h : (t, d) ∈ history s₀ log) : d.entry t ∈ log := by
  obtain ⟨entry, hentry, s, hs⟩ := entry_of_mem_history h
  rwa [← Entry.eq_of_deed hs]

theorem delivered_of_heard {m : Message} {d : Delivery}
    (h : .heard m d ∈ (history s₀ log).of t) : .delivered t m d ∈ log :=
  entry_of_history (History.mem_of.1 h)

/-- Where a deed stands in the log. What was done after it is told by what stands after it. -/
theorem split_of_history {H H' : History} {deed : Nat × Deed}
    (h : history s₀ log = H ++ deed :: H') :
    ∃ later entry earlier, log = later ++ entry :: earlier ∧ history s₀ earlier = H' ∧
      entry.deed? (H'.session s₀) = some deed ∧
      ∀ d ∈ H, ∃ other ∈ later, ∃ s, other.deed? s = some d := by
  induction log generalizing H with
  | nil =>
      rw [history] at h
      exact absurd h.symm (by simp)
  | cons entry log ih =>
      -- An entry that comes before the deed in the list only adds to what comes later.
      have hskip : ∀ {H₁}, history s₀ log = H₁ ++ deed :: H' →
          (∀ d ∈ H, d ∈ H₁ ∨ entry.deed? ((history s₀ log).session s₀) = some d) →
          ∃ later other earlier, entry :: log = later ++ other :: earlier ∧
            history s₀ earlier = H' ∧ other.deed? (H'.session s₀) = some deed ∧
            ∀ d ∈ H, ∃ other ∈ later, ∃ s, other.deed? s = some d := by
        intro H₁ hrest hH
        obtain ⟨later, other, earlier, rfl, hearlier, hdeed, hlater⟩ := ih hrest
        refine ⟨entry :: later, other, earlier, rfl, hearlier, hdeed, fun d hd => ?_⟩
        rcases hH d hd with hd | hd
        · obtain ⟨e, he, s, hs⟩ := hlater d hd
          exact ⟨e, List.mem_cons_of_mem _ he, s, hs⟩
        · exact ⟨entry, List.mem_cons_self, _, hd⟩
      cases hdeed : entry.deed? ((history s₀ log).session s₀) with
      | none =>
          rw [history_cons_none hdeed] at h
          exact hskip h fun d hd => .inl hd
      | some first =>
          rw [history_cons_some hdeed] at h
          cases H with
          | nil =>
              obtain ⟨rfl, rfl⟩ := List.cons.inj h
              exact ⟨[], entry, log, rfl, rfl, hdeed, fun _ hd => nomatch hd⟩
          | cons other H₁ =>
              obtain ⟨rfl, hrest⟩ := List.cons.inj h
              refine hskip hrest fun d hd => ?_
              rcases List.mem_cons.1 hd with rfl | hd
              · exact .inr hdeed
              · exact .inl hd

/-- Where the answer that an operation has heard last stands in the log: it has done nothing
since. -/
theorem split_of_heard {m : Message} {d : Delivery} {earlier : List Deed}
    (h : (history s₀ log).of t = .heard m d :: earlier) :
    ∃ between before, log = between ++ .delivered t m d :: before ∧
      ∀ entry ∈ between, ∀ d', ¬ ∀ s, entry.deed? s = some (t, d') := by
  induction log with
  | nil => cases h
  | cons entry log ih =>
      -- An entry that is no deed of the operation only adds to what is between.
      have hskip : (∀ d', ¬ ∀ s, entry.deed? s = some (t, d')) →
          (history s₀ log).of t = .heard m d :: earlier →
          ∃ between before, entry :: log = between ++ .delivered t m d :: before ∧
            ∀ entry ∈ between, ∀ d', ¬ ∀ s, entry.deed? s = some (t, d') := by
        intro hentry h
        obtain ⟨between, before, rfl, hbetween⟩ := ih h
        refine ⟨entry :: between, before, rfl, fun other hother => ?_⟩
        rcases List.mem_cons.1 hother with rfl | hother
        · exact hentry
        · exact hbetween other hother
      cases hdeed : entry.deed? ((history s₀ log).session s₀) with
      | none =>
          rw [history_cons_none hdeed] at h
          exact hskip (fun d' hall => nomatch (hall _).symm.trans hdeed) h
      | some first =>
          obtain ⟨u, d'⟩ := first
          rw [history_cons_some hdeed] at h
          by_cases hut : u = t
          · subst hut
            rw [History.of_cons_self] at h
            obtain ⟨rfl, -⟩ := List.cons.inj h
            obtain rfl := Entry.eq_of_heard hdeed
            exact ⟨[], log, rfl, fun _ hmem => nomatch hmem⟩
          · rw [History.of_cons_ne hut] at h
            refine hskip (fun d'' hall => hut ?_) h
            have := (hall _).symm.trans hdeed
            cases this
            rfl

/-- The session is the one held at first if none was installed, or it was cleared, or installed. -/
theorem History.session_cases (s₀ : Session) (H : History) :
    (History.session s₀ H = s₀ ∧ ∀ t data, (t, .installed data) ∉ H) ∨
      (History.session s₀ H = .none ∧ ∃ t, (t, .cleared) ∈ H) ∨
      ∃ t data, (t, .installed data) ∈ H ∧ History.session s₀ H = .ofLogon data := by
  induction H with
  | nil => exact .inl ⟨rfl, fun t data hmem => nomatch hmem⟩
  | cons deed H ih =>
      obtain ⟨t, d⟩ := deed
      have hold : (∀ data, d ≠ .installed data) →
          (History.session s₀ H = s₀ ∧ ∀ u data, (u, .installed data) ∉ (t, d) :: H) ∨
          (History.session s₀ H = .none ∧ ∃ u, (u, .cleared) ∈ (t, d) :: H) ∨
          ∃ u data, (u, .installed data) ∈ (t, d) :: H ∧
            History.session s₀ H = .ofLogon data := by
        intro hd
        rcases ih with ⟨hfirst, hnone⟩ | ⟨hclear, u, hu⟩ | ⟨u, data, hmem, hdata⟩
        · refine .inl ⟨hfirst, fun u data hmem => ?_⟩
          rcases List.mem_cons.1 hmem with heq | hmem
          · exact hd data (Prod.mk.inj heq).2.symm
          · exact hnone u data hmem
        · exact .inr (.inl ⟨hclear, u, List.mem_cons_of_mem _ hu⟩)
        · exact .inr (.inr ⟨u, data, List.mem_cons_of_mem _ hmem, hdata⟩)
      cases d with
      | installed data => exact .inr (.inr ⟨t, data, List.mem_cons_self, rfl⟩)
      | cleared => exact .inr (.inl ⟨rfl, t, List.mem_cons_self⟩)
      | _ => exact hold (by simp)

end

theorem History.split_of {H : History} {t : Nat} (later : List Deed) {earlier : List Deed}
    {d : Deed} (h : H.of t = later ++ d :: earlier) :
    ∃ after before, H = after ++ (t, d) :: before ∧ History.of before t = earlier := by
  induction H generalizing later with
  | nil => simp at h
  | cons deed H ih =>
      obtain ⟨u, first⟩ := deed
      by_cases hut : u = t
      · subst hut
        rw [of_cons_self] at h
        cases later with
        | nil =>
            obtain ⟨rfl, rfl⟩ := List.cons.inj h
            exact ⟨[], H, rfl, rfl⟩
        | cons other later =>
            rw [List.cons_append] at h
            obtain ⟨after, before, rfl, hbefore⟩ := ih later (List.cons.inj h).2
            exact ⟨(u, first) :: after, before, rfl, hbefore⟩
      · rw [of_cons_ne hut] at h
        obtain ⟨after, before, rfl, hbefore⟩ := ih later h
        exact ⟨(u, first) :: after, before, rfl, hbefore⟩

end HmcClient.Client
