import HmcClient.Client.World

/-!
# One lock

What the operations on a turnstile do to its holders and its queue. A turnstile is `Sound` if no
operation holds it twice and one that holds it alone is the only holder. Everything that can happen
to a turnstile keeps it sound, as long as nobody is let in twice.
-/

namespace HmcClient.Client.Turnstile

variable {s s' : Turnstile} {t u : Nat} {access a : Access}

/-- Nobody holds the lock or waits for it twice, and who holds it alone does so. -/
structure Sound (s : Turnstile) : Prop where
  once : (s.holders.map Prod.fst).Nodup
  queuedOnce : (s.queue.map Prod.fst).Nodup
  alone : ∀ t, (t, .exclusive) ∈ s.holders → s.holders = [(t, .exclusive)]

theorem Sound.free : Sound .free := ⟨List.nodup_nil, List.nodup_nil, fun _ h => nomatch h⟩

theorem Sound.sublist (h : s.Sound) (hholders : s'.holders.Sublist s.holders)
    (hqueue : s'.queue.Sublist s.queue) : s'.Sound := by
  refine ⟨h.once.sublist (hholders.map _), h.queuedOnce.sublist (hqueue.map _), fun t ht => ?_⟩
  rw [h.alone t (hholders.subset ht)] at hholders
  generalize s'.holders = holders at ht hholders
  cases hholders with
  | cons _ hnil => rw [List.sublist_nil.1 hnil] at ht; cases ht
  | cons_cons _ hnil => rw [List.sublist_nil.1 hnil]

theorem Sound.exit (h : s.Sound) : (s.exit t).Sound :=
  h.sublist List.eraseP_sublist (List.Sublist.refl _)

theorem Sound.forget (h : s.Sound) : (s.forget t).Sound :=
  h.sublist List.filter_sublist List.filter_sublist

theorem Sound.leave (h : s.Sound) : (s.leave t).Sound :=
  h.sublist (List.Sublist.refl _) List.filter_sublist

theorem Sound.join (h : s.Sound) (hout : ∀ a, (t, a) ∉ s.queue) : (s.join t access).Sound := by
  refine ⟨h.once, ?_, h.alone⟩
  simp only [Turnstile.join, List.map_append, List.map_cons, List.map_nil]
  refine List.nodup_append.2 ⟨h.queuedOnce, by simp, fun u hu v hv => ?_⟩
  obtain rfl := List.mem_singleton.1 hv
  rintro rfl
  obtain ⟨⟨w, a⟩, hw, rfl⟩ := List.mem_map.1 hu
  exact hout a hw

theorem of_enter? (h : s.enter? t = some s') :
    ∃ access rest, s.queue = (t, access) :: rest ∧ s.admits access = true ∧
      s' = ⟨(t, access) :: s.holders, rest⟩ := by
  unfold enter? at h
  split at h
  · next first access rest hqueue =>
      split at h
      · next hin =>
          obtain ⟨rfl, hadmits⟩ := hin
          exact ⟨access, rest, hqueue, hadmits, (Option.some.inj h).symm⟩
      · cases h
  · cases h

theorem Sound.enter (h : s.Sound) {rest : List (Nat × Access)}
    (hqueue : s.queue = (t, access) :: rest) (hadmits : s.admits access = true)
    (hout : ∀ a, (t, a) ∉ s.holders) :
    Sound ⟨(t, access) :: s.holders, rest⟩ := by
  have hrest : (rest.map Prod.fst).Nodup := by
    have := h.queuedOnce
    rw [hqueue, List.map_cons, List.nodup_cons] at this
    exact this.2
  refine ⟨List.nodup_cons.2 ⟨fun hmem => ?_, h.once⟩, hrest, fun u hu => ?_⟩
  · obtain ⟨⟨v, a⟩, hv, rfl⟩ := List.mem_map.1 hmem
    exact hout a hv
  · cases access with
    | exclusive =>
        have hnone : s.holders = [] := List.isEmpty_iff.1 hadmits
        rw [hnone] at hu ⊢
        obtain ⟨rfl, -⟩ := Prod.mk.inj (List.mem_singleton.1 hu)
        rfl
    | shared =>
        rcases List.mem_cons.1 hu with heq | hmem
        · cases heq
        · have := List.all_eq_true.1 hadmits _ hmem
          cases this

theorem mem_exit_holders (h : s.Sound) :
    (u, a) ∈ (s.exit t).holders ↔ (u, a) ∈ s.holders ∧ u ≠ t := by
  have honce := h.once
  simp only [exit]
  generalize s.holders = holders at honce
  induction holders with
  | nil => simp
  | cons first rest ih =>
      rw [List.map_cons, List.nodup_cons] at honce
      by_cases hfirst : first.1 = t
      · rw [List.eraseP_cons_of_pos (by simp [hfirst])]
        constructor
        · intro hu
          refine ⟨List.mem_cons_of_mem _ hu, fun hut => honce.1 ?_⟩
          rw [hfirst, ← hut]
          exact List.mem_map.2 ⟨_, hu, rfl⟩
        · rintro ⟨hu, hut⟩
          rcases List.mem_cons.1 hu with rfl | hu
          · exact absurd hfirst hut
          · exact hu
      · rw [List.eraseP_cons_of_neg (by simp [hfirst]), List.mem_cons, List.mem_cons]
        have := ih honce.2
        constructor
        · rintro (rfl | hu)
          · exact ⟨.inl rfl, hfirst⟩
          · exact ⟨.inr (this.1 hu).1, (this.1 hu).2⟩
        · rintro ⟨rfl | hu, hut⟩
          · exact .inl rfl
          · exact .inr (this.2 ⟨hu, hut⟩)

theorem mem_forget_holders : (u, a) ∈ (s.forget t).holders ↔ (u, a) ∈ s.holders ∧ u ≠ t := by
  simp [forget]

theorem mem_forget_queue : (u, a) ∈ (s.forget t).queue ↔ (u, a) ∈ s.queue ∧ u ≠ t := by
  simp [forget]

theorem mem_leave_queue : (u, a) ∈ (s.leave t).queue ↔ (u, a) ∈ s.queue ∧ u ≠ t := by
  simp [leave]

theorem mem_join_queue :
    (u, a) ∈ (s.join t access).queue ↔ (u, a) ∈ s.queue ∨ (u = t ∧ a = access) := by
  simp [join]

end HmcClient.Client.Turnstile
