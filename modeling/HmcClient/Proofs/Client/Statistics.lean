import HmcClient.Proofs.Client.Bookkeeping
import HmcClient.Proofs.Client.Pairing

/-!
# Statistics count the traffic

Every operation of the client keeps the books (`Books`), and what is pending in them is told by the
log. So in every run each message is counted when its exchange has ended, as answered or as failed,
and each logon of the client's own is counted as one besides. When no call is in progress nothing is
pending, and the counters are what the log has handed over.

They are not where a wait ends early. `statistics_count` says by how much: a logon that is given up
with the work it is part of is missing from the counters although it was handed over, and a request
that is cancelled just before it is handed over is counted as one that failed. No call has such a
lapse unless it was cancelled or dropped.
-/

namespace HmcClient.Client

variable {user : Options} {α β : Type} {e : Endpoint}

/-! ## Operations and their books -/

theorem Thread.message?_of_rest {thread : Thread α} {step : Step}
    {next : step.Answer → Program Steps α} (hrest : thread.rest = .perform step next)
    (hstep : ∀ m cancellable, step ≠ .exchange m cancellable) : thread.message? = none := by
  unfold Thread.message?
  split
  next m cancellable next' heq =>
    rw [hrest] at heq
    exact absurd (Program.perform.inj heq).1 (hstep m cancellable)
  · rfl

theorem Thread.message?_of_exchange {thread : Thread α} {m : Message} {cancellable : Bool}
    {next : Delivery → Program Steps α}
    (hrest : thread.rest = .perform (.exchange m cancellable) next) :
    thread.message? = if thread.waiting then some m else none := by
  rw [Thread.message?, hrest]

/-- Whether an operation goes on in order, if this is pending in its books. While its message is on
the way, the answer is. -/
def Thread.InBooks (e : Endpoint) (user : Options) (σ : Pending) (thread : Thread α) : Prop :=
  match thread.message? with
  | none => Books e user (fun σ _ => σ.isClear = true) false σ thread.rest
  | some _ => ∃ σ₀ : Pending, σ = .answer (σ₀ == .logon) ∧
    Books e user (fun σ _ => σ.isClear = true) false σ₀ thread.rest

namespace Thread.InBooks

variable {σ : Pending} {thread : Thread α}

theorem rest (h : thread.InBooks e user σ) (hmessage : thread.message? = none) :
    Books e user (fun σ _ => σ.isClear = true) false σ thread.rest := by
  rwa [Thread.InBooks, hmessage] at h

theorem waits (h : thread.InBooks e user σ) {m : Message} (hmessage : thread.message? = some m) :
    ∃ σ₀ : Pending, σ = .answer (σ₀ == .logon) ∧
      Books e user (fun σ _ => σ.isClear = true) false σ₀ thread.rest := by
  rwa [Thread.InBooks, hmessage] at h

theorem of_idle (hidle : thread.waiting = false)
    (h : Books e user (fun σ _ => σ.isClear = true) false σ thread.rest) :
    thread.InBooks e user σ := by
  have hmessage : thread.message? = none := by
    unfold Thread.message?
    split
    · rw [hidle]
      rfl
    · rfl
  rwa [Thread.InBooks, hmessage]

theorem of_step {step : Step} {next : step.Answer → Program Steps α}
    (hrest : thread.rest = .perform step next)
    (hstep : ∀ m cancellable, step ≠ .exchange m cancellable)
    (h : Books e user (fun σ _ => σ.isClear = true) false σ thread.rest) :
    thread.InBooks e user σ := by
  rwa [Thread.InBooks, Thread.message?_of_rest hrest hstep]

/-- An operation whose message is on the way. -/
theorem of_sent {m : Message} {cancellable : Bool} {next : Delivery → Program Steps α}
    (hrest : thread.rest = .perform (.exchange m cancellable) next)
    (hwaiting : thread.waiting = true)
    (h : Books e user (fun σ _ => σ.isClear = true) false σ thread.rest) :
    thread.InBooks e user (.answer (σ == .logon)) := by
  rw [Thread.InBooks, Thread.message?_of_exchange hrest, hwaiting]
  exact ⟨σ, rfl, h⟩

end Thread.InBooks

namespace World

/-- What a run keeps of the books. -/
structure Booked (e : Endpoint) (user : Options) (w : World α) : Prop where
  sameUser : w.shared.options.SameUser user
  told : ∀ entry ∈ w.log, entry.operation < w.threads.length
  orderly : ∀ t, Orderly e user t w.log
  live : ∀ (t : Nat) (thread : Thread α), w.threads[t]? = some thread → thread.dropped = false →
    thread.InBooks e user (pending t w.log)
  gone : ∀ (t : Nat) (thread : Thread α), w.threads[t]? = some thread → thread.dropped = true →
    pending t w.log = .stopped
  cancelled : ∀ (t : Nat) (thread : Thread α), w.threads[t]? = some thread →
    thread.cancelled = true → .cancelled t ∈ w.log
  gaveUp : ∀ t, .gaveUp t ∈ w.log → .cancelled t ∈ w.log

namespace Booked

variable {w w' : World α} {u : Nat} {thread thread' : Thread α}

/-- An event moves one operation and writes an entry about it. -/
theorem moves (h : w.Booked e user) (entry : Entry) (ht : w.threads[u]? = some thread)
    (hthreads : w'.threads = w.threads.set u thread') (hlog : w'.log = entry :: w.log)
    (huser : w'.shared.options.SameUser user) (hentry : entry.operation = u)
    (hallows : (pending u w.log).Allows e user entry)
    (hlive : thread'.dropped = false → thread'.InBooks e user ((pending u w.log).after entry))
    (hgone : thread'.dropped = true → (pending u w.log).after entry = .stopped)
    (hcancelled : thread'.cancelled = true → thread.cancelled = true ∨ entry = .cancelled u)
    (hgaveUp : entry = .gaveUp u → thread.cancelled = true) : w'.Booked e user := by
  have hlength : w'.threads.length = w.threads.length := by rw [hthreads, List.length_set]
  have hbefore {other : Entry} (hother : other ∈ w.log) : other ∈ w'.log :=
    hlog ▸ List.mem_cons_of_mem _ hother
  have hsame {t : Nat} (htu : t ≠ u) : pending t w'.log = pending t w.log := by
    rw [hlog]
    exact pending_cons_ne fun heq => htu (heq.symm.trans hentry)
  refine ⟨huser, fun other hother => ?_, fun t => ?_, fun t other ho hl => ?_,
    fun t other ho hd => ?_, fun t other ho hc => ?_, fun t hmem => ?_⟩
  · rw [hlength]
    rcases List.mem_cons.1 (hlog ▸ hother) with rfl | hother
    · rw [hentry]
      exact (List.getElem?_eq_some_iff.1 ht).1
    · exact h.told other hother
  · rw [hlog]
    exact ⟨h.orderly t, fun heq => by rwa [← heq, hentry]⟩
  · rw [hthreads, getElem?_set ht] at ho
    split at ho
    next htu =>
      subst htu
      cases ho
      rw [hlog, pending_cons hentry]
      exact hlive hl
    next htu => exact hsame htu ▸ h.live t other ho hl
  · rw [hthreads, getElem?_set ht] at ho
    split at ho
    next htu =>
      subst htu
      cases ho
      rw [hlog, pending_cons hentry]
      exact hgone hd
    next htu => exact (hsame htu).trans (h.gone t other ho hd)
  · rw [hthreads, getElem?_set ht] at ho
    split at ho
    next htu =>
      subst htu
      cases ho
      rcases hcancelled hc with hc | rfl
      · exact hbefore (h.cancelled t thread ht hc)
      · exact hlog ▸ List.mem_cons_self
    next htu => exact hbefore (h.cancelled t other ho hc)
  · rcases List.mem_cons.1 (hlog ▸ hmem) with heq | hmem
    · obtain rfl : t = u := by
        rw [← hentry, ← heq]
        rfl
      exact hbefore (h.cancelled t thread ht (hgaveUp heq.symm))
    · exact hbefore (h.gaveUp t hmem)

/-- An operation has the answer to its step, and an entry about it is written. -/
theorem goesOn (h : w.Booked e user) (entry : Entry) (ht : w.threads[u]? = some thread)
    (hlive : thread.dropped = false) {rest : Program Steps α}
    (hthreads : w'.threads = w.threads.set u { thread with rest := rest, waiting := false })
    (hlog : w'.log = entry :: w.log) (huser : w'.shared.options.SameUser user)
    (hentry : entry.operation = u) (hallows : (pending u w.log).Allows e user entry)
    (hbooks : Books e user (fun σ _ => σ.isClear = true) false ((pending u w.log).after entry) rest)
    (hgaveUp : entry = .gaveUp u → thread.cancelled = true) : w'.Booked e user :=
  h.moves entry ht hthreads hlog huser hentry hallows (fun _ => .of_idle rfl hbooks)
    (fun hd => absurd (hlive.symm.trans hd) Bool.false_ne_true) .inl hgaveUp

/-- An event that writes nothing lets an operation go on. -/
theorem keeps (h : w.Booked e user) (ht : w.threads[u]? = some thread)
    (hthreads : w'.threads = w.threads.set u thread') (hlog : w'.log = w.log)
    (huser : w'.shared.options.SameUser user)
    (hlive : thread'.dropped = false ∧ thread'.InBooks e user (pending u w.log))
    (hcancelled : thread'.cancelled = thread.cancelled) : w'.Booked e user := by
  refine ⟨huser, ?_, hlog ▸ h.orderly, fun t other ho hl => ?_, fun t other ho hd => ?_,
    fun t other ho hc => ?_, hlog ▸ h.gaveUp⟩
  · rw [hlog, hthreads, List.length_set]
    exact h.told
  all_goals
    rw [hthreads, getElem?_set ht] at ho
    rw [hlog]
    split at ho
  next htu =>
    subst htu
    cases ho
    exact hlive.2
  next htu => exact h.live t other ho hl
  next htu =>
    cases ho
    exact absurd (hlive.1.symm.trans hd) Bool.false_ne_true
  next htu => exact h.gone t other ho hd
  next htu =>
    subst htu
    cases ho
    exact h.cancelled t thread ht (hcancelled.symm.trans hc)
  next htu => exact h.cancelled t other ho hc

theorem next (h : w.Booked e user) {event : Event} (hw : w.next event = some w') :
    w'.Booked e user := by
  cases happens_of_next hw with
  | @touch u thread touch next ht hlive hrest =>
      have hbooks := (h.live u thread ht hlive).rest (Thread.message?_of_rest hrest (by simp))
      rw [hrest] at hbooks
      exact h.goesOn (.touched u touch) ht hlive rfl rfl
        (Touch.sameUser_apply h.sameUser hbooks.2.1) rfl hbooks.1
        (hbooks.2.2 _ (Touch.gives_apply h.sameUser touch)) nofun
  | @release u thread lock next ht hlive hrest =>
      have hbooks := (h.live u thread ht hlive).rest (Thread.message?_of_rest hrest (by simp))
      rw [hrest] at hbooks
      exact h.goesOn (.released u lock) ht hlive rfl rfl h.sameUser rfl trivial hbooks nofun
  | @refuse u thread lock access next ht hlive hcancelled hrest =>
      have hbooks := (h.live u thread ht hlive).rest (Thread.message?_of_rest hrest (by simp))
      rw [hrest] at hbooks
      obtain ⟨hmay, hbooks⟩ := hbooks.2 rfl
      exact h.goesOn (.gaveUp u) ht hlive rfl rfl h.sameUser rfl hmay hbooks fun _ => hcancelled
  | @enter u thread lock access cancellable next s ht hlive hwaiting hrest hs =>
      have hbooks := (h.live u thread ht hlive).rest (Thread.message?_of_rest hrest (by simp))
      rw [hrest] at hbooks
      exact h.goesOn (.admitted u lock access) ht hlive rfl rfl h.sameUser rfl trivial hbooks.1
        nofun
  | @join u thread lock access cancellable next ht hlive hwaiting hrest =>
      have hbooks := (h.live u thread ht hlive).rest (Thread.message?_of_rest hrest (by simp))
      exact h.keeps ht rfl rfl h.sameUser ⟨hlive, .of_step hrest (by simp) hbooks⟩ rfl
  | @send u thread m cancellable next ht hlive hwaiting hrest hgoes =>
      have hbooks := (h.live u thread ht hlive).rest (by
        rw [Thread.message?_of_exchange hrest, hwaiting]
        rfl)
      have hsent := hbooks
      rw [hrest] at hsent
      exact h.moves (.sent u m) ht rfl rfl h.sameUser rfl ⟨hsent.1, hsent.2.2.1⟩
        (fun _ => .of_sent hrest rfl hbooks)
        (fun hd => absurd (hlive.symm.trans hd) Bool.false_ne_true) .inl nofun
  | @stop u thread m next ht hlive hcancelled hrest =>
      have hbooks := h.live u thread ht hlive
      have hmessage := Thread.message?_of_exchange hrest
      -- The message was not handed over yet, or its answer is given up.
      cases hwaiting : thread.waiting with
      | false =>
          rw [hwaiting] at hmessage
          have hbooks := hbooks.rest hmessage
          rw [hrest] at hbooks
          have hmay : (pending u w.log).MayStop := by
            rintro answered heq
            have hclear := hbooks.1
            rw [heq] at hclear
            cases hclear
          exact h.goesOn (.gaveUp u) ht hlive rfl rfl h.sameUser rfl hmay (hbooks.2.2.2.2 rfl).1
            fun _ => hcancelled
      | true =>
          rw [hwaiting] at hmessage
          obtain ⟨σ₀, hpending, hbooks⟩ := hbooks.waits hmessage
          rw [hrest] at hbooks
          refine h.goesOn (.gaveUp u) ht hlive rfl rfl h.sameUser rfl ?_ ?_ fun _ => hcancelled
          · rw [hpending]
            exact nofun
          · rw [hpending]
            exact (hbooks.2.2.2.2 rfl).2
  | @wake u thread interval next ht hlive hcancelled hrest =>
      have hbooks := (h.live u thread ht hlive).rest (Thread.message?_of_rest hrest (by simp))
      rw [hrest] at hbooks
      obtain ⟨hmay, hbooks⟩ := hbooks.2 rfl
      exact h.goesOn (.gaveUp u) ht hlive rfl rfl h.sameUser rfl hmay hbooks fun _ => hcancelled
  | @pass u thread interval cancellable next ht hlive hrest =>
      have hbooks := (h.live u thread ht hlive).rest (Thread.message?_of_rest hrest (by simp))
      rw [hrest] at hbooks
      exact h.keeps ht rfl rfl h.sameUser ⟨hlive, .of_idle rfl hbooks.1⟩ rfl
  | @answer u thread m cancellable d next ht hlive hwaiting hrest hd =>
      have hmessage := Thread.message?_of_exchange hrest
      rw [hwaiting] at hmessage
      obtain ⟨σ₀, hpending, hbooks⟩ := (h.live u thread ht hlive).waits hmessage
      rw [hrest] at hbooks
      refine h.goesOn (.delivered u m d) ht hlive rfl rfl h.sameUser rfl ⟨_, hpending⟩ ?_ nofun
      rw [hpending]
      exact hbooks.2.2.2.1 d hd
  | @cancel u thread ht =>
      have hthreads : ((w.setThread u { thread with cancelled := true }).note
          (.cancelled u)).threads = w.threads.set u { thread with cancelled := true } := rfl
      exact h.moves (.cancelled u) ht hthreads rfl h.sameUser rfl trivial (h.live u thread ht)
        (h.gone u thread ht) (fun _ => .inr rfl) nofun
  | @drop u thread step next ht hlive hrest hwait =>
      exact h.moves (.dropped u) ht rfl rfl h.sameUser rfl trivial nofun (fun _ => rfl) .inl nofun
  | change files => exact ⟨h.sameUser, h.told, h.orderly, h.live, h.gone, h.cancelled, h.gaveUp⟩

theorem start {shared : Shared} {operations : List (Program Steps α)}
    (h : ∀ p ∈ operations,
      Books e shared.options (fun σ _ => σ.isClear = true) false .nothing p) :
    (World.start shared operations).Booked e shared.options := by
  have hthread {t : Nat} {thread : Thread α}
      (ht : (World.start shared operations).threads[t]? = some thread) :
      ∃ p ∈ operations, Thread.start p = thread := by
    simp only [World.start, List.getElem?_map, Option.map_eq_some_iff] at ht
    obtain ⟨p, hp, hthread⟩ := ht
    exact ⟨p, List.mem_of_getElem? hp, hthread⟩
  refine ⟨⟨rfl, rfl⟩, fun _ hmem => absurd hmem List.not_mem_nil, fun _ => trivial,
    fun t thread ht _ => ?_, fun t thread ht hd => ?_, fun t thread ht hc => ?_,
    fun _ hmem => absurd hmem List.not_mem_nil⟩
  all_goals obtain ⟨p, hp, rfl⟩ := hthread ht
  · exact .of_idle rfl (h p hp)
  · cases hd
  · cases hc

/-- When no operation is in progress, nothing is pending. -/
theorem balanced (h : w.Booked e user) (hover : ∀ thread ∈ w.threads, thread.isOver = true) :
    Balanced e user w.threads.length w.log := by
  refine ⟨h.told, fun t _ => h.orderly t, fun t ht => ?_⟩
  have hthread := List.getElem?_eq_getElem ht
  have hover := hover _ (List.getElem_mem ht)
  rw [Thread.isOver, Bool.or_eq_true] at hover
  cases hlive : w.threads[t].dropped with
  | true =>
      rw [h.gone t _ hthread hlive]
      rfl
  | false =>
      have hresult := hover.resolve_left (Bool.eq_false_iff.1 hlive)
      have hbooks := h.live t _ hthread hlive
      cases hrest : w.threads[t].rest with
      | perform step next =>
          rw [Thread.result?, hrest] at hresult
          cases hresult
      | done a =>
          have hmessage : w.threads[t].message? = none := by rw [Thread.message?, hrest]
          have hbooks := hbooks.rest hmessage
          rwa [hrest] at hbooks

end Booked

theorem Reaches.booked {w w' : World α} (h : w.Reaches w') (hw : w.Booked e user) :
    w'.Booked e user := by
  induction h with
  | refl w => exact hw
  | step event hnext rest ih => exact ih (hw.next hnext)

theorem Booked.ofUses {shared : Shared} {uses : List (Use β)} :
    (World.ofUses e shared uses).Booked e shared.options := by
  refine .start fun p hp => ?_
  obtain ⟨u, -, rfl⟩ := List.mem_map.1 hp
  cases u with
  | call c => exact .map (.call rfl fun _ hσ _ => hσ)
  | talk p => exact .map (.perform rfl fun _ hσ _ => Pending.isClear_of_isIdle hσ)

end World

/-! ## Counters and the log -/

/-- Whether an entry counts something. -/
def Entry.isCount : Entry → Bool
  | touched _ (.countRequest _) | touched _ .countLogon => true
  | _ => false

namespace World

/-- Whether the counters are what the log tells to have been counted. -/
structure Counts (w : World α) : Prop where
  requests : w.shared.statistics.totalRequests = tally requestCount w.log
  failures : w.shared.statistics.failedRequests = tally failureCount w.log
  logons : w.shared.statistics.logons = tally logonCount w.log
  last : w.shared.statistics.lastRequest.isSome = true ↔ 0 < tally requestCount w.log

namespace Counts

variable {w w' : World α}

/-- What counts nothing keeps the counters. -/
theorem quiet (h : w.Counts) (written : Option Entry)
    (hstatistics : w'.shared.statistics = w.shared.statistics)
    (hlog : w'.log = written.toList ++ w.log)
    (hwritten : ∀ entry ∈ written, entry.isCount = false) : w'.Counts := by
  have htally {weight : Pending → Entry → Nat}
      (hweight : ∀ σ entry, entry.isCount = false → weight σ entry = 0) :
      tally weight w'.log = tally weight w.log := by
    rw [hlog]
    cases written with
    | none => rfl
    | some entry =>
        show weight _ entry + tally weight w.log = tally weight w.log
        rw [hweight _ entry (hwritten entry rfl), Nat.zero_add]
  have hrequests : tally requestCount w'.log = tally requestCount w.log :=
    htally fun σ entry hentry => by
      unfold requestCount
      split
      · cases hentry
      · rfl
  have hfailures : tally failureCount w'.log = tally failureCount w.log :=
    htally fun σ entry hentry => by
      unfold failureCount
      split
      · cases hentry
      · rfl
  have hlogons : tally logonCount w'.log = tally logonCount w.log :=
    htally fun σ entry hentry => by
      unfold logonCount
      split
      · cases hentry
      · rfl
  exact ⟨by rw [hstatistics, hrequests, h.requests], by rw [hstatistics, hfailures, h.failures],
    by rw [hstatistics, hlogons, h.logons], by rw [hstatistics, hrequests, h.last]⟩

/-- A touch counts what its entry says. -/
theorem touches (h : w.Counts) {t : Nat} {touch : Touch}
    (hshared : w'.shared = (touch.apply w.shared).2) (hlog : w'.log = .touched t touch :: w.log) :
    w'.Counts := by
  obtain ⟨hrequests, hfailures, hlogons, hlast⟩ := h
  cases touch with
  | countRequest answered =>
      refine ⟨?_, ?_, ?_, ?_⟩
      all_goals
        rw [hshared, hlog, tally]
      · rw [← hrequests]
        exact Nat.add_comm _ 1
      · rw [← hfailures]
        cases answered with
        | true => exact (Nat.zero_add _).symm
        | false => exact Nat.add_comm _ 1
      · rw [← hlogons]
        exact (Nat.zero_add _).symm
      · exact iff_of_true rfl (Nat.add_pos_left Nat.one_pos _)
  | countLogon =>
      refine ⟨?_, ?_, ?_, ?_⟩
      all_goals
        rw [hshared, hlog, tally]
      · rw [← hrequests]
        exact (Nat.zero_add _).symm
      · rw [← hfailures]
        exact (Nat.zero_add _).symm
      · rw [← hlogons]
        exact Nat.add_comm _ 1
      · rw [show requestCount _ _ = 0 from rfl, Nat.zero_add]
        exact hlast
  | _ =>
      exact quiet ⟨hrequests, hfailures, hlogons, hlast⟩ (some (.touched t _))
        (by rw [hshared]; rfl) hlog fun entry hentry => by
          obtain rfl := Option.some.inj hentry
          rfl

theorem next (h : w.Counts) {event : Event} (hw : w.next event = some w') : w'.Counts := by
  cases happens_of_next hw with
  | touch ht hlive hrest => exact h.touches rfl rfl
  | release ht hlive hrest => exact h.quiet (some _) rfl rfl (by simp [Entry.isCount])
  | refuse ht hlive hcancelled hrest => exact h.quiet (some _) rfl rfl (by simp [Entry.isCount])
  | enter ht hlive hwaiting hrest hs => exact h.quiet (some _) rfl rfl (by simp [Entry.isCount])
  | join ht hlive hwaiting hrest => exact h.quiet none rfl rfl (by simp)
  | send ht hlive hwaiting hrest hgoes => exact h.quiet (some _) rfl rfl (by simp [Entry.isCount])
  | stop ht hlive hcancelled hrest => exact h.quiet (some _) rfl rfl (by simp [Entry.isCount])
  | wake ht hlive hcancelled hrest => exact h.quiet (some _) rfl rfl (by simp [Entry.isCount])
  | pass ht hlive hrest => exact h.quiet none rfl rfl (by simp)
  | answer ht hlive hwaiting hrest hd => exact h.quiet (some _) rfl rfl (by simp [Entry.isCount])
  | cancel ht => exact h.quiet (some _) rfl rfl (by simp [Entry.isCount])
  | drop ht hlive hrest hwait => exact h.quiet (some _) rfl rfl (by simp [Entry.isCount])
  | change files => exact h.quiet none rfl rfl (by simp)

end Counts

theorem Counts.ofUses {shared : Shared} {uses : List (Use β)} (h : shared.statistics = .zero) :
    (World.ofUses e shared uses).Counts := by
  have hzero : (World.ofUses e shared uses).shared.statistics = .zero := h
  refine ⟨?_, ?_, ?_, ?_⟩
  all_goals rw [hzero]
  · rfl
  · rfl
  · rfl
  · exact ⟨nofun, nofun⟩

theorem Reaches.counts {w w' : World α} (h : w.Reaches w') (hw : w.Counts) : w'.Counts := by
  induction h with
  | refl w => exact hw
  | step event hnext rest ih => exact ih (hw.next hnext)

end World

/-! ## Statistics -/

/-- Whether an operation was cancelled or dropped, by an entry. -/
def Entry.interrupts : Entry → Bool
  | cancelled _ | dropped _ => true
  | _ => false

/-- Whether the statistics are what was handed over, up to what goes wrong in the books. -/
structure Accounted (s : Statistics) (log : List Entry) : Prop where
  requests : s.totalRequests + tally uncounted log = tally handedOver log + tally unsent log
  failures : s.failedRequests + tally answeredMessage log + tally uncounted log =
    tally handedOver log + tally unsent log + tally uncountedAnswer log
  logons : s.logons + tally uncountedLogon log = tally ownLogon log
  last : s.lastRequest.isSome = true ↔ 0 < s.totalRequests
  failures_le : s.failedRequests ≤ s.totalRequests
  logons_le : s.logons ≤ s.totalRequests

/-- Whether the statistics are what was handed over. -/
structure Reflects (s : Statistics) (log : List Entry) : Prop where
  requests : s.totalRequests = tally handedOver log
  failures : s.failedRequests + tally answeredMessage log = tally handedOver log
  logons : s.logons = tally ownLogon log

theorem Balanced.accounted {n : Nat} {w : World α} (h : Balanced e user n w.log)
    (hcounts : w.Counts) :
    Accounted w.shared.statistics w.log := by
  obtain ⟨hrequests, hfailures, hlogons, hlast⟩ := hcounts
  have hanswered := h.answers
  have hended := failures_add_successes w.log
  have hcounted := h.requests
  rw [← hrequests] at hended hcounted hlast
  rw [← hfailures] at hended
  refine ⟨hcounted, by omega, ?_, hlast, by omega, ?_⟩
  · rw [hlogons]
    exact h.logons
  · rw [hlogons, hrequests]
    exact h.logons_le

/-- If nothing goes wrong in the books, the statistics are what was handed over. -/
theorem Accounted.reflects {s : Statistics} {log : List Entry} (h : Accounted s log)
    (hlapses : ∀ weight, Lapses weight → tally weight log = 0) : Reflects s log := by
  have hunsent := hlapses unsent (.inl rfl)
  have huncounted := hlapses uncounted (.inr (.inl rfl))
  have hanswer := hlapses uncountedAnswer (.inr (.inr (.inl rfl)))
  have hlogon := hlapses uncountedLogon (.inr (.inr (.inr rfl)))
  have hrequests := h.requests
  have hfailures := h.failures
  have hlogons := h.logons
  exact ⟨by omega, by omega, by omega⟩

/-- When no call is in progress, the statistics of a new client are what was handed over, as far as
the books are right. They are, for every call that gives up no wait and is not dropped, and only a
call that was cancelled gives up a wait. -/
theorem statistics_count {shared : Shared} {uses : List (Use β)} {w : World (Outcome ⊕ β)}
    (hnew : shared.statistics = .zero) (h : (World.ofUses e shared uses).Reaches w)
    (hover : ∀ thread ∈ w.threads, thread.isOver = true) :
    Accounted w.shared.statistics w.log ∧
    (∀ t, .gaveUp t ∉ w.log → .dropped t ∉ w.log →
      ∀ weight, Lapses weight → tallyOf t weight w.log = 0) ∧
    (∀ t, .gaveUp t ∈ w.log → .cancelled t ∈ w.log) ∧
    ((∀ entry ∈ w.log, entry.interrupts = false) → Reflects w.shared.statistics w.log) ∧
    ∀ later t m earlier, w.log = later ++ .sent t m :: earlier → pending t earlier = .logon →
      ∃ newPassword, m.IsLogonOf e shared.options newPassword := by
  have hbooked := h.booked World.Booked.ofUses
  have hcounts := h.counts (World.Counts.ofUses hnew)
  have haccounted := (hbooked.balanced hover).accounted hcounts
  have hright (t : Nat) (hstay : .gaveUp t ∉ w.log) (hlive : .dropped t ∉ w.log)
      (weight : Pending → Entry → Nat) (hweight : Lapses weight) : tallyOf t weight w.log = 0 :=
    tallyOf_eq_zero hweight hstay hlive
  refine ⟨haccounted, hright, hbooked.gaveUp, fun hcalm => ?_,
    fun later t m earlier hlog hpending => ?_⟩
  · refine haccounted.reflects fun weight hweight => ?_
    rw [← sum_tallyOf weight hbooked.told]
    refine Finset.sum_eq_zero fun t _ => ?_
    exact hright t (fun hmem => nomatch hcalm _ (hbooked.gaveUp t hmem))
      (fun hmem => nomatch hcalm _ hmem) weight hweight
  · exact ((hbooked.orderly t).allows hlog rfl).2 hpending

/-- A client that logs on for a request has counted two requests and one logon. -/
theorem statistics_count_calm : ∃ w : World (Outcome ⊕ Unit),
    (World.ofUses Sample.endpoint (Sample.shared "") [.call (.execute Sample.request)]).Reaches w ∧
    (∀ thread ∈ w.threads, thread.isOver = true) ∧
    Accounted w.shared.statistics w.log ∧ Reflects w.shared.statistics w.log ∧
    (tally handedOver w.log, tally answeredMessage w.log, tally ownLogon w.log) = (2, 2, 1) ∧
    w.shared.statistics = ⟨2, 0, 1, some ⟨0⟩⟩ := by
  have hrun : ((World.ofUses (β := Unit) Sample.endpoint (Sample.shared "")
      [.call (.execute Sample.request)]).run (Sample.advances 0 17 ++ [.deliver 0 Sample.opening] ++
        Sample.advances 0 21 ++ [.deliver 0 Sample.accepting] ++ Sample.advances 0 5)).map
        (fun w => (w.threads.all (·.isOver), w.log.all (!·.interrupts), w.shared.statistics,
          tally handedOver w.log, tally answeredMessage w.log, tally ownLogon w.log)) =
      some (true, true, ⟨2, 0, 1, some ⟨0⟩⟩, 2, 2, 1) := by
    decide +kernel
  obtain ⟨w, hw, hend⟩ := Option.map_eq_some_iff.1 hrun
  simp only [Prod.mk.injEq] at hend
  obtain ⟨hover, hcalm, hstatistics, hsent, hanswered, hlogons⟩ := hend
  have hreaches := World.Reaches.of_run hw
  have hover := List.all_eq_true.1 hover
  obtain ⟨haccounted, -, -, hreflects, -⟩ := statistics_count rfl hreaches hover
  exact ⟨w, hreaches, hover, haccounted,
    hreflects fun entry hentry => Bool.not_eq_eq_eq_not.1 (List.all_eq_true.1 hcalm entry hentry),
    by rw [hsent, hanswered, hlogons], hstatistics⟩

def Sample.signing : Request := { Sample.endpoint.post Logon.sessionsUri with cancellable := true }

/-- Two clients whose statistics are wrong. One has handed over nothing, since the request was
cancelled before it started, and has counted a request that failed. The other has handed over a
logon, which was given up with the request that it was for, and has counted nothing. -/
theorem statistics_miscount : ∃ w w' : World (Outcome ⊕ Unit),
    ((World.ofUses Sample.endpoint (Sample.shared "") [.call (.execute Sample.signing)]).Reaches w ∧
      (∀ thread ∈ w.threads, thread.isOver = true) ∧ tally handedOver w.log = 0 ∧
      w.shared.statistics = ⟨1, 1, 0, some ⟨0⟩⟩) ∧
    (World.ofUses Sample.endpoint (Sample.shared "")
        [.call (.execute Sample.cancellable)]).Reaches w' ∧
      (∀ thread ∈ w'.threads, thread.isOver = true) ∧ tally handedOver w'.log = 1 ∧
      tally answeredMessage w'.log = 0 ∧ tally ownLogon w'.log = 1 ∧
      w'.shared.statistics = .zero := by
  have hrun : ((World.ofUses (β := Unit) Sample.endpoint (Sample.shared "")
      [.call (.execute Sample.signing)]).run ([.cancel 0] ++ Sample.advances 0 14)).map
        (fun w => (w.threads.all (·.isOver), tally handedOver w.log, w.shared.statistics)) =
      some (true, 0, ⟨1, 1, 0, some ⟨0⟩⟩) := by
    decide +kernel
  have hrun' : ((World.ofUses (β := Unit) Sample.endpoint (Sample.shared "")
      [.call (.execute Sample.cancellable)]).run
        (Sample.advances 0 17 ++ [.cancel 0] ++ Sample.advances 0 2)).map
        (fun w => (w.threads.all (·.isOver), tally handedOver w.log, tally answeredMessage w.log,
          tally ownLogon w.log, w.shared.statistics)) =
      some (true, 1, 0, 1, .zero) := by
    decide +kernel
  obtain ⟨w, hw, hend⟩ := Option.map_eq_some_iff.1 hrun
  obtain ⟨w', hw', hend'⟩ := Option.map_eq_some_iff.1 hrun'
  simp only [Prod.mk.injEq] at hend hend'
  obtain ⟨hover, hsent, hstatistics⟩ := hend
  obtain ⟨hover', hsent', hanswered', hlogon', hstatistics'⟩ := hend'
  exact ⟨w, w', ⟨.of_run hw, List.all_eq_true.1 hover, hsent, hstatistics⟩, .of_run hw',
    List.all_eq_true.1 hover', hsent', hanswered', hlogon', hstatistics'⟩

end HmcClient.Client
