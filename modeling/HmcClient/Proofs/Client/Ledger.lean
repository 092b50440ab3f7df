import HmcClient.Proofs.Client.Cancelling
import Mathlib.Algebra.BigOperators.Group.Finset.Piecewise

/-!
# What the log says about the statistics

Two things in the log should tally: messages that are handed over, and requests and logons that are
counted. Between the two an operation has something *pending*: the answer to a message, the count of
a request that has ended, the count of a logon. What is pending follows from the entries of the
operation alone, and so does whether an entry is in order (`Pending.Allows`).

Three things go wrong in the books, all of them where a wait ends early. A wait that is given up
while a logon of the client's own is pending leaves it uncounted. An operation that is dropped
leaves uncounted whatever is pending. And a request that is stopped before its message is handed
over is counted all the same. Each of these has a weight of its own, and with them every log that is in
order balances (`Orderly.balance`).
-/

namespace HmcClient.Client

variable {user : Options}

/-! ## What is pending -/

/-- What the books wait for in an operation. -/
inductive Pending where
  | nothing
  /-- A logon of the client's own: the credentials for it have been read. -/
  | logon
  /-- The answer to a message that was handed over; `own` tells that it is such a logon. -/
  | answer (own : Bool)
  /-- That a request is counted, which has ended with an answer or without. -/
  | request (own answered : Bool)
  /-- That a logon is counted, after it has been counted as a request. -/
  | logonCount
  /-- Nothing, after a wait was given up. -/
  | stopped
  deriving DecidableEq, Repr

namespace Pending

/-- Whether nothing has been begun that is still to be counted. -/
def isClear : Pending → Bool
  | nothing | logon | stopped => true
  | answer _ | request .. | logonCount => false

/-- Whether nothing is begun, nor about to be. -/
def isIdle : Pending → Bool
  | nothing | stopped => true
  | _ => false

/-- Whether a message is pending that is no logon of the client's own. -/
def isForeign : Pending → Bool
  | answer false | request false _ => true
  | _ => false

/-- What is pending after a touch. -/
def touched (σ : Pending) : Touch → Pending
  | .options => .logon
  | .countRequest _ =>
    match σ with
    | request true _ => .logonCount
    | _ => .nothing
  | .countLogon => .nothing
  | _ => σ

/-- What is pending after a wait was given up. A request that is cancelled on its way has ended; a
logon of the client's own is given up with the work that it is part of. -/
def givenUp : Pending → Pending
  | answer false => .request false false
  | _ => .stopped

/-- What is pending after an entry of the operation. -/
def after (σ : Pending) : Entry → Pending
  | .touched _ t => σ.touched t
  | .sent .. => .answer (σ == .logon)
  | .delivered _ _ d =>
    match σ with
    | answer own => .request own d.isAnswered
    | _ => σ
  | .gaveUp _ => σ.givenUp
  | .dropped _ => .stopped
  | .admitted .. | .released .. | .cancelled _ => σ

/-- Whether a touch is in order. A request is counted when it has ended, and as it has ended, or as
one without an answer when it was stopped. -/
def AllowsTouch (σ : Pending) : Touch → Prop
  | .countRequest answered => (∃ own, σ = .request own answered) ∨ (σ = .stopped ∧ answered = false)
  | .countLogon => σ = .logonCount
  | .options => σ.isClear = true
  | _ => True

/-- Whether a wait may be given up. -/
def MayStop (σ : Pending) : Prop := ∀ answered, σ ≠ .request false answered

/-- Whether an entry of the operation is in order. A message for which credentials have been read is
a logon of the client's own. -/
def Allows (e : Endpoint) (user : Options) (σ : Pending) : Entry → Prop
  | .touched _ t => σ.AllowsTouch t
  | .sent _ m => σ.isClear = true ∧ (σ = .logon → ∃ newPassword, m.IsLogonOf e user newPassword)
  | .delivered .. => ∃ own, σ = .answer own
  | .gaveUp _ => σ.MayStop
  | .dropped _ | .admitted .. | .released .. | .cancelled _ => True

theorem isClear_of_isIdle {σ : Pending} (h : σ.isIdle = true) : σ.isClear = true := by
  cases σ with
  | nothing | stopped => rfl
  | logon | answer own | request own answered | logonCount => cases h

theorem isForeign_of_isIdle {σ : Pending} (h : σ.isIdle = true) : σ.isForeign = false := by
  cases σ with
  | nothing | stopped => rfl
  | logon | answer own | request own answered | logonCount => cases h

theorem isForeign_touched {σ : Pending} (h : σ.isForeign = false) (t : Touch) :
    (σ.touched t).isForeign = false := by
  cases t with
  | countRequest answered =>
      cases σ with
      | request own answered => cases own <;> rfl
      | _ => rfl
  | options | countLogon => rfl
  | _ => exact h

theorem givenUp_of_isForeign {σ : Pending} (h : σ.isForeign = false) :
    σ.MayStop ∧ σ.givenUp = .stopped := by
  cases σ with
  | answer own =>
      cases own with
      | false => cases h
      | true => exact ⟨nofun, rfl⟩
  | request own answered =>
      cases own with
      | false => cases h
      | true => exact ⟨nofun, rfl⟩
  | _ => exact ⟨nofun, rfl⟩

end Pending

/-- What is pending in an operation, by a log. -/
def pending (t : Nat) : List Entry → Pending
  | [] => .nothing
  | entry :: earlier =>
    if entry.operation = t then (pending t earlier).after entry else pending t earlier

/-- Whether the entries of an operation are in order. -/
def Orderly (e : Endpoint) (user : Options) (t : Nat) : List Entry → Prop
  | [] => True
  | entry :: earlier =>
    Orderly e user t earlier ∧ (entry.operation = t → (pending t earlier).Allows e user entry)

/-! ## Tallies -/

/-- What the entries of a log weigh together. An entry may weigh differently by what is pending. -/
def tally (weight : Pending → Entry → Nat) : List Entry → Nat
  | [] => 0
  | entry :: earlier => weight (pending entry.operation earlier) entry + tally weight earlier

/-- The weight of the entries of one operation. -/
def tallyOf (t : Nat) (weight : Pending → Entry → Nat) : List Entry → Nat :=
  tally fun σ entry => if entry.operation = t then weight σ entry else 0

/-- Messages that are handed over. -/
def handedOver (_ : Pending) : Entry → Nat
  | .sent .. => 1
  | _ => 0

/-- Messages that are answered. -/
def answeredMessage (_ : Pending) : Entry → Nat
  | .delivered _ _ d => d.isAnswered.toNat
  | _ => 0

/-- Logons of the client's own that are handed over. -/
def ownLogon (σ : Pending) : Entry → Nat
  | .sent .. => (σ == .logon).toNat
  | _ => 0

/-- Requests that are counted. -/
def requestCount (_ : Pending) : Entry → Nat
  | .touched _ (.countRequest _) => 1
  | _ => 0

/-- Requests that are counted as failed. -/
def failureCount (_ : Pending) : Entry → Nat
  | .touched _ (.countRequest answered) => (!answered).toNat
  | _ => 0

/-- Requests that are counted as answered. -/
def successCount (_ : Pending) : Entry → Nat
  | .touched _ (.countRequest answered) => answered.toNat
  | _ => 0

/-- Logons of the client's own that are counted as requests. -/
def ownRequestCount (σ : Pending) : Entry → Nat
  | .touched _ (.countRequest _) =>
    match σ with
    | .request true _ => 1
    | _ => 0
  | _ => 0

/-- Logons that are counted. -/
def logonCount (_ : Pending) : Entry → Nat
  | .touched _ .countLogon => 1
  | _ => 0

/-- Requests that are counted without having been handed over. -/
def unsent (σ : Pending) : Entry → Nat
  | .touched _ (.countRequest _) => (σ == .stopped).toNat
  | _ => 0

/-- Messages that are left uncounted. -/
def uncounted (σ : Pending) : Entry → Nat
  | .gaveUp _ =>
    match σ with
    | .answer true | .request .. => 1
    | _ => 0
  | .dropped _ =>
    match σ with
    | .answer _ | .request .. => 1
    | _ => 0
  | _ => 0

/-- Messages that are left uncounted and have been answered. -/
def uncountedAnswer (σ : Pending) : Entry → Nat
  | .gaveUp _ | .dropped _ =>
    match σ with
    | .request _ true => 1
    | _ => 0
  | _ => 0

/-- Logons that are counted as requests only. -/
def halfCounted (σ : Pending) : Entry → Nat
  | .gaveUp _ | .dropped _ => (σ == .logonCount).toNat
  | _ => 0

/-- Logons of the client's own that are left uncounted. -/
def uncountedLogon (σ : Pending) : Entry → Nat
  | .gaveUp _ | .dropped _ =>
    match σ with
    | .answer true | .request true _ | .logonCount => 1
    | _ => 0
  | _ => 0

/-! ## What was begun is counted -/

section

variable {e : Endpoint} {t : Nat} {log : List Entry} {entry : Entry}

theorem pending_cons (h : entry.operation = t) :
    pending t (entry :: log) = (pending t log).after entry := if_pos h

theorem pending_cons_ne (h : entry.operation ≠ t) : pending t (entry :: log) = pending t log :=
  if_neg h

theorem tallyOf_cons (weight : Pending → Entry → Nat) (h : entry.operation = t) :
    tallyOf t weight (entry :: log) = weight (pending t log) entry + tallyOf t weight log := by
  show (if entry.operation = t then weight (pending entry.operation log) entry else 0) + _ = _
  rw [if_pos h, h]
  rfl

theorem tallyOf_cons_ne (weight : Pending → Entry → Nat) (h : entry.operation ≠ t) :
    tallyOf t weight (entry :: log) = tallyOf t weight log := by
  show (if entry.operation = t then _ else 0) + tally _ log = tally _ log
  rw [if_neg h, Nat.zero_add]

/-- Where the log tells of an operation, it was in order by what was pending then. -/
theorem Orderly.allows (h : Orderly e user t log) {later earlier : List Entry}
    (hlog : log = later ++ entry :: earlier) (ht : entry.operation = t) :
    (pending t earlier).Allows e user entry := by
  induction later generalizing log with
  | nil =>
      subst hlog
      exact h.2 ht
  | cons other later ih =>
      subst hlog
      exact ih h.1 rfl

/-- If every entry in order keeps two weights in balance, up to what is pending, so does every log
in order. -/
theorem Orderly.balance {credit debit : Pending → Entry → Nat} {due : Pending → Nat}
    (hentry : ∀ {σ entry}, σ.Allows e user entry →
      credit σ entry + due (σ.after entry) = debit σ entry + due σ)
    (hnothing : due .nothing = 0) (h : Orderly e user t log) :
    tallyOf t credit log + due (pending t log) = tallyOf t debit log := by
  induction log with
  | nil => exact (Nat.zero_add _).trans hnothing
  | cons entry log ih =>
      have hbefore := ih h.1
      by_cases ht : entry.operation = t
      · have hnow := hentry (h.2 ht)
        rw [tallyOf_cons credit ht, tallyOf_cons debit ht, pending_cons ht]
        omega
      · rwa [tallyOf_cons_ne credit ht, tallyOf_cons_ne debit ht, pending_cons_ne ht]

end

namespace Pending

/-- Requests that are pending. -/
def requests : Pending → Nat
  | answer _ | request .. => 1
  | _ => 0

/-- Answers that are pending. -/
def answers : Pending → Nat
  | request _ true => 1
  | _ => 0

/-- Logons of the client's own that are pending. -/
def logons : Pending → Nat
  | answer true | request true _ | logonCount => 1
  | _ => 0

/-- Whether the books balance over one entry. -/
structure Balances (σ : Pending) (entry : Entry) : Prop where
  requests : requestCount σ entry + uncounted σ entry + (σ.after entry).requests =
    handedOver σ entry + unsent σ entry + σ.requests
  answers : successCount σ entry + uncountedAnswer σ entry + (σ.after entry).answers =
    answeredMessage σ entry + σ.answers
  logons : Client.logonCount σ entry + uncountedLogon σ entry + (σ.after entry).logons =
    ownLogon σ entry + σ.logons
  late : Client.logonCount σ entry + halfCounted σ entry +
    (σ.after entry == .logonCount).toNat = ownRequestCount σ entry + (σ == .logonCount).toNat

/-- Over every entry in order the books balance. -/
theorem Allows.balances {e : Endpoint} {σ : Pending} {entry : Entry} (h : σ.Allows e user entry) :
    σ.Balances entry := by
  cases entry with
  | touched u touch =>
      cases touch with
      | countRequest answered =>
          rcases h with ⟨own, rfl⟩ | ⟨rfl, rfl⟩
          · cases own <;> cases answered <;> exact ⟨rfl, rfl, rfl, rfl⟩
          · exact ⟨rfl, rfl, rfl, rfl⟩
      | countLogon =>
          obtain rfl : σ = .logonCount := h
          exact ⟨rfl, rfl, rfl, rfl⟩
      | options =>
          cases σ with
          | nothing | logon | stopped => exact ⟨rfl, rfl, rfl, rfl⟩
          | answer own | request own answered | logonCount => cases h
      | _ => exact ⟨rfl, rfl, rfl, rfl⟩
  | sent u m =>
      obtain ⟨hclear, -⟩ := h
      cases σ with
      | nothing | logon | stopped => exact ⟨rfl, rfl, rfl, rfl⟩
      | answer own | request own answered | logonCount => cases hclear
  | delivered u m d =>
      obtain ⟨own, rfl⟩ := h
      cases own <;> cases d <;> exact ⟨rfl, rfl, rfl, rfl⟩
  | gaveUp u =>
      cases σ with
      | answer own => cases own <;> exact ⟨rfl, rfl, rfl, rfl⟩
      | request own answered =>
          cases own with
          | false => exact absurd rfl (h answered)
          | true => cases answered <;> exact ⟨rfl, rfl, rfl, rfl⟩
      | _ => exact ⟨rfl, rfl, rfl, rfl⟩
  | dropped u =>
      cases σ with
      | answer own => cases own <;> exact ⟨rfl, rfl, rfl, rfl⟩
      | request own answered => cases own <;> cases answered <;> exact ⟨rfl, rfl, rfl, rfl⟩
      | _ => exact ⟨rfl, rfl, rfl, rfl⟩
  | _ => exact ⟨rfl, rfl, rfl, rfl⟩

/-- Where nothing is begun, nothing is pending. -/
theorem due_of_isClear {σ : Pending} (h : σ.isClear = true) :
    σ.requests = 0 ∧ σ.answers = 0 ∧ σ.logons = 0 ∧ (σ == .logonCount).toNat = 0 := by
  cases σ with
  | nothing | logon | stopped => exact ⟨rfl, rfl, rfl, rfl⟩
  | answer own | request own answered | logonCount => cases h

end Pending

section

variable {e : Endpoint} {t n : Nat} {log : List Entry} {weight weight' : Pending → Entry → Nat}

theorem tally_le (h : ∀ σ entry, weight σ entry ≤ weight' σ entry) (log : List Entry) :
    tally weight log ≤ tally weight' log := by
  induction log with
  | nil => exact Nat.le_refl _
  | cons entry log ih => exact Nat.add_le_add (h _ entry) ih

theorem tally_add (weight weight' : Pending → Entry → Nat) (log : List Entry) :
    tally (fun σ entry => weight σ entry + weight' σ entry) log =
      tally weight log + tally weight' log := by
  induction log with
  | nil => rfl
  | cons entry log ih =>
      rw [tally, tally, tally, ih]
      omega

theorem tally_eq_zero (h : ∀ later entry earlier, log = later ++ entry :: earlier →
    weight (pending entry.operation earlier) entry = 0) : tally weight log = 0 := by
  induction log with
  | nil => rfl
  | cons entry log ih =>
      rw [tally, h [] entry log rfl, Nat.zero_add]
      exact ih fun later other earlier heq => h (entry :: later) other earlier (by rw [heq]; rfl)

/-- A log tells of its operations only, so what they tell is all. -/
theorem sum_tallyOf (weight : Pending → Entry → Nat) (h : ∀ entry ∈ log, entry.operation < n) :
    ∑ t ∈ Finset.range n, tallyOf t weight log = tally weight log := by
  induction log with
  | nil => exact Finset.sum_const_zero
  | cons entry log ih =>
      have hentry := h entry List.mem_cons_self
      have hone : ∑ t ∈ Finset.range n,
          (if entry.operation = t then weight (pending entry.operation log) entry else 0) =
            weight (pending entry.operation log) entry := by
        rw [Finset.sum_ite_eq, if_pos (Finset.mem_range.2 hentry)]
      rw [tally, ← hone, ← ih fun other hother => h other (List.mem_cons_of_mem _ hother),
        ← Finset.sum_add_distrib]
      rfl

/-- Whether the books of all operations are in order, and nothing is pending in them. -/
structure Balanced (e : Endpoint) (user : Options) (n : Nat) (log : List Entry) : Prop where
  told : ∀ entry ∈ log, entry.operation < n
  orderly : ∀ t < n, Orderly e user t log
  clear : ∀ t < n, (pending t log).isClear = true

namespace Balanced

/-- What balances for every operation balances for all of them. -/
theorem balance (h : Balanced e user n log) {credit debit : Pending → Entry → Nat}
    {due : Pending → Nat}
    (hentry : ∀ {σ entry}, σ.Allows e user entry →
      credit σ entry + due (σ.after entry) = debit σ entry + due σ)
    (hclear : ∀ {σ : Pending}, σ.isClear = true → due σ = 0) :
    tally credit log = tally debit log := by
  rw [← sum_tallyOf credit h.told, ← sum_tallyOf debit h.told]
  refine Finset.sum_congr rfl fun t ht => ?_
  have ht := Finset.mem_range.1 ht
  have hbalance := (h.orderly t ht).balance hentry (hclear rfl)
  rwa [hclear (h.clear t ht), Nat.add_zero] at hbalance

/-- Every request that is handed over is counted, and nothing else. -/
theorem requests (h : Balanced e user n log) :
    tally requestCount log + tally uncounted log = tally handedOver log + tally unsent log := by
  rw [← tally_add, ← tally_add]
  exact h.balance (fun ha => ha.balances.requests) fun hc => (Pending.due_of_isClear hc).1

/-- Every request that is answered is counted as answered. -/
theorem answers (h : Balanced e user n log) :
    tally successCount log + tally uncountedAnswer log = tally answeredMessage log := by
  rw [← tally_add]
  exact h.balance (fun ha => ha.balances.answers) fun hc => (Pending.due_of_isClear hc).2.1

/-- Every logon of the client's own is counted as a logon. -/
theorem logons (h : Balanced e user n log) :
    tally logonCount log + tally uncountedLogon log = tally ownLogon log := by
  rw [← tally_add]
  exact h.balance (fun ha => ha.balances.logons) fun hc => (Pending.due_of_isClear hc).2.2.1

/-- Every logon is counted as a request before. -/
theorem logons_le (h : Balanced e user n log) : tally logonCount log ≤ tally requestCount log := by
  have hlate : tally logonCount log + tally halfCounted log = tally ownRequestCount log := by
    rw [← tally_add]
    exact h.balance (fun ha => ha.balances.late) fun hc => (Pending.due_of_isClear hc).2.2.2
  have hown : tally ownRequestCount log ≤ tally requestCount log := by
    refine tally_le (fun σ entry => ?_) log
    unfold ownRequestCount requestCount
    split
    · split <;> decide
    · exact Nat.zero_le _
  omega

end Balanced

theorem failures_add_successes (log : List Entry) :
    tally failureCount log + tally successCount log = tally requestCount log := by
  rw [← tally_add]
  congr 1
  funext σ entry
  unfold failureCount successCount requestCount
  split
  next answered => cases answered <;> rfl
  · rfl

/-! ## Where the books go wrong -/

/-- The weights of what goes wrong. -/
def Lapses (weight : Pending → Entry → Nat) : Prop :=
  weight = unsent ∨ weight = uncounted ∨ weight = uncountedAnswer ∨ weight = uncountedLogon

theorem Pending.after_ne_stopped {σ : Pending} {entry : Entry} (hσ : σ ≠ .stopped)
    (hstay : ∀ u, entry ≠ .gaveUp u) (hlive : ∀ u, entry ≠ .dropped u) :
    σ.after entry ≠ .stopped := by
  cases entry with
  | gaveUp u => exact absurd rfl (hstay u)
  | dropped u => exact absurd rfl (hlive u)
  | sent u m => nofun
  | delivered u m d => cases σ <;> first | exact hσ | nofun
  | touched u touch =>
      cases touch with
      | countRequest answered =>
          cases σ with
          | request own answered => cases own <;> nofun
          | _ => nofun
      | options | countLogon => nofun
      | _ => exact hσ
  | _ => exact hσ

theorem pending_ne_stopped (hstay : .gaveUp t ∉ log) (hlive : .dropped t ∉ log) :
    pending t log ≠ .stopped := by
  induction log with
  | nil => nofun
  | cons entry log ih =>
      have hbefore := ih (fun h => hstay (List.mem_cons_of_mem _ h))
        fun h => hlive (List.mem_cons_of_mem _ h)
      by_cases ht : entry.operation = t
      · rw [pending_cons ht]
        refine Pending.after_ne_stopped hbefore ?_ ?_
        · rintro u rfl
          exact hstay (ht ▸ List.mem_cons_self)
        · rintro u rfl
          exact hlive (ht ▸ List.mem_cons_self)
      · rwa [pending_cons_ne ht]

/-- Nothing goes wrong in the books of an operation that gives up no wait and is not dropped. -/
theorem tallyOf_eq_zero (hweight : Lapses weight) (hstay : .gaveUp t ∉ log)
    (hlive : .dropped t ∉ log) : tallyOf t weight log = 0 := by
  refine tally_eq_zero fun later entry earlier hlog => ?_
  split
  next ht =>
    have hentry : entry ∈ log := hlog ▸ List.mem_append_right _ List.mem_cons_self
    have hearlier {other : Entry} (h : other ∉ log) : other ∉ earlier := fun hmem =>
      h (hlog ▸ List.mem_append_right _ (List.mem_cons_of_mem _ hmem))
    have hstopped := pending_ne_stopped (hearlier hstay) (hearlier hlive)
    have hgave (u : Nat) : entry ≠ .gaveUp u := by
      rintro rfl
      exact hstay (ht ▸ hentry)
    have hdropped (u : Nat) : entry ≠ .dropped u := by
      rintro rfl
      exact hlive (ht ▸ hentry)
    rw [ht]
    rcases hweight with rfl | rfl | rfl | rfl
    · unfold unsent
      split
      · rw [beq_false_of_ne hstopped]
        rfl
      · rfl
    · unfold uncounted
      split
      · exact absurd rfl (hgave _)
      · exact absurd rfl (hdropped _)
      · rfl
    · unfold uncountedAnswer
      split
      · exact absurd rfl (hgave _)
      · exact absurd rfl (hdropped _)
      · rfl
    · unfold uncountedLogon
      split
      · exact absurd rfl (hgave _)
      · exact absurd rfl (hdropped _)
      · rfl
  · rfl

end

end HmcClient.Client
