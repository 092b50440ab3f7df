import HmcClient.Client.Session
import HmcClient.Metrics.Context
import HmcClient.Resource.StorageGroup

/-!
# Partial content

The console may answer 206 where it could answer 200, with the same body. `Response.partly` makes
that of an answer. Who expects a document, a collection or nothing makes the same of both; a failure
still tells the status that came (`Result.Likewise`). Who expects a job, or that there is none, does
not: to accept 200 is not left to `Response.accepts` there, and 206 is unexpected.
-/

namespace HmcClient

/-! ## Results -/

/-- The failure without its status. -/
def Failure.statusless (f : Failure) : Failure := { f with status := none }

namespace Result

variable {α β γ δ : Type} {R : α → β → Prop} {Q : γ → δ → Prop}

/-- Whether two results are both values, related by `R`, or both failures, the same up to the
status. -/
inductive Likewise (R : α → β → Prop) : Result α → Result β → Prop
  | ok {a : α} {b : β} (h : R a b) : Likewise R (.ok a) (.ok b)
  | error {f g : Failure} (h : f.statusless = g.statusless) : Likewise R (.error f) (.error g)

theorem Likewise.refl (x : Result α) : Likewise Eq x x := by
  cases x with
  | ok a => exact .ok rfl
  | error f => exact .error rfl

theorem Likewise.bind {x : Result α} {y : Result β} (h : Likewise R x y) {f : α → Result γ}
    {g : β → Result δ} (hnext : ∀ a b, R a b → Likewise Q (f a) (g b)) :
    Likewise Q (x >>= f) (y >>= g) := by
  cases h with
  | ok h => exact hnext _ _ h
  | error h => exact .error h

end Result

open Result (Likewise)

/-! ## Answers -/

/-- The status of partial content in place of that of full content. -/
def partlyStatus (status : Nat) : Nat := if status = 200 then 206 else status

namespace Response

variable {α : Type}

/-- The answer with partial content in place of full content. -/
def partly (r : Response) : Response := { r with status := partlyStatus r.status }

/-- Whether a reading makes the same of full and of partial content. -/
def Indifferent (read : Response → Result α) : Prop := ∀ r, Likewise Eq (read r) (read r.partly)

theorem indifferent_iff {read : Response → Result α} :
    Indifferent read ↔ ∀ body, Likewise Eq (read ⟨200, body⟩) (read ⟨206, body⟩) := by
  refine ⟨fun h body => h ⟨200, body⟩, fun h r => ?_⟩
  obtain ⟨status, body⟩ := r
  rw [partly, partlyStatus]
  split
  next hstatus =>
    obtain rfl : status = 200 := hstatus
    exact h body
  · exact .refl _

theorem accepts_full {ok : List Nat} (h : 200 ∈ ok) : accepts ok 200 = true := by
  simp [accepts, h]

theorem accepts_partial {ok : List Nat} (h : 200 ∈ ok) : accepts ok 206 = true := by
  simp [accepts, h]

theorem document_indifferent (c : Codec α) {ok : List Nat} (h : 200 ∈ ok) :
    Indifferent (·.document c ok) := by
  rw [indifferent_iff]
  intro body
  simp only [document, accepts_full h, accepts_partial h, Bool.not_true, Bool.false_eq_true,
    if_false]
  split
  · exact .error rfl
  split
  · exact .ok rfl
  · exact .error rfl

theorem items_indifferent (c : Codec α) (collection : String) :
    Indifferent (·.items c collection) := by
  rw [indifferent_iff]
  intro body
  refine (document_indifferent membersCodec (List.mem_singleton_self 200) ⟨200, body⟩).bind ?_
  rintro members _ rfl
  split
  · exact .ok rfl
  split
  · exact .ok rfl
  · exact .error rfl

theorem nothing_indifferent {ok : List Nat} (h : 200 ∈ ok) : Indifferent (·.nothing ok) := by
  rw [indifferent_iff]
  intro body
  simp only [nothing, accepts_full h, accepts_partial h]
  exact .refl _

theorem opened_indifferent : Indifferent Logon.opened := by
  rw [indifferent_iff]
  intro body
  refine (document_indifferent LogonData.codec (show 200 ∈ [200, 201] by decide)
    ⟨200, body⟩).bind ?_
  rintro data _ rfl
  dsimp only
  split
  · exact .error rfl
  · exact .ok rfl

theorem samples_indifferent : Indifferent Sample.ofResponse := by
  rw [indifferent_iff]
  intro body
  exact .refl _

/-- A job or that there is none. -/
theorem startedJob?_partial (body : List UInt8) : startedJob? ⟨200, body⟩ = .ok none ∧
    startedJob? ⟨206, body⟩ =
      .error ((Failure.ofCause (.unexpectedStatus 206)).withStatus 206) := ⟨rfl, rfl⟩

theorem startedJob?_likewise_iff (r : Response) :
    Likewise Eq r.startedJob? r.partly.startedJob? ↔ r.status ≠ 200 := by
  obtain ⟨status, body⟩ := r
  constructor
  · rintro h (rfl : status = 200)
    obtain ⟨hfull, hpart⟩ := startedJob?_partial body
    have hpartly : Likewise Eq (startedJob? ⟨200, body⟩) (startedJob? ⟨206, body⟩) := h
    rw [hfull, hpart] at hpartly
    nomatch hpartly
  · intro (h : status ≠ 200)
    rw [partly, partlyStatus, if_neg h]
    exact .refl _

end Response

/-! ## Operations -/

namespace Talk

variable {α σ : Type}

/-- Whoever answers operations. -/
abbrev Handler (σ : Type) := (effect : Effect) → σ → Answer effect × σ

/-- An answer with partial content in place of full content. -/
def partlyAnswer : (effect : Effect) → Answer effect → Answer effect
  | .execute _, answer => answer.map Response.partly
  | .sessionId, answer | .now, answer | .pause .., answer => answer

/-- The handler that answers with partial content where another one does with full content. -/
def Handler.partly (handler : Handler σ) : Handler σ := fun effect s =>
  (partlyAnswer effect (handler effect s).1, (handler effect s).2)

/-- How an operation of one request runs. -/
theorem run_expect (request : Request) (read : Response → Result α) (handler : Handler σ) (s : σ) :
    (expect request read).run.run handler s =
      ((handler (.execute request) s).1 >>= read, (handler (.execute request) s).2) := by
  show Program.run (S := Talk) handler (.perform (.execute request) _) s = _
  rw [Program.run]
  rcases handler (.execute request) s with ⟨failure | response, s'⟩
  · rfl
  · rfl

theorem run_expect_partly (request : Request) (read : Response → Result α) (handler : Handler σ)
    (s : σ) : (expect request read).run.run handler.partly s =
      (Except.map Response.partly (handler (.execute request) s).1 >>= read,
        (handler (.execute request) s).2) :=
  run_expect request read handler.partly s

/-- An operation that reads the answer to its request alike ends alike. -/
theorem expect_partly {read : Response → Result α} (h : Response.Indifferent read)
    (request : Request) (handler : Handler σ) (s : σ) :
    Likewise Eq ((expect request read).run.run handler s).1
        ((expect request read).run.run handler.partly s).1 ∧
      ((expect request read).run.run handler s).2 =
        ((expect request read).run.run handler.partly s).2 := by
  rw [run_expect, run_expect_partly]
  refine ⟨?_, rfl⟩
  dsimp only
  cases (handler (.execute request) s).1 with
  | ok r => exact h r
  | error f => exact .error rfl

end Talk

end HmcClient
