import HmcClient.Proofs.Exchange.Partial

/-!
# What an operation exchanges

Whoever answers an operation sees its requests one after the other. The transcript of a run lists
them with what was answered. It is read off the tree of the operation, by the recursion that runs
it, so the transcript of two operations in a row is that of the one and then that of the other, from
the state the first has left.
-/

namespace HmcClient.Talk

variable {α β σ : Type} {handler : Handler σ}

/-- A request and what was answered to it. -/
structure Exchange where
  request : Request
  answer : Result Response

/-- What is exchanged by an effect. -/
def exchanged : (effect : Effect) → Answer effect → List Exchange
  | .execute request, answer => [⟨request, answer⟩]
  | .sessionId, _ | .now, _ | .pause .., _ => []

/-- The exchanges of a run, in their order. -/
def transcript (handler : Handler σ) : Program Talk α → σ → List Exchange
  | .done _, _ => []
  | .perform effect next, s =>
      exchanged effect (handler effect s).1 ++
        transcript handler (next (handler effect s).1) (handler effect s).2

theorem transcript_bind (p : Program Talk α) (f : α → Program Talk β) (s : σ) :
    transcript handler (p.bind f) s = transcript handler p s ++
      transcript handler (f (p.run handler s).1) (p.run handler s).2 := by
  induction p generalizing s with
  | done a => rfl
  | perform effect next ih =>
      -- Both sides begin with what this effect exchanges, and go on from the state it has left.
      simp only [Program.bind, transcript, Program.run, ih, List.append_assoc]

theorem transcript_expect (request : Request) (read : Response → Result α) (handler : Handler σ)
    (s : σ) : transcript handler (expect request read).run s =
      [⟨request, (handler (.execute request) s).1⟩] := by
  show transcript handler (.perform (.execute request) _) s = _
  rw [transcript]
  rcases handler (.execute request) s with ⟨failure | response, s'⟩
  · rfl
  · rfl

/-! ## Operations in a row -/

theorem run_bind_error {p : Operation α} {f : α → Operation β} {s : σ} {failure : Failure}
    (h : (p.run.run handler s).1 = .error failure) :
    (p >>= f).run.run handler s = (.error failure, (p.run.run handler s).2) ∧
      transcript handler (p >>= f).run s = transcript handler p.run s := by
  show Program.run handler (p.run.bind _) s = _ ∧ transcript handler (p.run.bind _) s = _
  rw [Program.run_bind, transcript_bind, h]
  exact ⟨rfl, List.append_nil _⟩

theorem run_bind_ok {p : Operation α} {f : α → Operation β} {s : σ} {a : α}
    (h : (p.run.run handler s).1 = .ok a) :
    (p >>= f).run.run handler s = (f a).run.run handler (p.run.run handler s).2 ∧
      transcript handler (p >>= f).run s = transcript handler p.run s ++
        transcript handler (f a).run (p.run.run handler s).2 := by
  show Program.run handler (p.run.bind _) s = _ ∧ transcript handler (p.run.bind _) s = _
  rw [Program.run_bind, transcript_bind, h]
  exact ⟨rfl, rfl⟩

/-- An operation whose result is kept aside is followed by the next one in any case. -/
theorem run_bind_lift (p : Operation α) (f : Result α → Operation β) (s : σ) :
    (ExceptT.lift p.run >>= f).run.run handler s =
        (f (p.run.run handler s).1).run.run handler (p.run.run handler s).2 ∧
      transcript handler (ExceptT.lift p.run >>= f).run s = transcript handler p.run s ++
        transcript handler (f (p.run.run handler s).1).run (p.run.run handler s).2 := by
  rw [ExceptT.run_bind_lift]
  show Program.run handler (p.run.bind _) s = _ ∧ transcript handler (p.run.bind _) s = _
  rw [Program.run_bind, transcript_bind]
  exact ⟨rfl, rfl⟩

end HmcClient.Talk
