import HmcClient.Client.Alone

/-!
# Runs that are watched

A client does one thing after the other, and two hands reach in from outside. One is the world: the
console answers, time goes by while an operation waits for an answer or lets time pass, and
meanwhile the operation may be cancelled and the files of the machine may change. The other one is
laid on the trace. A `Schedule` turns it off, gives it a writer, or a writer that fails, as it likes
and between any two steps. To write a text is one step, so nothing comes in while a writer is at
work.

The run notes its exchanges, also one that is cancelled before its message is sent. What can be seen
of it without the trace is `Watched.bare`. The number of steps is not part of that: a text that is
traced is a step.

To watch a run does not change it: if nothing goes on outside and nothing is done to the trace, a
watched operation gives what it gives alone, and leaves the cells and the console as it leaves them
then (`Watched.run_still`).
-/

namespace HmcClient.Client

variable {σ α : Type}

/-! ## What comes in from outside -/

/-- What goes on outside while a client waits. -/
structure Meanwhile where
  elapsed : Duration
  /-- Whether the operation is cancelled. -/
  cancels : Bool
  /-- The files of the machine, if they change. -/
  files : Option Files

/-- Everything that comes in from outside if a client does one thing after the other. -/
structure Outside (σ : Type) where
  answering : Answering σ
  meanwhile : σ → Meanwhile × σ

namespace Outside

/-- A wait passes. -/
def pass (outside : Outside σ) (s : Alone σ) : Alone σ :=
  let (m, console) := outside.meanwhile s.console
  let files := m.files.getD s.shared.files
  ⟨{ s.shared.after m.elapsed with files := files }, console, s.cancelled || m.cancels⟩

/-- Nothing goes on but that messages are answered. -/
def still (answering : Answering σ) : Outside σ := ⟨answering, fun c => (⟨⟨0⟩, false, none⟩, c)⟩

/-- What goes on before a step. Only the answer to a message and a pause are waited for. -/
def before (outside : Outside σ) : Step → Alone σ → Alone σ
  | .exchange .., s | .pause .., s => outside.pass s
  | _, s => s

end Outside

/-- What is done to the trace from outside, each time after a number of steps. -/
abbrev Schedule := Nat → Sink → Sink

/-- Nothing is done to the trace. -/
def steady : Schedule := fun _ sink => sink

/-- The exchanges after a step. -/
def noted : (step : Step) → step.Answer → List (Message × Delivery) → List (Message × Delivery)
  | .exchange m _, d, past => past ++ [(m, d)]
  | _, _, past => past

/-- A client with nothing running, and what it has done. -/
structure Watched (σ : Type) where
  alone : Alone σ
  steps : Nat
  /-- The exchanges, the earliest first. -/
  exchanges : List (Message × Delivery)

/-! ## The client alone -/

namespace Alone

/-- The client with another trace. -/
def retrace (change : Sink → Sink) (s : Alone σ) : Alone σ :=
  { s with shared := { s.shared with sink := change s.shared.sink } }

theorem exchange_retrace (answering : Answering σ) (m : Message) (cancellable : Bool)
    (change : Sink → Sink) (s : Alone σ) :
    (s.retrace change).exchange answering m cancellable =
      ((s.exchange answering m cancellable).1,
        (s.exchange answering m cancellable).2.retrace change) := by
  unfold exchange retrace
  dsimp only
  split
  · rfl
  · rcases answering m s.console with ⟨_ | d, console⟩
    · dsimp only
      split
      · rfl
      · rfl
    · rfl

theorem pass_retrace (outside : Outside σ) (change : Sink → Sink) (s : Alone σ) :
    outside.pass (s.retrace change) = (outside.pass s).retrace change := rfl

theorem pause_retrace (answering : Answering σ) (interval : Duration) (cancellable : Bool)
    (change : Sink → Sink) (s : Alone σ) :
    handle answering (.pause interval cancellable) (s.retrace change) =
      ((handle answering (.pause interval cancellable) s).1,
        (handle answering (.pause interval cancellable) s).2.retrace change) := by
  unfold handle retrace
  dsimp only
  split
  · rfl
  · rfl

theorem exchange_sink (answering : Answering σ) (m : Message) (cancellable : Bool)
    (s : Alone σ) : (s.exchange answering m cancellable).2.shared.sink = s.shared.sink :=
  congrArg (·.2.shared.sink)
    (exchange_retrace answering m cancellable (fun _ => s.shared.sink) s)

theorem pause_sink (answering : Answering σ) (interval : Duration) (cancellable : Bool)
    (s : Alone σ) :
    (handle answering (.pause interval cancellable) s).2.shared.sink = s.shared.sink :=
  congrArg (·.2.shared.sink)
    (pause_retrace answering interval cancellable (fun _ => s.shared.sink) s)

/-- An operation that was answered has not been cancelled. -/
theorem running_of_exchange {answering : Answering σ} {m : Message} {s : Alone σ}
    (h : (s.exchange answering m true).1 ≠ .cancelled) :
    (s.exchange answering m true).2.cancelled = false := by
  unfold exchange at h ⊢
  split at h
  · exact absurd rfl h
  next hgoes =>
    rw [if_neg hgoes]
    rw [Bool.true_and, Bool.not_eq_true] at hgoes
    revert h
    rcases answering m s.console with ⟨_ | d, console⟩
    · exact fun h => absurd rfl h
    · exact fun _ => hgoes

theorem pause_answer (answering : Answering σ) (interval : Duration) (cancellable : Bool)
    (s : Alone σ) :
    (handle answering (.pause interval cancellable) s).1 = (cancellable && s.cancelled) ∧
      (handle answering (.pause interval cancellable) s).2.cancelled = s.cancelled := by
  rw [handle]
  split
  next hc => exact ⟨hc.symm, rfl⟩
  next hc => exact ⟨(Bool.not_eq_true _ ▸ hc).symm, rfl⟩

end Alone

/-! ## The run -/

namespace Watched

def handle (outside : Outside σ) (schedule : Schedule) (step : Step) (w : Watched σ) :
    step.Answer × Watched σ :=
  let s := outside.before step (w.alone.retrace (schedule w.steps))
  let (answer, s) := Alone.handle outside.answering step s
  (answer, ⟨s, w.steps + 1, noted step answer w.exchanges⟩)

/-- Runs an operation. -/
def run (outside : Outside σ) (schedule : Schedule) (p : Action α) (w : Watched σ) :
    α × Watched σ :=
  Program.run (handle outside schedule) p w

/-- What can be seen without the trace. -/
def bare (w : Watched σ) : Watched σ := ⟨w.alone.retrace fun _ => .off, 0, w.exchanges⟩

variable {outside : Outside σ} {schedule schedule' : Schedule} {w w' : Watched σ}

theorem run_perform (step : Step) (next : step.Answer → Action α) :
    w.run outside schedule (.perform step next) =
      (handle outside schedule step w).2.run outside schedule
        (next (handle outside schedule step w).1) := rfl

/-- If nothing goes on outside, an operation that is watched runs as one that is not. -/
theorem run_still (answering : Answering σ) (p : Action α) (w : Watched σ) :
    (w.run (.still answering) steady p).1 = (w.alone.run answering p).1 ∧
      (w.run (.still answering) steady p).2.alone = (w.alone.run answering p).2 := by
  induction p generalizing w with
  | done a => exact ⟨rfl, rfl⟩
  | perform step next ih =>
      have hpass : (Outside.still answering).pass (w.alone.retrace (steady w.steps)) = w.alone := by
        show (⟨w.alone.shared, w.alone.console, w.alone.cancelled || false⟩ : Alone σ) = w.alone
        rw [Bool.or_false]
      rw [run_perform]
      cases step with
      | touch t => exact ih _ _
      | release lock => exact ih _ _
      | acquire lock access cancellable => exact ih _ _
      | exchange m cancellable =>
          rw [handle, Outside.before, hpass]
          exact ih _ _
      | pause interval cancellable =>
          rw [handle, Outside.before, hpass]
          exact ih _ _

/-! ## Runs that differ in the trace -/

theorem handle_bare (outside : Outside σ) (schedule : Schedule) (w : Watched σ) {step : Step}
    (hstep : step ≠ .touch .isTraced) :
    (handle outside schedule step w).1 = (handle outside steady step w.bare).1 ∧
      (handle outside schedule step w).2.bare = (handle outside steady step w.bare).2.bare := by
  cases step with
  | touch t =>
      cases t with
      | isTraced => exact absurd rfl hstep
      | _ => exact ⟨rfl, rfl⟩
  | release lock => exact ⟨rfl, rfl⟩
  | acquire lock access cancellable => exact ⟨rfl, rfl⟩
  | exchange m cancellable =>
      simp only [handle, bare, Alone.handle, Outside.before, Alone.pass_retrace,
        Alone.exchange_retrace]
      exact ⟨trivial, rfl⟩
  | pause interval cancellable =>
      simp only [handle, bare, Outside.before, Alone.pass_retrace, Alone.pause_retrace]
      exact ⟨trivial, rfl⟩

theorem handle_alike (outside : Outside σ) (schedule schedule' : Schedule) {step : Step}
    (hstep : step ≠ .touch .isTraced) (hw : w.bare = w'.bare) :
    (handle outside schedule step w).1 = (handle outside schedule' step w').1 ∧
      (handle outside schedule step w).2.bare = (handle outside schedule' step w').2.bare := by
  obtain ⟨hanswer, hbare⟩ := w.handle_bare outside schedule hstep
  obtain ⟨hanswer', hbare'⟩ := w'.handle_bare outside schedule' hstep
  rw [hanswer, hbare, hanswer', hbare', hw]
  exact ⟨rfl, rfl⟩

/-- A program that traces a text or not, as the trace is on or off, goes on in one way. -/
theorem run_isTraced (outside : Outside σ) (schedule : Schedule) (w : Watched σ)
    {next : Bool → Action α} {text : String}
    (hnext : next true = .perform (.touch (.trace text)) fun _ => next false) :
    ∃ w' : Watched σ, w'.bare = w.bare ∧
      w.run outside schedule (.perform (.touch .isTraced) next) =
        w'.run outside schedule (next false) := by
  rw [run_perform]
  cases htraced : (handle outside schedule (.touch .isTraced) w).1 with
  | false => exact ⟨(handle outside schedule (.touch .isTraced) w).2, rfl, rfl⟩
  | true =>
      rw [hnext]
      exact ⟨(handle outside schedule (.touch (.trace text))
        (handle outside schedule (.touch .isTraced) w).2).2, rfl, rfl⟩

theorem bare_cancelled (hw : w.bare = w'.bare) : w.alone.cancelled = w'.alone.cancelled :=
  congrArg (·.alone.cancelled) hw

/-- Whether an operation is known not to be cancelled after a step. -/
def runsAfter (runs : Bool) : (step : Step) → step.Answer → Bool
  | .touch _, _ | .release _, _ => runs
  | .acquire _ _ cancellable, cancelled => (runs || cancellable) && !cancelled
  | .exchange _ cancellable, d => cancellable && d != .cancelled
  | .pause _ cancellable, cancelled => cancellable && !cancelled

theorem handle_running {runs : Bool} (hw : runs = true → w.alone.cancelled = false) (step : Step)
    (h : runsAfter runs step (handle outside schedule step w).1 = true) :
    (handle outside schedule step w).2.alone.cancelled = false := by
  cases step with
  | touch t => exact hw h
  | release lock => exact hw h
  | acquire lock access cancellable =>
      have h : (runs || cancellable) && !(cancellable && w.alone.cancelled) := h
      show w.alone.cancelled = false
      grind
  | exchange m cancellable =>
      obtain ⟨rfl, hd⟩ := Bool.and_eq_true_iff.1 h
      exact Alone.running_of_exchange (bne_iff_ne.1 hd)
  | pause interval cancellable =>
      obtain ⟨hanswer, hkept⟩ := Alone.pause_answer outside.answering interval cancellable
        (outside.pass (w.alone.retrace (schedule w.steps)))
      have h : cancellable && !(Alone.handle outside.answering (.pause interval cancellable)
        (outside.pass (w.alone.retrace (schedule w.steps)))).1 := h
      rw [hanswer] at h
      rw [handle, Outside.before, hkept]
      grind

end Watched

end HmcClient.Client
