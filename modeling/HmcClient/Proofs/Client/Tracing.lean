import HmcClient.Proofs.Client.Retry
import HmcClient.Proofs.Client.Traces
import HmcClient.Proofs.Client.Watched

/-!
# The trace changes nothing

Whatever is done with the trace while a client is used, nothing but the trace shows it. Two runs
that differ in it also differ in their steps, so they are not compared step by step. Where an
operation asks whether the trace is on, it goes on in one way, with or without a text in between;
everywhere else both runs take the same step.

If a writer that works is there all the time, it gets the dumps of the exchanges, in their order.
What carries the induction is the phase of the current exchange, that is, by which text the writer
is ahead of the exchanges that are noted, or behind them.
-/

namespace HmcClient.Client

variable {σ α β : Type}

/-! ## One operation -/

/-- The phase after a step that is not one of the trace. -/
def Phase.after (φ : Phase) : (step : Step) → step.Answer → Phase
  | .exchange _ _, d => d.phase
  | _, _ => φ

open Watched

variable {outside : Outside σ} {schedule schedule' : Schedule} {w w' : Watched σ}
  {Q : Phase → α → Prop} {runs : Bool} {φ : Phase}

/-- One step that is not one of the trace. -/
theorem Traces.next {step : Step} {next : step.Answer → Action α}
    (h : Traces Q runs φ (.perform step next)) (hstep : step ≠ .touch .isTraced)
    (hruns : runs = true → w.alone.cancelled = false) :
    Traces Q (runsAfter runs step (handle outside schedule step w).1)
      (φ.after step (handle outside schedule step w).1)
      (next (handle outside schedule step w).1) := by
  cases step with
  | touch t =>
      cases t with
      | isTraced => exact absurd rfl hstep
      | trace text => exact h.elim
      | redirectTrace writer => exact h.elim
      | _ => exact h _
  | release lock => exact h
  | acquire lock access cancellable =>
      obtain ⟨hin, hout⟩ := h
      have hanswer : (handle outside schedule (.acquire lock access cancellable) w).1 =
        (cancellable && w.alone.cancelled) := rfl
      cases hcancelled : cancellable && w.alone.cancelled with
      | false =>
          rw [hanswer, hcancelled, runsAfter, Bool.not_false, Bool.and_true]
          exact hin
      | true =>
          obtain ⟨hc, hw⟩ := Bool.and_eq_true_iff.1 hcancelled
          rw [hanswer, hcancelled, runsAfter, Bool.not_true, Bool.and_false]
          exact hout hc (Bool.eq_false_iff.2 fun hr => Bool.eq_false_iff.1 (hruns hr) hw)
  | exchange m cancellable => exact h.2 _
  | pause interval cancellable =>
      obtain ⟨-, hin, hout⟩ := h
      obtain ⟨hanswer, -⟩ := Alone.pause_answer outside.answering interval cancellable
        (outside.pass (w.alone.retrace (schedule w.steps)))
      cases hcancelled : (handle outside schedule (.pause interval cancellable) w).1 with
      | false =>
          rw [runsAfter, Bool.not_false, Bool.and_true]
          exact hin
      | true =>
          rw [runsAfter, Bool.not_true, Bool.and_false]
          exact hout (Bool.and_eq_true_iff.1 (hanswer.symm.trans hcancelled)).1

/-- What is done with the trace is not seen in anything else. -/
theorem Traces.alike (outside : Outside σ) (schedule schedule' : Schedule) {p : Action α}
    (h : Traces Q runs φ p)
    (hruns : runs = true → w.alone.cancelled = false) (hw : w.bare = w'.bare) :
    (w.run outside schedule p).1 = (w'.run outside schedule' p).1 ∧
      (w.run outside schedule p).2.bare = (w'.run outside schedule' p).2.bare := by
  induction p generalizing runs φ w w' with
  | done a => exact ⟨rfl, hw⟩
  | perform step next ih =>
      by_cases hstep : step = .touch .isTraced
      · subst hstep
        obtain ⟨text, φ', -, hnext, hrest⟩ := h
        obtain ⟨w₁, hw₁, hrun⟩ := w.run_isTraced outside schedule hnext
        obtain ⟨w₂, hw₂, hrun'⟩ := w'.run_isTraced outside schedule' hnext
        rw [hrun, hrun']
        refine ih false hrest (fun hr => ?_) (hw₁.trans (hw.trans hw₂.symm))
        rw [bare_cancelled hw₁]
        exact hruns hr
      · obtain ⟨hanswer, hbare⟩ := handle_alike outside schedule schedule' hstep hw
        rw [run_perform, run_perform, ← hanswer]
        exact ih _ (h.next hstep hruns) (handle_running hruns step) hbare

/-! ## What is traced -/

/-- The dumps of an exchange. -/
def dumps : Message × Delivery → List String
  | (m, .answered status headers body) =>
    [Dump.request m.request m.headers, Dump.response status headers body]
  | (m, _) => [Dump.request m.request m.headers]

/-- Whether the dumps of exchanges have been written as far as a phase says. -/
def Phase.Tells : Phase → (written dumped : List String) → Prop
  | .idle, written, dumped => written = dumped
  | .asked dump, written, dumped => written = dumped ++ [dump]
  | .answered dump, written, dumped => written ++ [dump] = dumped

theorem Phase.Tells.write {φ' : Phase} {text : String} {written dumped : List String}
    (h : φ.Tells written dumped) (hwrites : φ.Writes text φ') :
    φ'.Tells (written ++ [text]) dumped := by
  cases hwrites with
  | request => exact congrArg (· ++ [text]) h
  | answer => exact h

theorem Phase.Tells.hear {m : Message} {written dumped : List String} (d : Delivery)
    (h : (Phase.asked (Dump.request m.request m.headers)).Tells written dumped) :
    d.phase.Tells written (dumped ++ dumps (m, d)) := by
  obtain rfl : written = dumped ++ [Dump.request m.request m.headers] := h
  cases d with
  | answered status headers body => exact List.append_assoc ..
  | brokenOff status => rfl
  | lost => rfl
  | cancelled => rfl

/-- Whether a writer that works has got the dumps of all exchanges, and nothing else since. -/
structure Watched.Tells (w : Watched σ) (earlier : List String) (φ : Phase) : Prop where
  works : w.alone.shared.sink.writer = some .working
  written : φ.Tells w.alone.shared.sink.written (earlier ++ w.exchanges.flatMap dumps)

/-- A step that is not one of the trace. -/
theorem Watched.Tells.next {earlier : List String} {step : Step} {next : step.Answer → Action α}
    (hw : w.Tells earlier φ) (h : Traces Q runs φ (.perform step next))
    (hstep : step ≠ .touch .isTraced) :
    (handle outside steady step w).2.Tells earlier
      (φ.after step (handle outside steady step w).1) := by
  obtain ⟨hworks, hwritten⟩ := hw
  cases step with
  | touch t =>
      cases t with
      | isTraced => exact absurd rfl hstep
      | trace text => exact h.elim
      | redirectTrace writer => exact h.elim
      | _ => exact ⟨hworks, hwritten⟩
  | release lock => exact ⟨hworks, hwritten⟩
  | acquire lock access cancellable => exact ⟨hworks, hwritten⟩
  | exchange m cancellable =>
      obtain ⟨rfl, -⟩ := h
      have hsink : (handle outside steady (.exchange m cancellable) w).2.alone.shared.sink =
          w.alone.shared.sink :=
        Alone.exchange_sink outside.answering m cancellable
          (outside.pass (w.alone.retrace (steady w.steps)))
      refine ⟨by rw [hsink, hworks], ?_⟩
      rw [hsink]
      show Phase.Tells _ _ (earlier ++ (w.exchanges ++ [(m, _)]).flatMap dumps)
      rw [List.flatMap_append, List.flatMap_singleton, ← List.append_assoc]
      exact hwritten.hear _
  | pause interval cancellable =>
      have hsink : (handle outside steady (.pause interval cancellable) w).2.alone.shared.sink =
          w.alone.shared.sink :=
        Alone.pause_sink outside.answering interval cancellable
          (outside.pass (w.alone.retrace (steady w.steps)))
      refine ⟨by rw [hsink, hworks], ?_⟩
      rw [hsink]
      exact hwritten

/-- A step that finds the trace on, and the one by which a text is given to it. -/
theorem Watched.Tells.trace (outside : Outside σ) {earlier : List String}
    {next : Bool → Action α} {text : String} {φ' : Phase} (hw : w.Tells earlier φ)
    (hwrites : φ.Writes text φ')
    (hnext : next true = .perform (.touch (.trace text)) fun _ => next false) :
    ∃ w' : Watched σ, w'.Tells earlier φ' ∧ w'.alone.cancelled = w.alone.cancelled ∧
      w.run outside steady (.perform (.touch .isTraced) next) =
        w'.run outside steady (next false) := by
  obtain ⟨hworks, hwritten⟩ := hw
  have hon : (handle outside steady (.touch .isTraced) w).1 = true := by
    show w.alone.shared.sink.writer.isSome = true
    rw [hworks]
    rfl
  have hsink : w.alone.shared.sink.write text =
      ⟨some .working, w.alone.shared.sink.written ++ [text]⟩ := by
    rw [Sink.write, if_pos hworks, hworks]
  rw [run_perform, hon, hnext, run_perform]
  refine ⟨(handle outside steady (.touch (.trace text))
    (handle outside steady (.touch .isTraced) w).2).2, ⟨?_, ?_⟩, rfl, rfl⟩
  · show (w.alone.shared.sink.write text).writer = some .working
    rw [hsink]
  · show φ'.Tells (w.alone.shared.sink.write text).written _
    rw [hsink]
    exact hwritten.write hwrites

/-- An operation under which a writer works gives it the dumps of its exchanges. -/
theorem Traces.tells (outside : Outside σ) {earlier : List String} {p : Action α}
    (h : Traces Q runs φ p) (hruns : runs = true → w.alone.cancelled = false)
    (hw : w.Tells earlier φ) :
    ∃ φ', Q φ' (w.run outside steady p).1 ∧ (w.run outside steady p).2.Tells earlier φ' := by
  induction p generalizing runs φ w with
  | done a => exact ⟨φ, h, hw⟩
  | perform step next ih =>
      by_cases hstep : step = .touch .isTraced
      · subst hstep
        obtain ⟨text, φ', hwrites, hnext, hrest⟩ := h
        obtain ⟨w', hw', hcancelled, hrun⟩ := hw.trace outside hwrites hnext
        rw [hrun]
        refine ih false hrest (fun hr => ?_) hw'
        rw [hcancelled]
        exact hruns hr
      · rw [run_perform]
        exact ih _ (h.next hstep hruns) (handle_running hruns step) (hw.next h hstep)

/-! ## One thing after the other -/

/-- What a client is used for. -/
inductive Use (β : Type) where
  | call (c : Call)
  /-- An operation on a resource. -/
  | talk (p : Program Talk β)

/-- What is seen of a client after it was used. -/
structure Seen (β : Type) where
  result : Outcome ⊕ β
  session : Session
  statistics : Statistics

namespace Use

def operation (e : Endpoint) : Use β → Action (Outcome ⊕ β)
  | call c => .inl <$> c.operation e
  | talk p => .inr <$> perform e p

def redirect? : Use β → Option (Option Writer)
  | call c => c.redirect?
  | talk _ => none

theorem traces {e : Endpoint} {u : Use β} (hu : u.redirect? = none) :
    Traces (fun φ _ => φ = .idle) false .idle (u.operation e) := by
  cases u with
  | call c => exact .map (.call hu fun _ => rfl)
  | talk p => exact .map (.perform fun _ => rfl)

theorem operation_of_redirect {e : Endpoint} {u : Use β} {writer : Option Writer}
    (hu : u.redirect? = some writer) :
    u.operation e =
      .perform (.touch (.redirectTrace writer)) fun _ => .done (.inl (.done (.ok ()))) := by
  cases u with
  | call c =>
      cases c with
      | traceOn w => cases hu; rfl
      | traceOff => cases hu; rfl
      | _ => cases hu
  | talk p => cases hu

end Use

namespace Watched

/-- A client before it is used. -/
def start (s : Alone σ) (sink : Sink) : Watched σ := ⟨s.retrace fun _ => sink, 0, []⟩

/-- A client that is about to be used. The operation may be cancelled from the start. -/
def ready (outside : Outside σ) (w : Watched σ) : Watched σ :=
  { w with alone := outside.pass { w.alone with cancelled := false } }

/-- A client is used once. -/
def use (outside : Outside σ) (schedule : Schedule) (e : Endpoint) (u : Use β) (w : Watched σ) :
    (Outcome ⊕ β) × Watched σ :=
  (w.ready outside).run outside schedule (u.operation e)

def seen (result : Outcome ⊕ β) (w : Watched σ) : Seen β :=
  ⟨result, w.alone.shared.session, w.alone.shared.statistics⟩

/-- A client is used several times. -/
def useAll (outside : Outside σ) (schedule : Schedule) (e : Endpoint) :
    List (Use β) → Watched σ → List (Seen β) × Watched σ
  | [], w => ([], w)
  | u :: rest, w =>
    let (result, w) := use outside schedule e u w
    let (later, last) := useAll outside schedule e rest w
    (w.seen result :: later, last)

theorem seen_bare (result : Outcome ⊕ β) : w.bare.seen result = w.seen result := rfl

theorem ready_bare : (w.ready outside).bare = (w.bare.ready outside).bare := rfl

theorem use_alike (outside : Outside σ) (schedule schedule' : Schedule) (e : Endpoint) (u : Use β)
    (hw : w.bare = w'.bare) :
    (w.use outside schedule e u).1 = (w'.use outside schedule' e u).1 ∧
      (w.use outside schedule e u).2.bare = (w'.use outside schedule' e u).2.bare := by
  have hready : (w.ready outside).bare = (w'.ready outside).bare := by
    rw [ready_bare, hw, ← ready_bare]
  rw [use, use]
  cases hu : u.redirect? with
  | none => exact (Use.traces hu).alike outside schedule schedule' (by simp) hready
  | some writer =>
      have hstep : Step.touch (.redirectTrace writer) ≠ .touch .isTraced := by simp
      rw [Use.operation_of_redirect hu, run_perform, run_perform]
      exact ⟨rfl, (handle_alike outside schedule schedule' hstep hready).2⟩

theorem useAll_alike (outside : Outside σ) (schedule schedule' : Schedule) (e : Endpoint)
    (uses : List (Use β)) (hw : w.bare = w'.bare) :
    (w.useAll outside schedule e uses).1 = (w'.useAll outside schedule' e uses).1 ∧
      (w.useAll outside schedule e uses).2.bare =
        (w'.useAll outside schedule' e uses).2.bare := by
  induction uses generalizing w w' with
  | nil => exact ⟨rfl, hw⟩
  | cons u rest ih =>
      obtain ⟨hresult, hbare⟩ := use_alike outside schedule schedule' e u hw
      obtain ⟨hlater, hlast⟩ := ih hbare
      refine ⟨?_, hlast⟩
      simp only [useAll]
      rw [hresult, hlater, ← seen_bare, hbare, seen_bare]

theorem useAll_tells (outside : Outside σ) (e : Endpoint) {earlier : List String}
    {uses : List (Use β)} (huses : ∀ u ∈ uses, u.redirect? = none) (hw : w.Tells earlier .idle) :
    (w.useAll outside steady e uses).2.Tells earlier .idle := by
  induction uses generalizing w with
  | nil => exact hw
  | cons u rest ih =>
      rw [List.forall_mem_cons] at huses
      obtain ⟨hu, hrest⟩ := huses
      obtain ⟨φ, rfl, htells⟩ := (Use.traces (e := e) hu).tells outside
        (w := w.ready outside) (by simp) ⟨hw.works, hw.written⟩
      exact ih hrest htells

end Watched

/-- Two clients that differ in what is done with the trace are seen to do the same, whatever they
are used for. A writer that works all the time gets the dumps of all exchanges. -/
theorem tracing_transparent (outside : Outside σ) (e : Endpoint) (uses : List (Use β))
    (s : Alone σ) (sink sink' : Sink) (schedule schedule' : Schedule) :
    let end₁ := (start s sink).useAll outside schedule e uses
    let end₂ := (start s sink').useAll outside schedule' e uses
    end₁.1 = end₂.1 ∧ end₁.2.alone.console = end₂.2.alone.console ∧
    end₁.2.exchanges = end₂.2.exchanges ∧
    (sink.writer = some .working → schedule = steady → (∀ u ∈ uses, u.redirect? = none) →
      end₁.2.alone.shared.sink.written = sink.written ++ end₁.2.exchanges.flatMap dumps) := by
  have hstart : (start s sink).bare = (start s sink').bare := rfl
  obtain ⟨hseen, hbare⟩ := useAll_alike outside schedule schedule' e uses hstart
  refine ⟨hseen, congrArg (·.alone.console) hbare, congrArg (·.exchanges) hbare, ?_⟩
  intro hworks hsteady huses
  rw [hsteady]
  have htells : (start s sink).Tells sink.written .idle := ⟨hworks, (List.append_nil _).symm⟩
  exact (useAll_tells outside e huses htells).written

namespace Sample

/-- A client that executes a request. -/
def executing (sink : Sink) (schedule : Schedule) : List (Seen Unit) × Watched Bool :=
  (start ⟨shared "", false, false⟩ sink).useAll (.still console) schedule endpoint
    [.call (.execute request)]

/-- The trace is off and goes to a writer that fails, in turn. -/
def flickering : Schedule := fun n sink => sink.redirect (if n % 3 = 0 then none else some .broken)

end Sample

/-- A request for which a session is opened leaves four dumps. -/
theorem tracing_transparent_logon :
    (Sample.executing ⟨some .working, []⟩ steady).1 =
      (Sample.executing ⟨some .broken, []⟩ Sample.flickering).1 ∧
    (Sample.executing ⟨some .working, []⟩ steady).2.exchanges =
      (Sample.executing ⟨some .broken, []⟩ Sample.flickering).2.exchanges ∧
    (Sample.executing ⟨some .working, []⟩ steady).2.exchanges.map (·.2) =
      [Sample.opening, Sample.accepting] ∧
    (Sample.executing ⟨some .working, []⟩ steady).2.alone.shared.sink.written =
      (Sample.executing ⟨some .working, []⟩ steady).2.exchanges.flatMap dumps ∧
    (Sample.executing ⟨some .working, []⟩ steady).2.alone.shared.sink.written.length = 4 := by
  have hexchanges : (Sample.executing ⟨some .working, []⟩ steady).2.exchanges.map (·.2) =
      [Sample.opening, Sample.accepting] := by decide +kernel
  have hlength : (Sample.executing ⟨some .working, []⟩
      steady).2.alone.shared.sink.written.length = 4 := by decide +kernel
  have huses : ∀ u ∈ [(.call (.execute Sample.request) : Use Unit)], u.redirect? = none := by
    intro u hu
    rw [List.mem_singleton.1 hu]
    rfl
  obtain ⟨hseen, -, hsame, hwritten⟩ := tracing_transparent (.still Sample.console)
    Sample.endpoint [.call (.execute Sample.request)] ⟨Sample.shared "", false, false⟩
    ⟨some .working, []⟩ ⟨some .broken, []⟩ steady Sample.flickering (β := Unit)
  refine ⟨?_, ?_, hexchanges, ?_, hlength⟩
  · unfold Sample.executing
    exact hseen
  · unfold Sample.executing
    exact hsame
  · unfold Sample.executing
    rw [hwritten rfl rfl huses, List.nil_append]

end HmcClient.Client
