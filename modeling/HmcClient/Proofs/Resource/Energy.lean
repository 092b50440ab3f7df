import HmcClient.Proofs.Exchange.Transcript
import HmcClient.Resource.Energy
import Mathlib.Data.List.Basic

/-!
# What a partition draws now

The power is read in three exchanges: a metrics context is created, its samples are read, and it is
deleted. Any of them can fail, and what has been learned from the first, the column of the metric,
is used on what the second one reports. However the reading ends, its result is kept aside while
the context is deleted. So there is one deletion for each context, it comes last, and nothing that
is answered to it matters (`liveEnergy_cleansUp`).
-/

namespace HmcClient

/-! ## Numbers in samples -/

/-- Whether a value is a number, and which. -/
inductive MetricValue.IsNumber : MetricValue → Binary64 → Prop
  | integer (n : Int) : IsNumber (.integer n) (.ofInt n)
  | double (x : Binary64) : IsNumber (.double x) x

theorem MetricValue.toBinary64?_eq_some {v : MetricValue} {x : Binary64} :
    v.toBinary64? = some x ↔ v.IsNumber x := by
  constructor
  · intro h
    cases v with
    | integer n => cases h; exact .integer _
    | double y => cases h; exact .double _
    | boolean b => cases h
    | string s => cases h
  · rintro (n | x)
    · rfl
    · rfl

/-- Whether the first row of a sample has a number in a column, and which. -/
def Sample.HasNumber (s : Sample) (index : Nat) (x : Binary64) : Prop :=
  ∃ row more value, s.rows = row :: more ∧ row[index]? = some value ∧ value.IsNumber x

theorem Sample.value?_bind_eq_some {s : Sample} {index : Nat} {x : Binary64} :
    (s.value? index).bind MetricValue.toBinary64? = some x ↔ s.HasNumber index x := by
  simp only [Sample.value?, Sample.HasNumber, Option.bind_eq_some_iff, List.head?_eq_some_iff,
    MetricValue.toBinary64?_eq_some]
  constructor
  · rintro ⟨value, ⟨row, ⟨more, hrows⟩, hvalue⟩, hnumber⟩
    exact ⟨row, more, value, hrows, hvalue, hnumber⟩
  · rintro ⟨row, more, value, hrows, hvalue, hnumber⟩
    exact ⟨value, ⟨row, ⟨more, hrows⟩, hvalue⟩, hnumber⟩

namespace Partition

variable {σ : Type} {e : Endpoint} {uri : String} {handler other : Talk.Handler σ} {s : σ}
  {context : MetricsContext} {index : Nat} {watts : Binary64} {samples : List Sample}

/-- Whether an item is the first one in a list of which `p` holds. -/
def IsFirst {α : Type} (p : α → Prop) (items : List α) (a : α) : Prop :=
  p a ∧ ∃ before after, items = before ++ a :: after ∧ ∀ b ∈ before, ¬ p b

/-- Whether a context offers the power in a column: the first group on use that it lists has there,
and nowhere before, the metric of the power. -/
def OffersPower (context : MetricsContext) (index : Nat) : Prop :=
  ∃ group, IsFirst (·.groupName = usageGroup) context.groups group ∧
    (group.metricInfos.map (·.metricName))[index]? = some powerMetric ∧
    ∀ earlier < index, (group.metricInfos.map (·.metricName))[earlier]? ≠ some powerMetric

/-- Whether samples tell the power of a partition: the number in a column of the first one of them
that is about the use of this partition and has a number there. -/
def TellsPower (samples : List Sample) (uri : String) (index : Nat) (watts : Binary64) : Prop :=
  ∃ sample, IsFirst (fun s => s.group = usageGroup ∧ s.objectUri = uri ∧ ∃ x, s.HasNumber index x)
    samples sample ∧ sample.HasNumber index watts

/-- Whether an answer holds samples. -/
structure HoldsSamples (response : Response) (samples : List Sample) : Prop where
  status : response.status = 200 ∨ response.status = 206
  text : Sample.readText (Utf8.decodeCharsLossy response.body) = .ok samples

theorem findIdx?_eq_some_iff_names {infos : List MetricInfo} :
    infos.findIdx? (·.metricName == powerMetric) = some index ↔
      (infos.map (·.metricName))[index]? = some powerMetric ∧
        ∀ earlier < index, (infos.map (·.metricName))[earlier]? ≠ some powerMetric := by
  rw [List.findIdx?_eq_some_iff_getElem]
  constructor
  · rintro ⟨hlength, hname, hbefore⟩
    refine ⟨?_, fun earlier hearlier => ?_⟩
    · rw [List.getElem?_map, List.getElem?_eq_getElem hlength]
      exact congrArg some (beq_iff_eq.mp hname)
    · rw [List.getElem?_map, List.getElem?_eq_getElem (Nat.lt_trans hearlier hlength)]
      exact fun h => hbefore earlier hearlier (beq_iff_eq.mpr (Option.some.inj h))
  · rintro ⟨hname, hbefore⟩
    rw [List.getElem?_map, Option.map_eq_some_iff] at hname
    obtain ⟨info, hinfo, hname⟩ := hname
    obtain ⟨hlength, rfl⟩ := List.getElem?_eq_some_iff.mp hinfo
    refine ⟨hlength, beq_iff_eq.mpr hname, fun earlier hearlier h => hbefore earlier hearlier ?_⟩
    rw [List.getElem?_map, List.getElem?_eq_getElem (Nat.lt_trans hearlier hlength)]
    exact congrArg some (beq_iff_eq.mp h)

theorem metricIndex?_eq_some :
    context.metricIndex? usageGroup powerMetric = some index ↔ OffersPower context index := by
  simp only [MetricsContext.metricIndex?, Option.bind_eq_bind, Option.bind_eq_some_iff,
    List.find?_eq_some_iff_append, findIdx?_eq_some_iff_names, OffersPower, IsFirst, beq_iff_eq,
    Bool.not_eq_true', beq_eq_false_iff_ne, ne_eq]

/-- Samples that are left out make no difference to a search that would pass over them. -/
theorem findSome?_filter {α β : Type} (p : α → Bool) (f : α → Option β) (items : List α) :
    (items.filter p).findSome? f = items.findSome? fun a => if p a then f a else none := by
  induction items with
  | nil => rfl
  | cons a rest ih =>
      rw [List.filter_cons, List.findSome?_cons]
      cases p a with
      | true => rw [if_pos rfl, if_pos rfl, List.findSome?_cons, ih]
      | false => rw [if_neg Bool.false_ne_true, if_neg Bool.false_ne_true, ih]

theorem reading?_eq_some :
    reading? samples uri index = some watts ↔ TellsPower samples uri index watts := by
  have hsome (s : Sample) (x : Binary64) :
      (if s.group == usageGroup && s.objectUri == uri then
          (s.value? index).bind MetricValue.toBinary64? else none) = some x ↔
        s.group = usageGroup ∧ s.objectUri = uri ∧ s.HasNumber index x := by
    simp only [Option.ite_none_right_eq_some, Bool.and_eq_true, beq_iff_eq,
      Sample.value?_bind_eq_some, and_assoc]
  have hnone (s : Sample) :
      (if s.group == usageGroup && s.objectUri == uri then
          (s.value? index).bind MetricValue.toBinary64? else none) = none ↔
        ¬ (s.group = usageGroup ∧ s.objectUri = uri ∧ ∃ x, s.HasNumber index x) := by
    simp only [Option.eq_none_iff_forall_ne_some, ne_eq, hsome, not_and, not_exists]
    exact ⟨fun h hgroup huri x => h x hgroup huri, fun h x hgroup huri => h hgroup huri x⟩
  simp only [reading?, findSome?_filter, List.findSome?_eq_some_iff, hsome, hnone]
  constructor
  · rintro ⟨before, sample, after, hsamples, ⟨hgroup, huri, hnumber⟩, hbefore⟩
    exact ⟨sample, ⟨⟨hgroup, huri, _, hnumber⟩, before, after, hsamples, hbefore⟩, hnumber⟩
  · rintro ⟨sample, ⟨⟨hgroup, huri, -⟩, before, after, hsamples, hbefore⟩, hnumber⟩
    exact ⟨before, sample, after, hsamples, ⟨hgroup, huri, hnumber⟩, hbefore⟩

example : reading? [⟨usageGroup, "/p", 0, [[.integer 1], [.integer 2, .integer 3]]⟩,
    ⟨usageGroup, "/q", 0, [[.integer 4, .integer 5]]⟩,
    ⟨usageGroup, "/p", 0, [[.boolean true, .integer 6]]⟩] "/p" 1 = some (.ofInt 6) := by
  decide +kernel

/-! ## The reading -/

open Talk (transcript)

/-- What samples tell of the power of a partition. -/
def readingIn (uri : String) (index : Nat) (samples : List Sample) : Result Binary64 :=
  match reading? samples uri index with
  | some watts => .ok watts
  | none => .error (.ofCause (.noPowerReading powerMetric uri))

theorem readPower_of_none (h : context.metricIndex? usageGroup powerMetric = none) :
    ((readPower e context uri).run.run handler s).1 =
        .error (.ofCause (.noPowerMetric powerMetric)) ∧
      transcript handler (readPower e context uri).run s = [] := by
  rw [readPower, h]
  exact ⟨rfl, rfl⟩

theorem readPower_of_some (h : context.metricIndex? usageGroup powerMetric = some index) :
    ((readPower e context uri).run.run handler s).1 =
        ((handler (.execute (e.get context.uri)) s).1 >>= Sample.ofResponse >>=
          readingIn uri index) ∧
      transcript handler (readPower e context uri).run s =
        [⟨e.get context.uri, (handler (.execute (e.get context.uri)) s).1⟩] := by
  have hsamples : ((MetricsContext.samples e context.uri).run.run handler s).1 =
      (handler (.execute (e.get context.uri)) s).1 >>= Sample.ofResponse :=
    congrArg Prod.fst (Talk.run_expect ..)
  rw [readPower, h]
  dsimp only
  cases hanswer : (handler (.execute (e.get context.uri)) s).1 >>= Sample.ofResponse with
  | error failure =>
      obtain ⟨hrun, htranscript⟩ := Talk.run_bind_error (hsamples.trans hanswer)
      rw [hrun, htranscript, MetricsContext.samples, Talk.transcript_expect]
      exact ⟨rfl, rfl⟩
  | ok samples =>
      obtain ⟨hrun, htranscript⟩ := Talk.run_bind_ok (hsamples.trans hanswer)
      rw [hrun, htranscript, MetricsContext.samples, Talk.transcript_expect]
      show _ = readingIn uri index samples ∧ _
      rw [readingIn]
      cases reading? samples uri index with
      | none => exact ⟨rfl, rfl⟩
      | some watts => exact ⟨rfl, rfl⟩

theorem ofResponse_eq_ok {response : Response} :
    Sample.ofResponse response = .ok samples ↔ HoldsSamples response samples := by
  rw [Sample.ofResponse]
  constructor
  · intro h
    split at h
    next hstatus => exact ⟨hstatus, h⟩
    next => cases h
  · rintro ⟨hstatus, htext⟩
    rw [if_pos hstatus, htext]

theorem readingIn_eq_ok :
    readingIn uri index samples = .ok watts ↔ TellsPower samples uri index watts := by
  rw [← reading?_eq_some, readingIn]
  cases reading? samples uri index with
  | none => exact ⟨nofun, nofun⟩
  | some _ => rw [Except.ok.injEq, Option.some.injEq]

theorem answer_bind_eq_ok {answer : Result Response} :
    (answer >>= Sample.ofResponse >>= readingIn uri index) = .ok watts ↔
      ∃ response samples, answer = .ok response ∧ HoldsSamples response samples ∧
        TellsPower samples uri index watts := by
  simp only [← ofResponse_eq_ok, ← readingIn_eq_ok]
  constructor
  · intro h
    cases answer with
    | error failure => cases h
    | ok response =>
        replace h : (Sample.ofResponse response >>= readingIn uri index) = .ok watts := h
        cases hsamples : Sample.ofResponse response with
        | error failure => rw [hsamples] at h; cases h
        | ok samples => exact ⟨response, samples, rfl, hsamples, by rwa [hsamples] at h⟩
  · rintro ⟨response, samples, rfl, hsamples, hreading⟩
    show (Sample.ofResponse response >>= readingIn uri index) = .ok watts
    rw [hsamples]
    exact hreading

theorem transcript_readPower (e : Endpoint) (uri : String) (context : MetricsContext)
    (handler : Talk.Handler σ) (s : σ) :
    (transcript handler (readPower e context uri).run s).length ≤ 1 ∧
      ∀ x ∈ transcript handler (readPower e context uri).run s, x.request = e.get context.uri := by
  cases h : context.metricIndex? usageGroup powerMetric with
  | none =>
      rw [(readPower_of_none h).2]
      exact ⟨Nat.zero_le 1, fun _ hx => absurd hx List.not_mem_nil⟩
  | some index =>
      rw [(readPower_of_some h).2]
      exact ⟨Nat.le_refl 1, fun x hx => by rw [List.mem_singleton.mp hx]⟩

theorem readPower_congr
    (h : other (.execute (e.get context.uri)) s = handler (.execute (e.get context.uri)) s) :
    ((readPower e context uri).run.run other s).1 =
      ((readPower e context uri).run.run handler s).1 := by
  cases hindex : context.metricIndex? usageGroup powerMetric with
  | none => rw [(readPower_of_none hindex).1, (readPower_of_none hindex).1]
  | some index => rw [(readPower_of_some hindex).1, (readPower_of_some hindex).1, h]

theorem readPower_eq_ok :
    ((readPower e context uri).run.run handler s).1 = .ok watts ↔
      ∃ index response samples, OffersPower context index ∧
        ⟨e.get context.uri, .ok response⟩ ∈ transcript handler (readPower e context uri).run s ∧
        HoldsSamples response samples ∧ TellsPower samples uri index watts := by
  simp only [← metricIndex?_eq_some]
  cases h : context.metricIndex? usageGroup powerMetric with
  | none =>
      rw [(readPower_of_none h).1]
      exact ⟨nofun, fun ⟨_, _, _, hindex, _⟩ => nomatch hindex⟩
  | some index =>
      rw [(readPower_of_some h).1, (readPower_of_some h).2, answer_bind_eq_ok]
      simp only [List.mem_singleton, Talk.Exchange.mk.injEq, true_and, Option.some.injEq,
        exists_and_left, exists_eq_left', eq_comm]

/-! ## The exchanges -/

/-- The request that creates a context for a reading. -/
def creation (e : Endpoint) : Request :=
  e.postJson "/services/metrics/context" (MetricsContext.creationBody [usageGroup] readingFrequency)

/-- The context that an answer announces, or the failure to create one. -/
def contextOf (answer : Result Response) : Result MetricsContext :=
  answer >>= (·.document MetricsContext.codec [200, 201])

/-- How the creation of a context is answered, and what it leaves. -/
def created (e : Endpoint) (handler : Talk.Handler σ) (s : σ) : Result Response × σ :=
  handler (.execute (creation e)) s

theorem run_create :
    (MetricsContext.create e [usageGroup] readingFrequency).run.run handler s =
      (contextOf (created e handler s).1, (created e handler s).2) :=
  Talk.run_expect ..

theorem transcript_create :
    transcript handler (MetricsContext.create e [usageGroup] readingFrequency).run s =
      [⟨creation e, (created e handler s).1⟩] :=
  Talk.transcript_expect ..

/-- What is done with a context: its power is read, and it is deleted. -/
def readAndDelete (e : Endpoint) (uri : String) (context : MetricsContext) :
    Operation Binary64 := do
  let reading ← ExceptT.lift (readPower e context uri).run
  let _ ← ExceptT.lift (MetricsContext.delete e context.uri).run
  ExceptT.mk (pure reading)

theorem liveEnergy_eq : liveEnergy e uri =
    MetricsContext.create e [usageGroup] readingFrequency >>= readAndDelete e uri := rfl

/-- The deletion follows the reading and does not change its result. -/
theorem run_readAndDelete (e : Endpoint) (uri : String) (context : MetricsContext)
    (handler : Talk.Handler σ) (s : σ) :
    ((readAndDelete e uri context).run.run handler s).1 =
        ((readPower e context uri).run.run handler s).1 ∧
      ∃ answer, transcript handler (readAndDelete e uri context).run s =
        transcript handler (readPower e context uri).run s ++
          [⟨e.delete context.uri, answer⟩] := by
  obtain ⟨hread, hreadTranscript⟩ := Talk.run_bind_lift (readPower e context uri) _ s
  obtain ⟨hdelete, hdeleteTranscript⟩ :=
    Talk.run_bind_lift (MetricsContext.delete e context.uri) _ _
  -- The deletion begins in whatever state the reading has left, and its own result is dropped.
  rw [readAndDelete, hread, hreadTranscript, hdelete, hdeleteTranscript, MetricsContext.delete,
    Talk.transcript_expect]
  exact ⟨rfl, _, rfl⟩

theorem liveEnergy_of_error {failure : Failure}
    (h : contextOf (created e handler s).1 = .error failure) :
    ((liveEnergy e uri).run.run handler s).1 = .error failure ∧
      transcript handler (liveEnergy e uri).run s =
        [⟨creation e, (created e handler s).1⟩] := by
  obtain ⟨hrun, htranscript⟩ := Talk.run_bind_error (f := readAndDelete e uri)
    ((congrArg Prod.fst run_create).trans h)
  rw [liveEnergy_eq, hrun, htranscript, transcript_create]
  exact ⟨rfl, rfl⟩

theorem liveEnergy_of_ok (uri : String)
    (h : contextOf (created e handler s).1 = .ok context) :
    ((liveEnergy e uri).run.run handler s).1 =
        ((readPower e context uri).run.run handler (created e handler s).2).1 ∧
      ∃ answer, transcript handler (liveEnergy e uri).run s =
        ⟨creation e, (created e handler s).1⟩ ::
          transcript handler (readPower e context uri).run (created e handler s).2 ++
            [⟨e.delete context.uri, answer⟩] := by
  obtain ⟨hrun, htranscript⟩ := Talk.run_bind_ok (f := readAndDelete e uri)
    ((congrArg Prod.fst run_create).trans h)
  obtain ⟨hread, answer, hdelete⟩ :=
    run_readAndDelete e uri context handler (created e handler s).2
  rw [liveEnergy_eq, hrun, htranscript, transcript_create, run_create, hread, hdelete]
  exact ⟨rfl, answer, rfl⟩

theorem filter_deletions {between : List Talk.Exchange}
    (hget : ∀ x ∈ between, x.request = e.get context.uri) (first last : Result Response) :
    ((⟨creation e, first⟩ :: between ++ [⟨e.delete context.uri, last⟩] :
      List Talk.Exchange).map (·.request)).filter (·.method == "DELETE") =
        [e.delete context.uri] := by
  have hbetween : (between.map (·.request)).filter (·.method == "DELETE") = [] := by
    rw [List.filter_eq_nil_iff]
    intro request hrequest
    obtain ⟨x, hx, rfl⟩ := List.mem_map.mp hrequest
    rw [hget x hx]
    exact Bool.false_ne_true
  rw [List.map_append, List.filter_append, List.map_cons, List.filter_cons_of_neg
    Bool.false_ne_true, hbetween]
  rfl

theorem mem_transcript_iff {between : List Talk.Exchange} {answer first last : Result Response} :
    ⟨e.get context.uri, answer⟩ ∈
        (⟨creation e, first⟩ :: between ++ [⟨e.delete context.uri, last⟩] : List Talk.Exchange) ↔
      ⟨e.get context.uri, answer⟩ ∈ between := by
  -- The methods differ, so neither of the other two requests can be taken for the reading.
  have hcreation : e.get context.uri ≠ creation e := fun h =>
    absurd (congrArg Request.method h) (show "GET" ≠ "POST" by decide)
  have hdelete : e.get context.uri ≠ e.delete context.uri := fun h =>
    absurd (congrArg Request.method h) (show "GET" ≠ "DELETE" by decide)
  simp only [List.cons_append, List.mem_cons, List.mem_append, List.not_mem_nil,
    Talk.Exchange.mk.injEq, hcreation, hdelete, false_and, false_or, or_false]

/-! ## The whole -/

structure CleansUp (e : Endpoint) (uri : String) (handler : Talk.Handler σ) (s : σ) : Prop where
  /-- If no context is created, nothing else is asked for, and that failure is the result. -/
  refused : ∀ failure, contextOf (created e handler s).1 = .error failure →
    ((liveEnergy e uri).run.run handler s).1 = .error failure ∧
      transcript handler (liveEnergy e uri).run s = [⟨creation e, (created e handler s).1⟩]
  /-- If a context is created, its deletion is the last request and the only one to delete, and
  between creation and deletion there is at most a request for its samples. -/
  deleted : ∀ context, contextOf (created e handler s).1 = .ok context →
    ∃ between answer, transcript handler (liveEnergy e uri).run s =
        ⟨creation e, (created e handler s).1⟩ :: between ++ [⟨e.delete context.uri, answer⟩] ∧
      between.length ≤ 1 ∧ (∀ x ∈ between, x.request = e.get context.uri) ∧
      ((transcript handler (liveEnergy e uri).run s).map (·.request)).filter
        (·.method == "DELETE") = [e.delete context.uri]
  /-- Nothing that is answered to a deletion matters. -/
  indifferent : ∀ other : Talk.Handler σ,
    (∀ effect s', (∀ request, effect = .execute request → request.method ≠ "DELETE") →
      other effect s' = handler effect s') →
    ((liveEnergy e uri).run.run other s).1 = ((liveEnergy e uri).run.run handler s).1
  /-- A number is the result exactly if the context offers the power in some column, samples have
  been received, and these tell that number there. -/
  read : ∀ context, contextOf (created e handler s).1 = .ok context → ∀ watts,
    ((liveEnergy e uri).run.run handler s).1 = .ok watts ↔
      ∃ index response samples, OffersPower context index ∧
        ⟨e.get context.uri, .ok response⟩ ∈ transcript handler (liveEnergy e uri).run s ∧
        HoldsSamples response samples ∧ TellsPower samples uri index watts

/-- Whoever answers, a context that was created is deleted, and the right cell is read. -/
theorem liveEnergy_cleansUp (e : Endpoint) (uri : String) (handler : Talk.Handler σ) (s : σ) :
    CleansUp e uri handler s where
  refused := fun _ h => liveEnergy_of_error h
  deleted := by
    intro context h
    obtain ⟨-, answer, htranscript⟩ := liveEnergy_of_ok uri h
    obtain ⟨hlength, hget⟩ :=
      transcript_readPower e uri context handler (created e handler s).2
    refine ⟨_, answer, htranscript, hlength, hget, ?_⟩
    rw [htranscript]
    exact filter_deletions hget ..
  indifferent := by
    intro other hother
    have hcreated : created e other s = created e handler s :=
      hother _ _ fun request h => by cases h; exact show "POST" ≠ "DELETE" by decide
    cases h : contextOf (created e handler s).1 with
    | error failure =>
        rw [(liveEnergy_of_error h).1, (liveEnergy_of_error (hcreated ▸ h)).1]
    | ok context =>
        rw [(liveEnergy_of_ok uri h).1, (liveEnergy_of_ok uri (hcreated ▸ h)).1, hcreated]
        refine readPower_congr (hother _ _ fun request h => ?_)
        cases h
        exact show "GET" ≠ "DELETE" by decide
  read := by
    intro context h watts
    obtain ⟨hrun, answer, htranscript⟩ := liveEnergy_of_ok uri h
    simp only [hrun, htranscript, readPower_eq_ok, mem_transcript_iff]

/-- A console whose contexts offer nothing, and that does not delete them either. -/
def idle : Talk.Handler Unit
  | .execute _, s => (.ok ⟨200, Utf8.encode "\x7b\"metrics-context-uri\": \"/m\"\x7d"⟩, s)
  | .sessionId, s => (none, s)
  | .now, s => (⟨0⟩, s)
  | .pause .., s => (false, s)

example : (transcript idle (liveEnergy
    ⟨⟨"https", "", none, some (.name "hmc"), none, .segments [""], none, none⟩⟩
    "/api/partitions/1").run ()).map (fun x => (x.request.method, x.request.url.path)) =
      [("POST", .segments ["services", "metrics", "context"]), ("DELETE", .segments ["m"])] := by
  decide +kernel

end Partition

end HmcClient
