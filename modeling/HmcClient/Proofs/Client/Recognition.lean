import HmcClient.Proofs.Client.Retry

/-!
# Which requests are taken for logons

A logon must not lead to another one, so the client has to know a logon when it executes one. It
tells one by its method and by the end of its path. That is enough to know every POST to where the
sessions of an endpoint are opened, whatever the base path is, and the client's own logons are such
requests.

It is also more than enough. The end of a path is not the path, and a POST to any other resource
whose last segment is the same is taken for a logon as well. Such a request only resembles one
(`OnlyResembles`), and gets none of the care that other requests get: it goes out without a session
if none is held, and is given up if its session is rejected.
-/

namespace HmcClient

namespace Request

/-- Whether a request is a POST to where the sessions of an endpoint are opened. -/
structure OpensSession (r : Request) (e : Endpoint) : Prop where
  method : r.method = "POST"
  path : r.url.path.render = (e.resourceUrl Logon.sessionsUri).path.render

/-- Whether a request is a POST to somewhere else, with a path that ends in the same segment. -/
structure OnlyResembles (r : Request) (e : Endpoint) : Prop where
  method : r.method = "POST"
  ending : "/sessions".toList <:+ r.url.path.render
  elsewhere : r.url.path.render ≠ (e.resourceUrl Logon.sessionsUri).path.render

theorem endsWith_iff {cs ending : List Char} : endsWith cs ending = true ↔ ending <:+ cs := by
  rw [endsWith, List.isPrefixOf_iff_prefix, List.reverse_prefix]

theorem isLogon_eq_true {r : Request} :
    r.isLogon = true ↔ r.method = "POST" ∧ "/sessions".toList <:+ r.url.path.render := by
  rw [isLogon, Bool.and_eq_true, beq_iff_eq, endsWith_iff]

end Request

namespace Url.Path

/-- The segment behind the last slash of a text. -/
def lastSegment (cs : List Char) : List Char := (cs.reverse.takeWhile (· != '/')).reverse

theorem lastSegment_append (cs : List Char) {last : List Char} (h : '/' ∉ last) :
    lastSegment (cs ++ '/' :: last) = last := by
  have hlast : ∀ c ∈ last.reverse, (c != '/') = true := fun c hc =>
    bne_iff_ne.mpr fun hslash => h (hslash ▸ List.mem_reverse.mp hc)
  rw [lastSegment, List.reverse_append, List.reverse_cons, List.append_assoc,
    List.takeWhile_append_of_pos hlast]
  simp

/-- A slash and a segment end a text only if they are its last segment. -/
theorem suffix_iff_segment (cs : List Char) {last segment : List Char} (hlast : '/' ∉ last)
    (hsegment : '/' ∉ segment) : '/' :: segment <:+ cs ++ '/' :: last ↔ segment = last := by
  constructor
  · rintro ⟨before, h⟩
    rw [← lastSegment_append before hsegment, h, lastSegment_append cs hlast]
  · rintro rfl
    exact List.suffix_append cs _

end Url.Path

namespace Client

variable {σ : Type} {idna : Idna} {text : String} {e : Endpoint} {r : Request} {s s' : Session}
  {exchanges : List (Message × Delivery)} {result : Result Response}

/-! ## Recognition -/

theorem opensSession_logonRequest (e : Endpoint) (o : Options) (newPassword : Option String) :
    (logonRequest e o newPassword).OpensSession e := ⟨rfl, rfl⟩

theorem sessionsUrl_ending (he : Endpoint.parse idna text = .ok e) :
    "/sessions".toList <:+ (e.resourceUrl Logon.sessionsUri).path.render :=
  (Request.isLogon_eq_true.mp (isLogon_logonRequest he ⟨"", "", false, none, false, 0⟩ none)).2

/-- A request is taken for a logon if it is one, or resembles one. -/
theorem isLogon_iff (he : Endpoint.parse idna text = .ok e) :
    r.isLogon = true ↔ r.OpensSession e ∨ r.OnlyResembles e := by
  rw [Request.isLogon_eq_true]
  constructor
  · rintro ⟨hmethod, hending⟩
    by_cases hpath : r.url.path.render = (e.resourceUrl Logon.sessionsUri).path.render
    · exact .inl ⟨hmethod, hpath⟩
    · exact .inr ⟨hmethod, hending, hpath⟩
  · rintro (⟨hmethod, hpath⟩ | ⟨hmethod, hending, -⟩)
    · exact ⟨hmethod, hpath ▸ sessionsUrl_ending he⟩
    · exact ⟨hmethod, hending⟩

/-- A request to operate on a resource is taken for a logon by the last segment of its path. -/
theorem isLogon_post_iff (he : Endpoint.parse idna text = .ok e) (uri : String) :
    (e.post uri).isLogon = true ↔
      ∃ before, (e.resourceUrl uri).path = .segments (before ++ ["sessions"]) := by
  obtain ⟨base, hbase, -, hurl⟩ := Endpoint.resourceUrl_eq he uri
  have hitems := Endpoint.kept_of_segmentsOn hbase (Endpoint.below? e.basePathChars uri.toList)
  have hpath : (e.resourceUrl uri).path = .segments _ := congrArg Url.path hurl
  rw [Request.isLogon_eq_true, and_iff_right (show (e.post uri).method = "POST" from rfl)]
  show _ <:+ (e.resourceUrl uri).path.render ↔ _
  rw [hpath]
  simp only [Url.Path.segments.injEq]
  generalize Endpoint.segmentsOn base (Endpoint.below? e.basePathChars uri.toList) = items at hitems
  -- The segments hold no slashes, so the text of the last one is what follows the last slash.
  rcases List.eq_nil_or_concat items with rfl | ⟨before, last, rfl⟩
  · simp [Url.Path.render, Url.Path.segmentsText]
  · rw [List.concat_eq_append] at hitems ⊢
    have hlast : '/' ∉ last.toList := fun hslash => absurd
      ((hitems last (List.mem_append_right _ (List.mem_singleton_self last))).whole '/' hslash)
      (by decide)
    rw [Url.Path.render, Url.Path.segmentsText_concat,
      show "/sessions".toList = '/' :: "sessions".toList by decide,
      Url.Path.suffix_iff_segment _ hlast (by decide)]
    refine ⟨fun h => ?_, ?_⟩
    · exact ⟨before, by rw [String.toList_inj.mp h]⟩
    · rintro ⟨others, h⟩
      rw [(List.append_singleton_inj.mp h).2]

/-! ## What follows for the request -/

/-- A request that goes out once, in the session that is held if one is, and changes nothing. -/
structure GoesOutOnce (r : Request) (s : Session) (exchanges : List (Message × Delivery))
    (result : Result Response) (s' : Session) : Prop where
  once : ∃ m d, exchanges = [(m, d)] ∧ m.IsOf r s.token? ∧ result = (d.outcome r >>= regular)
  session : s' = s

/-- A request that is looked after: it goes through the exchanges of `Executes`. -/
structure IsLookedAfter (e : Endpoint) (user : Options) (r : Request) (s : Session)
    (exchanges : List (Message × Delivery)) (result : Result Response) (s' : Session) : Prop where
  executes : Executes e user r s exchanges result s'
  /-- Without a session there is a logon first. -/
  preceded : s.isAuthenticated = false → ∃ m d rest, exchanges = (m, d) :: rest ∧
    m.IsLogonOf e user none
  /-- If it is rejected the first time, there is another logon, and if that opens a session, the
  request is sent once more, in that session, and that is all. -/
  repeated : ∀ m d after, exchanges.dropWhile (·.1.request.isLogon) = (m, d) :: after →
    d.rejects = true → ∃ m' d' rest, after = (m', d') :: rest ∧ m'.IsLogonOf e user none ∧
      ∀ data, d'.opened = .ok data → ∃ m'' d'', rest = [(m'', d'')] ∧
        m''.IsOf r (some data.sessionId)

theorem Begins.preceded {first : List (Message × Delivery)} (h : Begins e user s first s')
    (hs : s.isAuthenticated = false) : ∃ m d, first = [(m, d)] ∧ m.IsLogonOf e user none := by
  cases h with
  | held hheld => exact nomatch hs.symm.trans hheld
  | opened _ hm hd => exact ⟨_, _, rfl, hm⟩

theorem Executes.preceded (h : Executes e user r s exchanges result s')
    (hs : s.isAuthenticated = false) :
    ∃ m d rest, exchanges = (m, d) :: rest ∧ m.IsLogonOf e user none := by
  have hbegins : ∀ {first rest : List (Message × Delivery)} {s' : Session},
      Begins e user s first s' → ∃ m d more, first ++ rest = (m, d) :: more ∧
        m.IsLogonOf e user none := by
    intro first rest s' hfirst
    obtain ⟨m, d, rfl, hm⟩ := hfirst.preceded hs
    exact ⟨m, d, rest, rfl, hm⟩
  cases h with
  | noSession _ hm _ => exact ⟨_, _, [], rfl, hm⟩
  | settled hfirst _ _ => exact hbegins hfirst
  | notReopened hfirst _ _ _ _ => exact hbegins hfirst
  | repeated hfirst _ _ _ _ _ => exact hbegins hfirst

theorem Begins.dropWhile (he : Endpoint.parse idna text = .ok e) (hr : r.isLogon = false)
    {first rest : List (Message × Delivery)} {m : Message} {d : Delivery} {token : Option String}
    (h : Begins e user s first s') (hm : m.IsOf r token) :
    (first ++ (m, d) :: rest).dropWhile (·.1.request.isLogon) = (m, d) :: rest := by
  have hplain : m.request.isLogon = false := by rw [hm.request, hr]
  cases h with
  | held _ => exact List.dropWhile_cons_of_neg (by rw [hplain]; exact Bool.false_ne_true)
  | opened _ hlogon _ =>
      rw [List.singleton_append, List.dropWhile_cons, if_pos (hlogon.isLogon he)]
      exact List.dropWhile_cons_of_neg (by rw [hplain]; exact Bool.false_ne_true)

theorem Executes.repeated_of_rejected (he : Endpoint.parse idna text = .ok e)
    (hr : r.isLogon = false) (h : Executes e user r s exchanges result s') {m : Message}
    {d : Delivery}
    {after : List (Message × Delivery)}
    (hafter : exchanges.dropWhile (·.1.request.isLogon) = (m, d) :: after)
    (hd : d.rejects = true) : ∃ m' d' rest, after = (m', d') :: rest ∧ m'.IsLogonOf e user none ∧
      ∀ data, d'.opened = .ok data → ∃ m'' d'', rest = [(m'', d'')] ∧
        m''.IsOf r (some data.sessionId) := by
  cases h with
  | noSession hs hm _ =>
      rw [List.dropWhile_cons, if_pos (hm.isLogon he)] at hafter
      cases hafter
  | settled hfirst hm hkept =>
      rw [hfirst.dropWhile he hr hm] at hafter
      cases hafter
      exact nomatch hkept.symm.trans hd
  | notReopened hfirst hm _ hm' hd' =>
      rw [hfirst.dropWhile he hr hm] at hafter
      cases hafter
      exact ⟨_, _, [], rfl, hm', fun data hdata => nomatch hd'.symm.trans hdata⟩
  | repeated hfirst hm _ hm' hd' hm'' =>
      rw [hfirst.dropWhile he hr hm] at hafter
      cases hafter
      refine ⟨_, _, _, rfl, hm', fun data hdata => ⟨_, _, rfl, ?_⟩⟩
      obtain rfl := Except.ok.inj (hd'.symm.trans hdata)
      exact hm''

theorem Executes.isLookedAfter (he : Endpoint.parse idna text = .ok e) (hr : r.isLogon = false)
    (h : Executes e user r s exchanges result s') :
    IsLookedAfter e user r s exchanges result s' where
  executes := h
  preceded := h.preceded
  repeated _ _ _ := h.repeated_of_rejected he hr

theorem Follows.executeLogon_plain (hr : r.isLogon = true)
    (htype : Sendable r.effectiveContentType) (hs : ∀ id, s.token? = some id → Sendable id) :
    Follows user .free (fun g result => Plain s g.deeds →
      GoesOutOnce r s (Deed.exchanges g.deeds) result (Deed.leaves s g.deeds)) .opening
      (Client.execute e r).run := by
  refine executeLogon hr (attempt Rules.free_open ?_ (fun _ _ _ => trivial) ?_ ?_)
  · intro s₁ failure hbad h
    -- Nothing has written the session before it is read.
    obtain rfl : s₁ = s := h.1
    exact absurd hbad (Headers.ofRequest_ne_error htype hs)
  · intro s₁ m d hm hd
    have hsettled : ∀ result, (d.outcome r >>= regular) = result →
        Plain s [.heard m d, .sent m, .left, .read s₁, .entered .shared] →
        GoesOutOnce r s [(m, d)] result s := by
      rintro _ rfl ⟨-, hread, -⟩
      obtain rfl : s₁ = s := hread
      exact ⟨⟨m, d, rfl, hm, rfl⟩, rfl⟩
    cases d with
    | cancelled => exact absurd rfl hd
    | brokenOff status => exact hsettled _ rfl
    | lost => exact hsettled _ rfl
    | answered status headers body => exact ⟨rfl, hsettled _ rfl⟩
  · intro deeds hstop h
    exact absurd hstop h.not_gaveUp

/-- The client's own logons open sessions. A request is taken for a logon if it opens sessions or
only resembles one that does; among the requests to operate on a resource these are the ones whose
path ends in the segment `sessions`. Executed alone, such a request goes out once, and every other
request is looked after. -/
theorem logon_recognition (he : Endpoint.parse idna text = .ok e)
    (htype : Sendable r.effectiveContentType) {shared : Shared}
    (hfirst : ∀ id, shared.session.token? = some id → Sendable id) {answering : Answering σ}
    (hanswering : answering.Settles OpensSendable) (c : σ) :
    (∀ o newPassword, (logonRequest e o newPassword).OpensSession e ∧
      (logonRequest e o newPassword).isLogon = true) ∧
    (r.isLogon = true ↔ r.OpensSession e ∨ r.OnlyResembles e) ∧
    (∀ uri, (e.post uri).isLogon = true ↔
      ∃ before, (e.resourceUrl uri).path = .segments (before ++ ["sessions"])) ∧
    ∃ exchanges result shared' c',
      Alone.run answering (Client.execute e r).run ⟨shared, c, false⟩ =
        (result, ⟨shared', c', false⟩) ∧
      Alone.run answering.recorded (Client.execute e r).run ⟨shared, ([], c), false⟩ =
        (result, ⟨shared', (exchanges, c'), false⟩) ∧
      (r.OpensSession e ∨ r.OnlyResembles e →
        GoesOutOnce r shared.session exchanges result shared'.session) ∧
      (¬ (r.OpensSession e ∨ r.OnlyResembles e) →
        IsLookedAfter e shared.options r shared.session exchanges result shared'.session) := by
  refine ⟨fun o newPassword => ⟨opensSession_logonRequest e o newPassword,
    isLogon_logonRequest he o newPassword⟩, isLogon_iff he, isLogon_post_iff he, ?_⟩
  rw [← isLogon_iff he]
  cases hr : r.isLogon with
  | true =>
      obtain ⟨exchanges, result, shared', c', hrun, hrecorded, honce⟩ :=
        (Follows.executeLogon_plain (e := e) hr htype hfirst).runs_alone hanswering c
      exact ⟨exchanges, result, shared', c', hrun, hrecorded, fun _ => honce,
        fun h => absurd rfl h⟩
  | false =>
      obtain ⟨exchanges, result, shared', c', hrun, hrecorded, hexecutes⟩ :=
        (Follows.execute_plain he hr htype hfirst).runs_alone hanswering c
      exact ⟨exchanges, result, shared', c', hrun, hrecorded, nofun,
        fun _ => hexecutes.isLookedAfter he hr⟩

namespace Sample

def starting : Request := endpoint.post "/partitions/1/operations/start"

/-- A request about sessions of a partition, which are none of the client. -/
def listing : Request := endpoint.post "/partitions/1/sessions"

/-- A console that opens sessions where they are opened, and wants one for everything else. -/
def doorkeeper : Answering Unit := fun m c =>
  (some (if m.token.isSome then accepting
    else if m.request.url.path = (endpoint.resourceUrl Logon.sessionsUri).path then opening
    else rejecting), c)

end Sample

/-- A request to a resource that is executed without a session is preceded by a logon. -/
theorem logon_recognition_resource : ∃ exchanges result s,
    exchanges.map (·.2) = [Sample.opening, Sample.accepting] ∧
    IsLookedAfter Sample.endpoint Sample.options Sample.starting (Sample.shared "").session
      exchanges result s := by
  have hend : (Alone.run Sample.console.recorded
      (Client.execute Sample.endpoint Sample.starting).run
        ⟨Sample.shared "", ([], false), false⟩).2.console.1.map (·.2) =
      [Sample.opening, Sample.accepting] := by decide +kernel
  obtain ⟨-, hlogon, -, exchanges, result, shared', c, -, hrun, -, hafter⟩ :=
    @logon_recognition _ _ _ _ Sample.starting Sample.parse_endpoint (by decide +kernel)
      (Sample.shared "") (by decide +kernel) _ Sample.console_settles false
  have hplain : ¬ (Sample.starting.OpensSession Sample.endpoint ∨
      Sample.starting.OnlyResembles Sample.endpoint) := by
    rw [← hlogon]
    decide +kernel
  rw [hrun] at hend
  exact ⟨exchanges, result, shared'.session, hend, hafter hplain⟩

/-- A request to another resource is taken for a logon, and then it goes out without a session and
is given up when that is rejected, though the console would open one. -/
theorem logon_misrecognised :
    Sample.listing.isLogon = true ∧ ¬ Sample.listing.OpensSession Sample.endpoint ∧
    (fun x : Except Failure Response × Alone (List (Message × Delivery) × Unit) =>
      (x.1.toOption, x.2.shared.session.isAuthenticated,
        x.2.console.1.map fun y => (y.1.request.url.path, y.1.token, y.2)))
      (Alone.run Sample.doorkeeper.recorded (Client.execute Sample.endpoint Sample.listing).run
        ⟨Sample.shared "", ([], ()), false⟩) =
      (none, false, [(Sample.listing.url.path, none, Sample.rejecting)]) := by
  refine ⟨by decide +kernel, fun h => ?_, by decide +kernel⟩
  exact absurd h.path (by decide +kernel)

end Client

end HmcClient
