import HmcClient.Proofs.Exchange.Endpoint
import HmcClient.Proofs.Url.Query
import Mathlib.Data.List.DropRight

/-!
# Endpoints in their normal form

However an endpoint is written, reading it leaves nothing to normalise. Its path has lost the slashes
at its end before it was set, so setting it once more changes nothing: either it is a list of kept
segments of which the last is not empty, or it is the root, whose only segment is empty. Its text is
therefore read as the endpoint itself.

A resource is appended to the base path as it is written, percent-encoded, as long as nothing in its
text is read as something else: no slash at its start, no backslash, nothing that is skipped and no
dot segment.
-/

namespace HmcClient

variable {idna : Idna} {text : String} {e : Endpoint} {base : List String} {segment : List Char}

/-! ## Hosts -/

theorem Host.Written.render_ne_nil {host : Host} (h : host.Written idna true) :
    host.render ≠ [] := by
  intro hnil
  have hagain := h.again
  rw [hnil] at hagain
  cases hagain

theorem Url.hostText?_of_render {u : Url} {host : Host} (hhost : u.host = some host)
    (hrender : host.render ≠ []) : u.hostText? = some (String.ofList host.render) := by
  rw [hostText?, hhost]
  cases host with
  | name name =>
      have hname : name ≠ "" := by
        rintro rfl
        exact hrender rfl
      split
      · next heq => cases heq
      · next heq => exact absurd (Host.name.inj (Option.some.inj heq)) hname
      · next heq => rw [Option.some.inj heq]
  | ipv4 address => rfl
  | ipv6 pieces => rfl

/-! ## Dot segments -/

namespace Url.Path

/-- A dot as it is or as an escape. -/
inductive Dot : List Char → Prop where
  | plain : Dot ['.']
  | lower : Dot ['%', '2', 'e']
  | upper : Dot ['%', '2', 'E']

/-- Whether a segment is one dot or two. -/
inductive DotSegment : List Char → Prop where
  | single {dot : List Char} (h : Dot dot) : DotSegment dot
  | double {first second : List Char} (hfirst : Dot first) (hsecond : Dot second) :
    DotSegment (first ++ second)

theorem eq_nil_of_decodeDots (h : decodeDots segment = []) : segment = [] := by
  fun_cases decodeDots segment with
  | case1 rest => cases h
  | case2 rest => cases h
  | case3 c rest _ _ =>
      rw [decodeDots] at h
      all_goals first | assumption | cases h
  | case4 => rfl

theorem exists_dot_of_decodeDots {cs : List Char} (h : decodeDots segment = '.' :: cs) :
    ∃ dot rest, Dot dot ∧ segment = dot ++ rest ∧ decodeDots rest = cs := by
  fun_cases decodeDots segment with
  | case1 rest => exact ⟨_, rest, .lower, rfl, (List.cons.inj h).2⟩
  | case2 rest => exact ⟨_, rest, .upper, rfl, (List.cons.inj h).2⟩
  | case3 c rest hlower hupper =>
      rw [decodeDots] at h
      · obtain ⟨rfl, hrest⟩ := List.cons.inj h
        exact ⟨_, rest, .plain, rfl, hrest⟩
      · assumption
      · assumption
  | case4 => cases h

theorem meaning_of_not_dotSegment (h : ¬ DotSegment segment) : meaning segment = .ordinary := by
  rw [meaning_eq_ordinary]
  constructor
  · intro hsingle
    obtain ⟨dot, rest, hdot, rfl, hnil⟩ := exists_dot_of_decodeDots hsingle
    rw [eq_nil_of_decodeDots hnil, List.append_nil] at h
    exact h (.single hdot)
  · intro hdouble
    obtain ⟨first, rest, hfirst, rfl, hone⟩ := exists_dot_of_decodeDots hdouble
    obtain ⟨second, rest', hsecond, rfl, hnil⟩ := exists_dot_of_decodeDots hone
    rw [eq_nil_of_decodeDots hnil, List.append_nil] at h
    exact h (.double hfirst hsecond)

/-- The dot segments are the segments that do not stand for themselves. -/
theorem dotSegment_iff : DotSegment segment ↔ meaning segment ≠ .ordinary := by
  constructor
  · intro h
    cases h with
    | single h => cases h <;> decide
    | double hfirst hsecond => cases hfirst <;> cases hsecond <;> decide
  · intro h
    by_contra hnot
    exact h (meaning_of_not_dotSegment hnot)

instance (segment : List Char) : Decidable (DotSegment segment) :=
  decidable_of_iff _ dotSegment_iff.symm

/-! ## Paths -/

/-- Ordinary segments are all kept. -/
theorem resolve_ordinary (kept : List String) {segments : List (List Char)}
    (h : ∀ segment ∈ segments, meaning segment = .ordinary) :
    resolve kept segments = kept.reverse ++ segments.map encodeSegment := by
  induction segments generalizing kept with
  | nil => exact (List.append_nil _).symm
  | cons segment rest ih =>
      obtain ⟨hsegment, hrest⟩ := List.forall_mem_cons.1 h
      cases rest with
      | nil =>
          rw [resolve, hsegment]
          exact List.reverse_cons
      | cons next others =>
          rw [resolve, hsegment]
          · dsimp only
            rw [ih _ hrest, List.reverse_cons, List.append_assoc]
            rfl
          · intro hnil
            cases hnil

end Url.Path

namespace Url

open HmcClient.Url.Path (Kept segmentsText encodeSegment isSeparator)

theorem Path.isSeparator_eq {c : Char} (h : c ≠ '\\') : isSeparator true c = (c == '/') := by
  simp [isSeparator, h]

theorem Path.splitOn_eq {cs : List Char} (h : '\\' ∉ cs) :
    Host.splitOn (isSeparator true) cs = cs.splitOn '/' := by
  induction cs with
  | nil => exact List.splitOnP_nil.symm
  | cons c cs ih =>
      rw [List.mem_cons, not_or] at h
      rw [Host.splitOn, ih h.2, isSeparator_eq (Ne.symm h.1), List.splitOn, List.splitOn,
        List.splitOnP_cons_eq_if_modifyHead]
      split
      · rfl
      · cases hparts : cs.splitOnP (· == '/') with
        | nil => exact absurd hparts (List.splitOnP_ne_nil _ cs)
        | cons part parts => rfl

/-- Encoding segment by segment is encoding the text. -/
theorem Path.segmentsText_encode {cs : List Char} (h : '\\' ∉ cs) :
    segmentsText ((Host.splitOn (isSeparator true) cs).map encodeSegment) =
      '/' :: Percent.encode Percent.inPath cs := by
  induction cs with
  | nil => rfl
  | cons c cs ih =>
      rw [List.mem_cons, not_or] at h
      have hrest := ih h.2
      rw [Host.splitOn, Percent.encode_cons]
      rw [isSeparator_eq (Ne.symm h.1)]
      split
      next hc =>
        obtain rfl := beq_iff_eq.1 hc
        rw [List.map_cons, segmentsText, List.flatMap_cons, ← segmentsText, hrest]
        rfl
      next hc =>
        cases hparts : Host.splitOn (isSeparator true) cs with
        | nil => exact absurd hparts (Host.splitOn_ne_nil _ cs)
        | cons part parts =>
            rw [hparts, List.map_cons, segmentsText, List.flatMap_cons, encodeSegment,
              String.toList_ofList, List.cons_append] at hrest
            rw [List.map_cons, segmentsText, List.flatMap_cons, encodeSegment,
              String.toList_ofList, Percent.encode_cons, List.cons_append, List.append_assoc,
              (List.cons.inj hrest).2]

/-- A secure URL that is read has a host and a path of kept segments. -/
theorem Shape.of_https {u : Url} (h : u.Shape idna) (hscheme : u.scheme = "https") :
    ∃ items host, u.path = .segments items ∧ items ≠ [] ∧ (∀ s ∈ items, Kept s) ∧
      u.host = some host ∧ host.Written idna true ∧ u.authority.Written idna u.scheme := by
  have hweb : isWebScheme u.scheme = true := isWeb_of_https hscheme
  cases h with
  | web _ ha hpath hne hitems =>
      cases hhost : u.host with
      | none => exact absurd ((ha.hostless hhost).1.symm.trans hweb) Bool.false_ne_true
      | some host =>
          have hhost' := (ha.host host hhost).1
          rw [hweb] at hhost'
          exact ⟨_, host, hpath, hne, hitems, rfl, hhost', ha⟩
  | file hfile => exact absurd (hscheme.symm.trans hfile) (by decide)
  | other hother | alone hother | verbatim hother =>
      rw [hasWebQuery, hweb, Bool.or_true] at hother
      cases hother

/-- The text of a secure URL that has no query and no fragment is read as that URL. -/
theorem Readable.parse_render_https {u : Url} (h : u.Readable idna) (hhttps : u.scheme = "https")
    (hquery : u.query = none) (hfragment : u.fragment = none) : parse idna u.render = .ok u := by
  obtain ⟨items, host, hpath, hne, hitems, hhost, -, ha⟩ := h.shape.of_https hhttps
  have hsilent := h.shape.silent (by rw [isVerbatim, hpath])
  have hscheme : splitScheme? (Blank.trimWhile isPadding u.render.toList) =
      some (u.scheme, u.middle) := by
    rw [render, String.toList_ofList, renderChars, hquery, hfragment, h.scheme.trim]
    show splitScheme? (u.scheme.toList ++ ':' :: Blank.dropEndWhile isPadding
      (u.middle ++ [] ++ [])) = _
    rw [List.append_nil, List.append_nil, dropEndWhile_silent hsilent,
      splitScheme?_again h.scheme]
  have hsplit {sign : Char} (hsign : ∀ c ∈ u.middle, c ≠ sign) :
      splitAtSign sign u.middle = (u.middle, none) := by
    have hpart := splitAtSign_partChars hsign none
    rwa [partChars, List.append_nil] at hpart
  have hmiddle : u.middle = '/' :: '/' :: u.authority.render ++ segmentsText items := by
    rw [middle, authorityChars_of_host hhost, hpath]
    rfl
  rw [parse_eq, hscheme]
  dsimp only
  rw [hsplit fun c hc => (hsilent c hc).2.2, hsplit fun c hc => (hsilent c hc).2.1]
  dsimp only
  have hweb : isWebScheme u.scheme = true := isWeb_of_https hhttps
  have hskim := skim_of_none fun c hc => isSkipped_of_isPadding (hsilent c hc).1
  rw [readRest, if_neg (by rw [hhttps]; decide), if_pos hweb, hskim, hmiddle,
    readWeb_again hweb ha hne hitems]
  obtain ⟨scheme, username, password, host', port, path, query, fragment⟩ := u
  cases hpath
  cases hquery
  cases hfragment
  rfl

end Url

namespace Endpoint

open Url.Path (Kept segmentsText)

/-! ## The path of an endpoint -/

theorem trimSlashes_idem (cs : List Char) : trimSlashes (trimSlashes cs) = trimSlashes cs :=
  List.rdropWhile_idempotent _ cs

theorem getLast?_trimSlashes (cs : List Char) : (trimSlashes cs).getLast? ≠ some '/' := by
  intro hlast
  have hne : trimSlashes cs ≠ [] := by
    intro hnil
    rw [hnil] at hlast
    cases hlast
  have hnot := List.rdropWhile_last_not (· == '/') cs hne
  have hslash : (trimSlashes cs).getLast hne = '/' :=
    Option.some.inj ((List.getLast?_eq_some_getLast hne).symm.trans hlast)
  exact hnot (beq_iff_eq.2 hslash)

/-- The path of an endpoint: the segments of the base path, or an empty one if there are none. -/
theorem path_of_parse (h : parse idna text = .ok e) :
    ∃ base : List String, (∀ s ∈ base, Kept s) ∧ e.basePathChars = segmentsText base ∧
      trimSlashes (segmentsText base) = segmentsText base ∧
      e.url.path = .segments (Url.Path.ofText true (segmentsText base)) := by
  obtain ⟨u, items, hu, hscheme, hitems, hurl⟩ := url_of_parse h
  obtain ⟨_, _, hpath, -, hkept, -⟩ := (Url.readable_of_parse hu).shape.of_https hscheme
  obtain rfl := Url.Path.segments.inj (hpath.symm.trans hitems)
  obtain ⟨base, hbase, htrim⟩ := trimSlashes_segmentsText hkept
  have hagain : trimSlashes (segmentsText base) = segmentsText base := by
    rw [← htrim, trimSlashes_idem]
  have hsegments : e.url.path = .segments (Url.Path.ofText true (segmentsText base)) := by
    rw [hurl, htrim, Url.Path.skim_segmentsText_self hbase]
  refine ⟨base, hbase, ?_, hagain, hsegments⟩
  rw [basePathChars, hsegments]
  by_cases hne : base = []
  · subst hne
    rfl
  · rw [Url.Path.ofText_segmentsText hbase hne]
    exact hagain

theorem url_of_parse_of_trimmed (h : parse idna text = .ok e) :
    e.url.setPath (String.ofList (trimSlashes e.url.path.render)) = e.url := by
  obtain ⟨base, hbase, hchars, -, hpath⟩ := path_of_parse h
  obtain ⟨hscheme, -, -, -⟩ := of_parse h
  show e.url.setPath (String.ofList e.basePathChars) = e.url
  rw [Url.setPath_web hscheme hpath, String.toList_ofList, hchars,
    Url.Path.skim_segmentsText_self hbase, ← hpath]

/-- The text of an endpoint is read as that endpoint. -/
theorem parse_render (h : parse idna text = .ok e) : parse idna e.render = .ok e := by
  obtain ⟨hscheme, ⟨cs, hpath⟩, hquery, hfragment⟩ := of_parse h
  have hreadable := Url.readable_endpoint h
  obtain ⟨_, host, -, -, -, hhost, hwritten, -⟩ := hreadable.shape.of_https hscheme
  have hurl := hreadable.parse_render_https hscheme hquery hfragment
  have htext := Url.hostText?_of_render hhost hwritten.render_ne_nil
  have hverbatim : e.url.isVerbatim = false := by rw [Url.isVerbatim, hpath]
  rw [parse, render, hurl]
  dsimp only
  rw [if_neg (not_not.2 hscheme), ofUrl, htext, hverbatim, url_of_parse_of_trimmed h]
  obtain ⟨⟨scheme, username, password, host, port, path, query, fragment⟩⟩ := e
  cases hquery
  cases hfragment
  rfl

/-! ## Resources -/

/-- Whether a text is a plain path: it does not start with a slash, it has no dot segment, and it
has no character that is read as another one or skipped. -/
structure Plain (resource : String) : Prop where
  start : resource.toList.head? ≠ some '/'
  noDots : ∀ segment ∈ resource.toList.splitOn '/', ¬ Url.Path.DotSegment segment
  noBackslash : '\\' ∉ resource.toList
  noBreaks : ∀ c ∈ ['\t', '\r', '\n'], c ∉ resource.toList

theorem below?_of_plain {r : List Char} (hstart : r.head? ≠ some '/') :
    below? (segmentsText base) r = some r := by
  have hdrop : r.dropWhile (· == '/') = r := by
    cases r with
    | nil => rfl
    | cons c rest =>
        have hc : c ≠ '/' := fun heq => hstart (congrArg some heq)
        rw [List.dropWhile_cons_of_neg (by simpa using hc)]
  rw [below?, hdrop]
  cases base with
  | nil => rfl
  | cons s base =>
      have hne : segmentsText (s :: base) ≠ [] := by
        intro hnil
        cases hnil
      have hother : r ≠ segmentsText (s :: base) := by
        rintro rfl
        exact hstart rfl
      have hprefix : ¬ (segmentsText (s :: base) ++ ['/']).isPrefixOf r = true := by
        intro hprefix
        obtain ⟨tail, rfl⟩ := List.isPrefixOf_iff_prefix.1 hprefix
        exact hstart rfl
      rw [if_neg hne, if_neg hother, if_neg hprefix]

theorem Plain.skim {r : String} (h : Plain r) : Url.skim r.toList = r.toList := by
  refine Url.skim_of_none fun c hc => ?_
  have hne : ∀ d ∈ ['\t', '\r', '\n'], c ≠ d := by
    rintro d hd rfl
    exact h.noBreaks c hd hc
  simp [Url.isSkipped, hne]

theorem Plain.ordinary {r : String} (h : Plain r) :
    ∀ segment ∈ Host.splitOn (Url.Path.isSeparator true) r.toList,
      Url.Path.meaning segment = .ordinary := by
  intro segment hsegment
  rw [Url.Path.splitOn_eq h.noBackslash] at hsegment
  exact not_not.1 (mt Url.Path.dotSegment_iff.2 (h.noDots segment hsegment))

/-- A plain path is appended to the base path as it is, but for what has to be encoded. -/
theorem resourceUrl_plain (h : parse idna text = .ok e) {r : String} (hr : Plain r) :
    (e.resourceUrl r).path.render =
      e.basePathChars ++ '/' :: Percent.encode Percent.inPath r.toList := by
  obtain ⟨base, hbase, hchars, hurl⟩ := resourceUrl_eq h r
  rw [hurl, hchars, below?_of_plain hr.start]
  show segmentsText (Url.Path.resolve base.reverse
    (Host.splitOn (Url.Path.isSeparator true) (Url.skim r.toList))) = _
  rw [hr.skim, Url.Path.resolve_ordinary _ hr.ordinary, List.reverse_reverse,
    Url.Path.segmentsText_append, Url.Path.segmentsText_encode hr.noBackslash]

/-- Every endpoint is in normal form. Its URL is secure, has a host, and has neither query nor
fragment. Its base path starts with a slash unless it is empty, and does not end with one. Its text
is read as the endpoint itself, and a plain path is appended to its base path as it is, encoded. -/
theorem normal_of_parse (h : parse idna text = .ok e) :
    e.url.scheme = "https" ∧ (∃ host, e.url.hostText? = some host ∧ host ≠ "") ∧
      e.url.query = none ∧ e.url.fragment = none ∧
      (e.basePath = "" ∨ e.basePath.toList.head? = some '/') ∧
      e.basePath.toList.getLast? ≠ some '/' ∧
      parse idna e.render = .ok e ∧
      ∀ r, Plain r → (e.resourceUrl r).path.render =
        e.basePath.toList ++ '/' :: Percent.encode Percent.inPath r.toList := by
  obtain ⟨hscheme, -, hquery, hfragment⟩ := of_parse h
  obtain ⟨_, host, -, -, -, hhost, hwritten, -⟩ :=
    (Url.readable_endpoint h).shape.of_https hscheme
  have htext := Url.hostText?_of_render hhost hwritten.render_ne_nil
  have hnonempty : String.ofList host.render ≠ "" := by
    intro hempty
    exact hwritten.render_ne_nil (String.ofList_inj.1 hempty)
  obtain ⟨base, -, hchars, -, -⟩ := path_of_parse h
  have hstart : e.basePath = "" ∨ e.basePath.toList.head? = some '/' := by
    rw [basePath, String.toList_ofList, hchars]
    cases base with
    | nil => exact .inl rfl
    | cons s base => exact .inr rfl
  rw [basePath, String.toList_ofList] at hstart ⊢
  exact ⟨hscheme, ⟨_, htext, hnonempty⟩, hquery, hfragment, hstart, getLast?_trimSlashes _,
    parse_render h, fun r hr => resourceUrl_plain h hr⟩

namespace Sample

/-- The encoded form of a name beyond ASCII. -/
def books : Idna := .ofTable [("bücher".toList, "xn--bcher-kva".toList)] (by decide)

/-- An endpoint as it may be written. -/
def spelling : String := "HTTPS:\\\\me:pass@b%C3%BCcher:443/a/%2E%2e/b c//./d///?q=1#top"

/-- The endpoint that is meant. -/
def normalEndpoint : Endpoint :=
  ⟨⟨"https", "me", some "pass", some (.name "xn--bcher-kva"), none, .segments ["b%20c", "", "d"],
    none, none⟩⟩

theorem parse_spelling : Endpoint.parse books spelling = .ok normalEndpoint := by decide +kernel

end Sample

/-- A spelling with everything that is normalised, a host beyond ASCII among it, and a resource with
characters to encode. -/
theorem normal_of_parse_spelling :
    parse Sample.books Sample.spelling = .ok Sample.normalEndpoint ∧
      parse Sample.books Sample.normalEndpoint.render = .ok Sample.normalEndpoint ∧
      String.ofList (Sample.normalEndpoint.resourceUrl "cpcs//1?x y").path.render =
        "/b%20c//d/cpcs//1%3Fx%20y" := by
  obtain ⟨-, -, -, -, -, -, hagain, hresource⟩ := normal_of_parse Sample.parse_spelling
  have hplain : Plain "cpcs//1?x y" := ⟨by decide, by decide, by decide, by simp⟩
  refine ⟨Sample.parse_spelling, hagain, ?_⟩
  rw [hresource _ hplain]
  decide +kernel

end Endpoint

end HmcClient
